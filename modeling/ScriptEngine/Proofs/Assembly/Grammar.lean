import Mathlib.Data.List.Forall2
import ScriptEngine.Assembly.Assemble
import ScriptEngine.Proofs.Assembly.Tokens

/-!
# The grammar of source lines

A line has tokens exactly when it writes them, and it has none exactly when it ends between quotes; so every line does one or the
other. That a line has the tokens which it writes is found out by reading it from the left. The converse is an induction on what is
left of the line. What has been read is a run of pieces outside quotes and an open token between quotes, and the line as a whole is
what has been read with the rest after it (`says_tokensFrom`).

What a source assembles to depends on its lines only through their tokens, and on the first token of a line only through the
instruction that it names.
-/

namespace ScriptEngine.Assembly

/-! ## What a line has been found to be -/

/-- What the answer for a line says of it: that it writes some tokens, or that it ends between quotes. -/
def Says (line : List Char) : Except (List Char) (List (List Char)) → Prop
  | .ok ts => Writes ts line
  | .error t => EndsOpen t line

/-- A run in front of the end of a line is its last token, unless it is empty. -/
theorem says_finish {run comment : List Char} (hrun : Run run) (hcomment : IsComment comment) :
    Says (run ++ comment) (.ok (finish run.reverse)) := by
  by_cases hne : run = []
  · subst hne
    exact hcomment.writes
  · rw [finish_reverse hne]
    exact .last ⟨hne, hrun⟩ hcomment

/-- A run in front of a blank or a comma is the first token of a line, unless it is empty. -/
theorem says_finish_append {run rest : List Char} {c : Char} (hrun : Run run) (hc : isSeparator c = true)
    {answer : Except (List Char) (List (List Char))} (h : Says rest answer) :
    Says (run ++ c :: rest) ((finish run.reverse ++ ·) <$> answer) := by
  by_cases hne : run = []
  · subst hne
    cases answer with
    | ok ts => exact Writes.separator hc h
    | error t => exact EndsOpen.separator hc h
  · rw [finish_reverse hne]
    cases answer with
    | ok ts => exact Writes.token ⟨hne, hrun⟩ hc h
    | error t => exact EndsOpen.token ⟨hne, hrun⟩ hc h

/-- The answer that reading goes on to is right about the whole line, if what has been read is a run of pieces outside quotes, and
an open token between them. -/
theorem says_tokensFrom (line : List Char) :
    (∀ run, Run run → Says (run ++ line) (tokensFrom false run.reverse line)) ∧
      ∀ t, Open t → Says (t ++ line) (tokensFrom true t.reverse line) := by
  induction line with
  | nil =>
    refine ⟨?_, ?_⟩
    · intro run hrun
      exact says_finish hrun (Or.inl rfl)
    · intro t ht
      rw [List.append_nil, tokensFrom, if_pos rfl, List.reverse_reverse]
      exact ht.endsOpen
  | cons c line ih =>
    obtain ⟨outside, between⟩ := ih
    have hread (t : List Char) : c :: t.reverse = (t ++ [c]).reverse := List.reverse_concat.symm
    have hline (t : List Char) : t ++ c :: line = t ++ [c] ++ line := List.append_cons t c line
    refine ⟨?_, ?_⟩
    · intro run hrun
      by_cases hquote : c = '"'
      · subst hquote
        rw [tokensFrom, if_pos rfl, hread, hline]
        exact between _ ⟨run, [], hrun, List.not_mem_nil, rfl⟩
      by_cases hcomment : c = ';'
      · subst hcomment
        rw [tokensFrom_comment (Or.inr ⟨line, rfl⟩)]
        exact says_finish hrun (Or.inr ⟨line, rfl⟩)
      by_cases hseparator : isSeparator c = true
      · rw [tokensFrom_separator hseparator]
        exact says_finish_append hrun hseparator (outside [] .nil)
      · have hplain : PlainChar c := ⟨hquote, hcomment, Bool.eq_false_iff.mpr hseparator⟩
        rw [tokensFrom_plainChar hplain, hread, hline]
        exact outside _ (hrun.concat (.plain hplain))
    · intro t ht
      by_cases hquote : c = '"'
      · subst hquote
        rw [tokensFrom, if_pos rfl, hread, hline]
        exact outside _ ht.close
      · rw [tokensFrom, if_neg hquote, if_pos rfl, hread, hline]
        exact between _ (ht.concat hquote)

/-- A line has exactly the tokens that it writes. -/
theorem tokens_eq_ok_iff {line : List Char} {ts : List (List Char)} : tokens line = .ok ts ↔ Writes ts line := by
  refine ⟨fun h => ?_, Writes.tokens_eq⟩
  have hsays := (says_tokensFrom line).1 [] .nil
  rwa [List.reverse_nil, ← tokens, h] at hsays

/-- A line has no tokens exactly when it ends between quotes, and its unfinished token is the error. -/
theorem tokens_eq_error_iff {line t : List Char} : tokens line = .error t ↔ EndsOpen t line := by
  refine ⟨fun h => ?_, EndsOpen.tokens_eq⟩
  have hsays := (says_tokensFrom line).1 [] .nil
  rwa [List.reverse_nil, ← tokens, h] at hsays

/-! ## Lines that say the same -/

section Same

variable {r r' : Registry} {s s' : Script}

/-- A line that assembles does so in the same way as another one with the same operands, if the name on that one finds the same
instruction. -/
theorem assembleLine_of_lookup {line line' name name' : List Char} {operands : List (List Char)}
    (htokens : tokens line = .ok (name :: operands)) (htokens' : tokens line' = .ok (name' :: operands))
    (hlookup : ∀ d, r.lookup (String.ofList name) = .ok d → r'.lookup (String.ofList name') = .ok d)
    (h : assembleLine r line s = .ok s') : assembleLine r' line' s = .ok s' := by
  unfold assembleLine at h ⊢
  rw [htokens] at h
  rw [htokens']
  simp only at h ⊢
  cases hd : r.lookup (String.ofList name) with
  | error e =>
    rw [hd] at h
    cases h
  | ok d =>
    rw [hd] at h
    rw [hlookup d hd]
    exact h

/-- Lines that assemble do so in the same way as others, if each of them does. -/
theorem assembleLines_of_forall₂ {R : List Char → List Char → Prop}
    (hline : ∀ line line' s s', R line line' → assembleLine r line s = .ok s' → assembleLine r' line' s = .ok s')
    {number : Nat} {lines lines' : List (List Char)} (hlines : List.Forall₂ R lines lines')
    (h : assembleLines r number s lines = .ok s') : assembleLines r' number s lines' = .ok s' := by
  induction hlines generalizing number s with
  | nil => exact h
  | cons hfirst _ ih =>
    rw [assembleLines] at h ⊢
    split at h
    · cases h
    rename_i s₁ hs₁
    rw [hline _ _ _ _ hfirst hs₁]
    exact ih h

end Same

/-- The tokens of two lines are the same but for the case of ASCII letters in the first one. -/
inductive SameStatement : List (List Char) → List (List Char) → Prop where
  | blank : SameStatement [] []
  | named {name name' : List Char} (operands : List (List Char)) :
      Text.fold (String.ofList name) = Text.fold (String.ofList name') → SameStatement (name :: operands) (name' :: operands)

/-- Two lines write the same tokens, but for the case of ASCII letters in the first one. Gaps and comments may differ. -/
def Alike (line line' : List Char) : Prop := ∃ ts ts', Writes ts line ∧ Writes ts' line' ∧ SameStatement ts ts'

/-- The case of ASCII letters in a name does not matter to a lookup that succeeds. -/
theorem lookup_eq_ok_of_fold {r : Registry} {name name' : String} {d : Descriptor} (hname : Text.fold name = Text.fold name')
    (h : r.lookup name = .ok d) : r.lookup name' = .ok d := by
  have hfind : r.find? name' = r.find? name := by
    unfold Registry.find?
    rw [hname]
  unfold Registry.lookup at h ⊢
  rw [hfind]
  cases hd : r.find? name with
  | none =>
    rw [hd] at h
    cases h
  | some d' =>
    rw [hd] at h
    exact h

/-- A line that assembles does so in the same way when it is written differently. -/
theorem assembleLine_of_alike {r : Registry} {line line' : List Char} {s s' : Script} (halike : Alike line line')
    (h : assembleLine r line s = .ok s') : assembleLine r line' s = .ok s' := by
  obtain ⟨ts, ts', hts, hts', hsame⟩ := halike
  cases hsame with
  | blank =>
    rw [assembleLine, hts.tokens_eq] at h
    rw [assembleLine, hts'.tokens_eq]
    exact h
  | named operands hname => exact assembleLine_of_lookup hts.tokens_eq hts'.tokens_eq (fun _ => lookup_eq_ok_of_fold hname) h

/-- The tokens of lines have exactly this grammar. A line has some tokens exactly when it writes them: a gap, the tokens with gaps
that are not empty between them, another gap, and perhaps a comment with any text. Otherwise it ends between quotes, exactly then
there are no tokens, and the unfinished token is what the assembler reports. So a source that assembles gives the same script when
other gaps and comments are written in its lines, and when ASCII letters of the names of instructions are written in the other
case. -/
theorem tokens_have_grammar :
    (∀ line ts, tokens line = .ok ts ↔ Writes ts line) ∧
      (∀ line t, tokens line = .error t ↔ EndsOpen t line) ∧
      (∀ (r : Registry) s line t, EndsOpen t line → assembleLine r line s = .error (.badOperand (String.ofList t))) ∧
      ∀ (r : Registry) source source' s, List.Forall₂ Alike (Text.lines source.toList) (Text.lines source'.toList) →
        assemble r source = .ok s → assemble r source' = .ok s := by
  refine ⟨fun _ _ => tokens_eq_ok_iff, fun _ _ => tokens_eq_error_iff, ?_, ?_⟩
  · intro r s line t hopen
    rw [assembleLine, hopen.tokens_eq]
  · intro r source source' s halike h
    exact assembleLines_of_forall₂ (fun _ _ _ _ => assembleLine_of_alike) halike h

/-- A line with a quoted part in the middle of a token, separators of both kinds and quotes in the comment. -/
example : tokens "\tpush, a\"; ,\"b ,\u2003c;d\"".toList = .ok ["push".toList, "a\"; ,\"b".toList, "c".toList] := by rfl

end ScriptEngine.Assembly
