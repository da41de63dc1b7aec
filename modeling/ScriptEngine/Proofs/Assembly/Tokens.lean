import ScriptEngine.Assembly.Token
import ScriptEngine.Proofs.Result

/-!
# Lines that write tokens

A token is put together from pieces: plain characters, and parts between quotes. A line writes tokens (`Writes`) with blanks and
commas between any two of them, perhaps with some around them, and perhaps with a comment after them. A line ends open (`EndsOpen`)
when what follows such a beginning is a token that stops between quotes.

Here such lines are read: the pieces of a token are read into it one after the other, a gap ends it, and the tokens of the line are
those that it writes. A line of plain words with a blank between any two of them is a case of this.
-/

namespace ScriptEngine.Assembly

/-! ## Plain words -/

/-- A character that stands for itself in a token: it neither separates tokens nor begins a comment or a part between quotes. -/
def PlainChar (c : Char) : Prop := c ≠ '"' ∧ c ≠ ';' ∧ isSeparator c = false

instance (c : Char) : Decidable (PlainChar c) := inferInstanceAs (Decidable (_ ∧ _ ∧ _))

/-- A word of plain characters, at least one. -/
def PlainWord (w : List Char) : Prop := w ≠ [] ∧ ∀ c ∈ w, PlainChar c

-- The characters of the word are looked at, and not all there are.
instance (w : List Char) : Decidable (PlainWord w) :=
  haveI := List.decidableBAll PlainChar w
  inferInstanceAs (Decidable (_ ∧ _))

/-- The digits, the letters and the marks between them are plain, the semicolon excepted. -/
theorem plainChar_of_toNat {c : Char} (hlow : '0'.toNat ≤ c.toNat) (hhigh : c.toNat ≤ 'z'.toNat) (hcomment : c ≠ ';') :
    PlainChar c := by
  have hlow : 48 ≤ c.toNat := hlow
  have hhigh : c.toNat ≤ 122 := hhigh
  have hne (d : Char) (hd : d.toNat < 48) : c ≠ d := by
    rintro rfl
    omega
  have hcomma : (c == ',') = false := beq_eq_false_iff_ne.mpr (hne _ (by decide))
  have hblank : Text.isBlank c = false := by
    simp only [Text.isBlank, Bool.or_eq_false_iff, Bool.and_eq_false_iff, beq_eq_false_iff_ne, decide_eq_false_iff_not]
    omega
  refine ⟨hne _ (by decide), hcomment, ?_⟩
  rw [isSeparator, hblank, hcomma]
  rfl

/-! ## The grammar of a line -/

/-- A piece of a token: a plain character, or a part between quotes, in which any characters but quotes may stand. -/
inductive Piece : List Char → Prop where
  | plain {c : Char} : PlainChar c → Piece [c]
  | quoted {cs : List Char} : '"' ∉ cs → Piece ('"' :: (cs ++ ['"']))

/-- Some pieces in a row, or none. -/
def Run (cs : List Char) : Prop := ∃ pieces : List (List Char), (∀ p ∈ pieces, Piece p) ∧ pieces.flatten = cs

/-- A token: pieces in a row, at least one. -/
def IsToken (t : List Char) : Prop := t ≠ [] ∧ Run t

/-- What has been read of a token when the line stands between quotes: pieces in a row, and then a quote that is not closed. -/
def Open (t : List Char) : Prop := ∃ start rest, Run start ∧ '"' ∉ rest ∧ t = start ++ '"' :: rest

/-- Some blanks and commas, or none. -/
def Gap (cs : List Char) : Prop := ∀ c ∈ cs, isSeparator c = true

/-- A comment, whatever its text is, or nothing. -/
def IsComment (cs : List Char) : Prop := cs = [] ∨ ∃ text, cs = ';' :: text

/-- Tokens in a row, each with the gap after it. -/
def spread (words : List (List Char × List Char)) : List Char := words.flatMap fun w => w.1 ++ w.2

/-- The line writes the tokens: a gap, then the tokens, each with a gap after it that may be empty only after the last one, and then
a comment. -/
def Writes (ts : List (List Char)) (line : List Char) : Prop :=
  ∃ before words comment, line = before ++ spread words ++ comment ∧ words.map (·.1) = ts ∧ Gap before ∧
    (∀ w ∈ words, IsToken w.1 ∧ Gap w.2) ∧ (∀ w ∈ words.dropLast, w.2 ≠ []) ∧ IsComment comment

/-- The line ends between quotes, and `t` is its unfinished token: a gap comes first, and then tokens, each with a gap after it that
is not empty. -/
def EndsOpen (t line : List Char) : Prop :=
  ∃ before words, line = before ++ spread words ++ t ∧ Gap before ∧ (∀ w ∈ words, IsToken w.1 ∧ Gap w.2 ∧ w.2 ≠ []) ∧ Open t

/-! ## Runs of pieces -/

theorem Run.nil : Run [] := ⟨[], List.forall_mem_nil _, rfl⟩

/-- A run goes on with one more piece. -/
theorem Run.concat {cs p : List Char} (h : Run cs) (hp : Piece p) : Run (cs ++ p) := by
  obtain ⟨pieces, hpieces, rfl⟩ := h
  refine ⟨pieces ++ [p], ?_, by simp⟩
  rw [List.forall_mem_append]
  exact ⟨hpieces, List.forall_mem_singleton.mpr hp⟩

/-- A word of plain characters is a run of them. -/
theorem PlainWord.isToken {w : List Char} (h : PlainWord w) : IsToken w := by
  refine ⟨h.1, w.map ([·]), ?_, by simp [← List.flatMap_def]⟩
  intro p hp
  obtain ⟨c, hc, rfl⟩ := List.mem_map.mp hp
  exact .plain (h.2 c hc)

/-- A quote that is closed is the last piece of a run. -/
theorem Open.close {t : List Char} (h : Open t) : Run (t ++ ['"']) := by
  obtain ⟨start, rest, hstart, hrest, rfl⟩ := h
  have hclosed := hstart.concat (.quoted hrest)
  rwa [← List.cons_append, ← List.append_assoc] at hclosed

/-- Between quotes any character but a quote may follow. -/
theorem Open.concat {t : List Char} (h : Open t) {c : Char} (hc : c ≠ '"') : Open (t ++ [c]) := by
  obtain ⟨start, rest, hstart, hrest, rfl⟩ := h
  refine ⟨start, rest ++ [c], hstart, ?_, by simp⟩
  simpa using ⟨hrest, Ne.symm hc⟩

/-! ## Lines from their end on -/

section Lines

variable {t u rest comment : List Char} {ts : List (List Char)} {c : Char}

/-- A comment writes no token. -/
theorem IsComment.writes (h : IsComment comment) : Writes [] comment :=
  ⟨[], [], comment, rfl, rfl, List.forall_mem_nil _, List.forall_mem_nil _, List.forall_mem_nil _, h⟩

/-- The last token may stand right before the comment. -/
theorem Writes.last (h : IsToken u) (hcomment : IsComment comment) : Writes [u] (u ++ comment) := by
  refine ⟨[], [(u, [])], comment, by simp [spread], rfl, List.forall_mem_nil _, ?_, List.forall_mem_nil _, hcomment⟩
  exact List.forall_mem_singleton.mpr ⟨h, List.forall_mem_nil _⟩

/-- A blank or a comma in front of a line changes nothing. -/
theorem Writes.separator (hc : isSeparator c = true) (h : Writes ts rest) : Writes ts (c :: rest) := by
  obtain ⟨before, words, comment, rfl, hts, hbefore, hwords⟩ := h
  exact ⟨c :: before, words, comment, rfl, hts, List.forall_mem_cons.mpr ⟨hc, hbefore⟩, hwords⟩

/-- A token stands in front of a line that begins with a blank or a comma. -/
theorem Writes.token (hu : IsToken u) (hc : isSeparator c = true) (h : Writes ts rest) :
    Writes (u :: ts) (u ++ c :: rest) := by
  obtain ⟨before, words, comment, rfl, rfl, hbefore, hwords, hgaps, hcomment⟩ := h
  refine ⟨[], (u, c :: before) :: words, comment, by simp [spread], rfl, List.forall_mem_nil _, ?_, ?_, hcomment⟩
  · exact List.forall_mem_cons.mpr ⟨⟨hu, List.forall_mem_cons.mpr ⟨hc, hbefore⟩⟩, hwords⟩
  · cases words with
    | nil => exact List.forall_mem_nil _
    | cons w words => exact List.forall_mem_cons.mpr ⟨List.cons_ne_nil _ _, hgaps⟩

/-- What stops between quotes is a line that ends there. -/
theorem Open.endsOpen (h : Open t) : EndsOpen t t :=
  ⟨[], [], rfl, List.forall_mem_nil _, List.forall_mem_nil _, h⟩

/-- A blank or a comma in front of a line changes nothing. -/
theorem EndsOpen.separator (hc : isSeparator c = true) (h : EndsOpen t rest) : EndsOpen t (c :: rest) := by
  obtain ⟨before, words, rfl, hbefore, hwords⟩ := h
  exact ⟨c :: before, words, rfl, List.forall_mem_cons.mpr ⟨hc, hbefore⟩, hwords⟩

/-- A token stands in front of a line that begins with a blank or a comma. -/
theorem EndsOpen.token (hu : IsToken u) (hc : isSeparator c = true) (h : EndsOpen t rest) :
    EndsOpen t (u ++ c :: rest) := by
  obtain ⟨before, words, rfl, hbefore, hwords, ht⟩ := h
  refine ⟨[], (u, c :: before) :: words, by simp [spread], List.forall_mem_nil _, ?_, ht⟩
  exact List.forall_mem_cons.mpr ⟨⟨hu, List.forall_mem_cons.mpr ⟨hc, hbefore⟩, List.cons_ne_nil _ _⟩, hwords⟩

end Lines

/-! ## Reading a line -/

section Reading

variable {t g w cs comment : List Char}

/-- Outside quotes a plain character is read into the token. -/
theorem tokensFrom_plainChar {c : Char} (h : PlainChar c) (read rest : List Char) :
    tokensFrom false read (c :: rest) = tokensFrom false (c :: read) rest := by
  obtain ⟨hquote, hcomment, hseparator⟩ := h
  rw [tokensFrom, if_neg hquote, if_neg Bool.false_ne_true, if_neg hcomment, hseparator, if_neg Bool.false_ne_true]

/-- Between quotes all characters but quotes are read into the token. -/
theorem tokensFrom_quoted (h : '"' ∉ cs) (read rest : List Char) :
    tokensFrom true read (cs ++ rest) = tokensFrom true (cs.reverse ++ read) rest := by
  induction cs generalizing read with
  | nil => rfl
  | cons c cs ih =>
    have hc : c ≠ '"' := Ne.symm (List.ne_of_not_mem_cons h)
    have hcs : '"' ∉ cs := List.not_mem_of_not_mem_cons h
    rw [List.cons_append, tokensFrom, if_neg hc, if_pos rfl, ih hcs, List.reverse_cons, List.append_assoc,
      List.singleton_append]

/-- Outside quotes a quote and what follows it up to the next quote are read into the token. -/
theorem tokensFrom_openQuote (h : '"' ∉ cs) (read rest : List Char) :
    tokensFrom false read ('"' :: (cs ++ rest)) = tokensFrom true (('"' :: cs).reverse ++ read) rest := by
  rw [tokensFrom, if_pos rfl, Bool.not_false, tokensFrom_quoted h, List.reverse_cons, List.append_assoc,
    List.singleton_append]

/-- Outside quotes a piece is read into the token. -/
theorem tokensFrom_piece {p : List Char} (h : Piece p) (read rest : List Char) :
    tokensFrom false read (p ++ rest) = tokensFrom false (p.reverse ++ read) rest := by
  cases h with
  | plain hc => exact tokensFrom_plainChar hc read rest
  | quoted hcs =>
    rw [List.cons_append, List.append_assoc, List.singleton_append, tokensFrom_openQuote hcs, tokensFrom, if_pos rfl]
    simp

/-- Outside quotes a run of pieces is read into the token. -/
theorem tokensFrom_run {run : List Char} (h : Run run) (read rest : List Char) :
    tokensFrom false read (run ++ rest) = tokensFrom false (run.reverse ++ read) rest := by
  obtain ⟨pieces, hpieces, rfl⟩ := h
  induction pieces generalizing read with
  | nil => rfl
  | cons p pieces ih =>
    obtain ⟨hp, hpieces⟩ := List.forall_mem_cons.mp hpieces
    rw [List.flatten_cons, List.append_assoc, tokensFrom_piece hp, ih _ hpieces, List.reverse_append, List.append_assoc]

/-- What has been read of a token that is not empty is the token. -/
theorem finish_reverse (h : t ≠ []) : finish t.reverse = [t] := by
  have hne : t.reverse.isEmpty = false := List.isEmpty_eq_false_iff.mpr (mt List.reverse_eq_nil_iff.mp h)
  rw [finish, hne, List.reverse_reverse]
  rfl

/-- Outside quotes a blank or a comma ends the token. -/
theorem tokensFrom_separator {c : Char} (hc : isSeparator c = true) (read rest : List Char) :
    tokensFrom false read (c :: rest) = (finish read ++ ·) <$> tokens rest := by
  have hquote : c ≠ '"' := by
    rintro rfl
    cases hc
  have hcomment : c ≠ ';' := by
    rintro rfl
    cases hc
  rw [tokensFrom, if_neg hquote, if_neg Bool.false_ne_true, if_neg hcomment, if_pos hc]
  rfl

/-- Outside quotes a comment ends the token and the line. -/
theorem tokensFrom_comment (h : IsComment comment) (read : List Char) : tokensFrom false read comment = .ok (finish read) := by
  obtain rfl | ⟨text, rfl⟩ := h <;> rfl

/-- A gap is passed over. -/
theorem tokens_gap (h : Gap g) (rest : List Char) : tokens (g ++ rest) = tokens rest := by
  induction g with
  | nil => rfl
  | cons c g ih =>
    obtain ⟨hc, hg⟩ := List.forall_mem_cons.mp h
    rw [List.cons_append, tokens, tokensFrom_separator hc, ih hg]
    cases tokens rest <;> rfl

/-- A token with a gap after it is the first token of the line. -/
theorem tokens_token_gap (ht : IsToken t) (hg : Gap g) (hne : g ≠ []) (rest : List Char) :
    tokens (t ++ g ++ rest) = (t :: ·) <$> tokens rest := by
  obtain ⟨c, g, rfl⟩ := List.exists_cons_of_ne_nil hne
  obtain ⟨hc, hg⟩ := List.forall_mem_cons.mp hg
  rw [tokens, List.append_assoc, tokensFrom_run ht.2, List.append_nil, List.cons_append, tokensFrom_separator hc,
    tokens_gap hg, finish_reverse ht.1]
  rfl

/-- Tokens with gaps after them are the first tokens of the line. -/
theorem tokens_spread {words : List (List Char × List Char)} (h : ∀ w ∈ words, IsToken w.1 ∧ Gap w.2 ∧ w.2 ≠ [])
    (rest : List Char) : tokens (spread words ++ rest) = (words.map (·.1) ++ ·) <$> tokens rest := by
  induction words with
  | nil => cases htokens : tokens rest <;> simp [spread, htokens, Functor.map, Except.map]
  | cons w words ih =>
    obtain ⟨⟨ht, hg, hne⟩, hwords⟩ := List.forall_mem_cons.mp h
    rw [spread, List.flatMap_cons, ← spread, List.append_assoc, tokens_token_gap ht hg hne, ih hwords]
    cases tokens rest <;> rfl

/-- A token may stand right before the comment. -/
theorem tokens_token_comment (ht : IsToken t) (h : IsComment comment) : tokens (t ++ comment) = .ok [t] := by
  rw [tokens, tokensFrom_run ht.2, List.append_nil, tokensFrom_comment h, finish_reverse ht.1]

/-- What stops between quotes has no tokens. -/
theorem tokens_open (h : Open t) : tokens t = .error t := by
  obtain ⟨start, rest, hstart, hrest, rfl⟩ := h
  have hread := tokensFrom_openQuote hrest start.reverse []
  rw [List.append_nil] at hread
  rw [tokens, tokensFrom_run hstart, List.append_nil, hread, tokensFrom, if_pos rfl]
  simp

/-- A line has the tokens that it writes. -/
theorem Writes.tokens_eq {ts : List (List Char)} {line : List Char} (h : Writes ts line) : tokens line = .ok ts := by
  obtain ⟨before, words, comment, rfl, rfl, hbefore, hwords, hgaps, hcomment⟩ := h
  rw [List.append_assoc, tokens_gap hbefore]
  obtain rfl | ⟨init, last, rfl⟩ := List.eq_nil_or_concat words
  · exact tokensFrom_comment hcomment []
  · rw [List.concat_eq_append] at hwords hgaps ⊢
    rw [List.dropLast_concat] at hgaps
    obtain ⟨hinit, hlast⟩ := List.forall_mem_append.mp hwords
    obtain ⟨ht, hg⟩ := List.forall_mem_singleton.mp hlast
    have hend : tokens (last.1 ++ last.2 ++ comment) = .ok [last.1] := by
      by_cases hne : last.2 = []
      · rw [hne, List.append_nil]
        exact tokens_token_comment ht hcomment
      · rw [tokens_token_gap ht hg hne, tokens, tokensFrom_comment hcomment]
        rfl
    have hspread : spread (init ++ [last]) = spread init ++ (last.1 ++ last.2) := by simp [spread]
    rw [hspread, List.append_assoc, tokens_spread fun w hw => ⟨(hinit w hw).1, (hinit w hw).2, hgaps w hw⟩, hend,
      List.map_append]
    rfl

/-- A line that ends between quotes has no tokens. -/
theorem EndsOpen.tokens_eq {line : List Char} (h : EndsOpen t line) : tokens line = .error t := by
  obtain ⟨before, words, rfl, hbefore, hwords, ht⟩ := h
  rw [List.append_assoc, tokens_gap hbefore, tokens_spread hwords, tokens_open ht]
  rfl

/-- Plain words with blanks between them are the tokens of the line. -/
theorem tokens_intercalate {ws : List (List Char)} (h : ∀ v ∈ w :: ws, PlainWord v) :
    tokens ([' '].intercalate (w :: ws)) = .ok (w :: ws) := by
  refine Writes.tokens_eq ?_
  induction ws generalizing w with
  | nil =>
    have hline := Writes.last (List.forall_mem_singleton.mp h).isToken (Or.inl rfl)
    rw [List.append_nil] at hline
    rwa [List.intercalate_singleton]
  | cons v ws ih =>
    obtain ⟨hw, hws⟩ := List.forall_mem_cons.mp h
    rw [List.intercalate_cons_cons, List.append_assoc, List.singleton_append]
    exact .token hw.isToken rfl (ih hws)

end Reading

end ScriptEngine.Assembly
