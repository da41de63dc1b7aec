import ScriptEngine.Text.Line

/-!
# Lines of a text

A text that is put together from lines is taken apart into the same lines, if none of them holds a character that ends lines. If
each line is ended by a carriage return and a line feed, only line feeds can be such characters, and no line of any text holds one:
so all lines of a text, or some of them, are the lines of a text again.
-/

namespace ScriptEngine.Text

/-- A text that stays within a line: it holds neither a line feed nor a carriage return. -/
def OneLine (cs : List Char) : Prop := ∀ c ∈ cs, c ≠ '\n' ∧ c ≠ '\r'

/-- A character of a line stands in front of the rest of the line. -/
theorem lines_cons {c : Char} {cs l : List Char} {ls : List (List Char)} (hlf : c ≠ '\n')
    (hcr : c = '\r' → cs.head? ≠ some '\n') (h : lines cs = l :: ls) : lines (c :: cs) = (c :: l) :: ls := by
  rw [lines, h]
  · exact hlf
  · rintro cs' rfl rfl
    exact hcr rfl rfl

/-- A line feed ends a line. -/
theorem lines_append_lf {l : List Char} (h : OneLine l) (rest : List Char) : lines (l ++ '\n' :: rest) = l :: lines rest := by
  induction l with
  | nil => rfl
  | cons c l ih =>
    obtain ⟨⟨hlf, hcr⟩, hl⟩ := List.forall_mem_cons.mp h
    exact lines_cons hlf (fun hc => absurd hc hcr) (ih hl)

/-- Lines that are ended by line feeds. -/
theorem lines_flatMap {ls : List (List Char)} (h : ∀ l ∈ ls, OneLine l) : lines (ls.flatMap (· ++ ['\n'])) = ls := by
  induction ls with
  | nil => rfl
  | cons l ls ih =>
    obtain ⟨hl, hls⟩ := List.forall_mem_cons.mp h
    rw [List.flatMap_cons, List.append_assoc, List.singleton_append, lines_append_lf hl, ih hls]

/-! ## Any lines -/

/-- No line holds a line feed. -/
theorem lf_not_mem_of_mem_lines {cs l : List Char} (h : l ∈ lines cs) : '\n' ∉ l := by
  fun_induction lines cs generalizing l with
  | case1 => cases h
  | case2 cs ih | case3 cs ih =>
    rcases List.mem_cons.mp h with rfl | h
    · exact List.not_mem_nil
    · exact ih h
  | case4 c cs hlf hcr hnil ih =>
    obtain rfl := List.mem_singleton.mp h
    simpa using Ne.symm hlf
  | case5 c cs hlf hcr first rest hlines ih =>
    rw [hlines] at ih
    rcases List.mem_cons.mp h with rfl | h
    · simpa using ⟨Ne.symm hlf, ih List.mem_cons_self⟩
    · exact ih (List.mem_cons_of_mem _ h)

/-- A carriage return and a line feed end a line, whatever carriage returns the line holds. -/
theorem lines_append_crlf {l : List Char} (h : '\n' ∉ l) (rest : List Char) :
    lines (l ++ '\r' :: '\n' :: rest) = l :: lines rest := by
  induction l with
  | nil => rfl
  | cons c l ih =>
    have hlf : c ≠ '\n' := Ne.symm (List.ne_of_not_mem_cons h)
    have hl : '\n' ∉ l := List.not_mem_of_not_mem_cons h
    refine lines_cons hlf (fun _ => ?_) (ih hl)
    cases l with
    | nil => simp
    | cons d l => simpa using Ne.symm (List.ne_of_not_mem_cons hl)

/-- Lines without line feeds are the lines of some text. -/
theorem exists_lines_eq {ls : List (List Char)} (h : ∀ l ∈ ls, '\n' ∉ l) : ∃ cs, lines cs = ls := by
  induction ls with
  | nil => exact ⟨[], rfl⟩
  | cons l ls ih =>
    obtain ⟨hl, hls⟩ := List.forall_mem_cons.mp h
    obtain ⟨cs, rfl⟩ := ih hls
    exact ⟨l ++ '\r' :: '\n' :: cs, lines_append_crlf hl cs⟩

/-- The first lines of a text are the lines of some text. -/
theorem exists_lines_eq_take (cs : List Char) (n : Nat) : ∃ cs', lines cs' = (lines cs).take n :=
  exists_lines_eq fun _ hl => lf_not_mem_of_mem_lines (List.mem_of_mem_take hl)

end ScriptEngine.Text
