import ScriptEngine.Proofs.Result
import ScriptEngine.Registry.Signature

/-!
# Signatures and their texts

Every letter stands for one parameter, and no letter is a slash, so the text of a signature can be read in one way only. What cannot
be read back is a signature that ignores a required parameter: it has a text, but that text is none of a signature.
-/

namespace ScriptEngine

namespace Param

/-- A letter is read as the parameter that has it. -/
theorem ofLetter?_eq_some_iff {c : Char} {p : Param} : ofLetter? c = some p ↔ p.letter = c := by
  constructor
  · intro h
    unfold ofLetter? at h
    split at h <;> cases h <;> rfl
  · rintro rfl
    cases p <;> rfl

theorem letter_ne_slash (p : Param) : p.letter ≠ '/' := by
  cases p <;> decide

end Param

namespace Signature

/-- No required parameter is ignored. -/
def Valid (s : Signature) : Prop := Param.ignored ∉ s.required

/-! ## The characters of a text -/

theorem toList_text_optional (ps : List Param) : (text ⟨[], some ps⟩).toList = '/' :: ps.map Param.letter := by
  simp [text]

theorem toList_text_cons (p : Param) (ps : List Param) (optional? : Option (List Param)) :
    (text ⟨p :: ps, optional?⟩).toList = p.letter :: (text ⟨ps, optional?⟩).toList := by
  simp [text]

/-! ## Reading back what was written -/

/-- After a slash letters are read as their parameters, and reading goes on behind them. -/
theorem readOptional_letters_append (ps : List Param) (cs : List Char) :
    readOptional (ps.map Param.letter ++ cs) = (ps ++ ·) <$> readOptional cs := by
  induction ps with
  | nil => exact (id_map _).symm
  | cons p ps ih =>
    rw [List.map_cons, List.cons_append, readOptional, if_neg p.letter_ne_slash, Param.ofLetter?_eq_some_iff.mpr rfl, ih]
    exact Functor.map_map _ _ _

/-- In front of a slash letters of parameters that are not ignored are read as these, and reading goes on behind them. -/
theorem read_letters_append {ps : List Param} (hps : .ignored ∉ ps) (cs : List Char) :
    read (ps.map Param.letter ++ cs) = (fun s => { s with required := ps ++ s.required }) <$> read cs := by
  induction ps with
  | nil => exact (id_map _).symm
  | cons p ps ih =>
    obtain ⟨hp, hrest⟩ := not_or.mp (mt List.mem_cons.mpr hps)
    rw [List.map_cons, List.cons_append, read, if_neg p.letter_ne_slash, Param.ofLetter?_eq_some_iff.mpr rfl, ih hrest]
    cases p with
    | ignored => exact absurd rfl hp
    | long | short | float | identifier | string => exact Functor.map_map _ _ _

/-- A valid signature is read from its text. -/
theorem Valid.read_text {s : Signature} (h : s.Valid) : read s.text.toList = .ok s := by
  obtain ⟨required, optional?⟩ := s
  rw [text, String.toList_ofList, read_letters_append h]
  cases optional? with
  | none => simp [read, Functor.map, Except.map]
  | some ps =>
    have hoptional : readOptional (ps.map Param.letter) = .ok ps := by
      simpa [readOptional, Functor.map, Except.map] using readOptional_letters_append ps []
    simp [read, hoptional, Functor.map, Except.map]

/-! ## What can be read -/

/-- What is read after a slash has those letters. -/
theorem letters_of_readOptional {cs : List Char} {ps : List Param} (h : readOptional cs = .ok ps) :
    ps.map Param.letter = cs := by
  induction cs generalizing ps with
  | nil =>
    cases h
    rfl
  | cons c cs ih =>
    rw [readOptional] at h
    split at h
    · cases h
    split at h
    · cases h
    rename_i p hp
    obtain ⟨ps, hps, rfl⟩ := map_eq_ok_iff.mp h
    rw [List.map_cons, Param.ofLetter?_eq_some_iff.mp hp, ih hps]

/-- What is read is a valid signature with that text. -/
theorem valid_of_read {cs : List Char} {s : Signature} (h : read cs = .ok s) : s.Valid ∧ s.text.toList = cs := by
  induction cs generalizing s with
  | nil =>
    cases h
    exact ⟨List.not_mem_nil, rfl⟩
  | cons c cs ih =>
    rw [read] at h
    split at h
    · rename_i hslash
      obtain ⟨ps, hps, rfl⟩ := map_eq_ok_iff.mp h
      refine ⟨List.not_mem_nil, ?_⟩
      rw [toList_text_optional, letters_of_readOptional hps, hslash]
    split at h
    · cases h
    · cases h
    rename_i p hignored hp
    obtain ⟨s, hs, rfl⟩ := map_eq_ok_iff.mp h
    obtain ⟨hvalid, htext⟩ := ih hs
    refine ⟨?_, ?_⟩
    · intro hmem
      rcases List.mem_cons.mp hmem with hp' | hmem
      · exact hignored hp'.symm
      · exact hvalid hmem
    · rw [toList_text_cons, Param.ofLetter?_eq_some_iff.mp hp, htext]

/-- A text is read as the valid signature that has it. -/
theorem ofText_eq_ok_iff {text : String} {s : Signature} : ofText text = .ok s ↔ s.Valid ∧ s.text = text := by
  constructor
  · intro h
    obtain ⟨hvalid, htext⟩ := valid_of_read h
    exact ⟨hvalid, String.toList_inj.mp htext⟩
  · rintro ⟨hvalid, rfl⟩
    exact hvalid.read_text

end Signature

end ScriptEngine
