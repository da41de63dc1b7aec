/-!
# Letter case

Names that ignore case do so for the ASCII letters only: `A` to `Z` fold to `a` to `z`, and every other character stands for
itself.
-/

namespace ScriptEngine.Text

/-- The lower case of an ASCII letter, and any other character unchanged. -/
def foldChar (c : Char) : Char :=
  if 'A' ≤ c ∧ c ≤ 'Z' then Char.ofNat (c.toNat + 32) else c

/-- A name with its ASCII letters in lower case. -/
def fold (s : String) : String := String.ofList (s.toList.map foldChar)

/-- Folding a character again changes nothing. -/
theorem foldChar_foldChar (c : Char) : foldChar (foldChar c) = foldChar c := by
  by_cases h : 'A' ≤ c ∧ c ≤ 'Z'
  · have hlow : 65 ≤ c.toNat := h.1
    have hhigh : c.toNat ≤ 90 := h.2
    have hvalid : (c.toNat + 32).isValidChar := Or.inl (by omega)
    have hfold : foldChar c = Char.ofNatAux (c.toNat + 32) hvalid := by
      rw [foldChar, if_pos h, Char.ofNat, dif_pos hvalid]
    have hnat : (foldChar c).toNat = c.toNat + 32 := by
      rw [hfold]
      rfl
    have hnot : ¬ ('A' ≤ foldChar c ∧ foldChar c ≤ 'Z') := by
      rintro ⟨-, hle⟩
      have hle : (foldChar c).toNat ≤ 90 := hle
      omega
    rw [foldChar, if_neg hnot]
  · have hfold : foldChar c = c := if_neg h
    rw [hfold, hfold]

/-- Folding a name again changes nothing. -/
theorem fold_fold (s : String) : fold (fold s) = fold s := by
  unfold fold
  rw [String.toList_ofList, List.map_map]
  congr 1
  exact List.map_congr_left fun c _ => foldChar_foldChar c

end ScriptEngine.Text
