import Mathlib.Data.List.Forall2
import ScriptEngine.Text.Case

/-!
# Names up to case

Two names are the same up to case when they have the same characters at the same places, but that the two cases of an ASCII letter
count as one. Folding tells exactly these names apart: names that differ in any other letter, or in the case of a letter that is not
an ASCII one, have different folds.
-/

namespace ScriptEngine.Text

/-- An ASCII letter in upper case, and the same letter in lower case. -/
def Cased (upper lower : Char) : Prop := 'A' ≤ upper ∧ upper ≤ 'Z' ∧ lower.toNat = upper.toNat + 32

/-- The same character, or the two cases of an ASCII letter. -/
def SameLetter (c d : Char) : Prop := c = d ∨ Cased c d ∨ Cased d c

/-- The same name up to the case of ASCII letters. -/
def SameName (a b : String) : Prop := List.Forall₂ SameLetter a.toList b.toList

/-- Folding moves the upper case letters by 32 and nothing else. -/
theorem toNat_foldChar (c : Char) :
    (foldChar c).toNat = if 65 ≤ c.toNat ∧ c.toNat ≤ 90 then c.toNat + 32 else c.toNat := by
  have hupper : ('A' ≤ c ∧ c ≤ 'Z') ↔ 65 ≤ c.toNat ∧ c.toNat ≤ 90 := Iff.rfl
  unfold foldChar
  by_cases h : 65 ≤ c.toNat ∧ c.toNat ≤ 90
  · have hvalid : (c.toNat + 32).isValidChar := Or.inl (by omega)
    rw [if_pos (hupper.mpr h), if_pos h, Char.ofNat, dif_pos hvalid]
    rfl
  · rw [if_neg (mt hupper.mp h), if_neg h]

/-- Two characters fold to the same one exactly when they are the same letter. -/
theorem foldChar_eq_iff {c d : Char} : foldChar c = foldChar d ↔ SameLetter c d := by
  have hcased : ∀ upper lower : Char,
      Cased upper lower ↔ 65 ≤ upper.toNat ∧ upper.toNat ≤ 90 ∧ lower.toNat = upper.toNat + 32 := fun _ _ => Iff.rfl
  rw [SameLetter, hcased, hcased, ← Char.toNat_inj, ← Char.toNat_inj, toNat_foldChar, toNat_foldChar]
  split <;> split <;> omega

/-- Two names fold to the same one exactly when they are the same up to case. -/
theorem fold_eq_iff {a b : String} : fold a = fold b ↔ SameName a b := by
  unfold fold SameName
  rw [String.ofList_inj, ← List.forall₂_eq_eq_eq, List.forall₂_map_left_iff, List.forall₂_map_right_iff]
  simp only [foldChar_eq_iff]

instance : DecidableRel SameName := fun _ _ => decidable_of_iff _ fold_eq_iff

/-- A character outside ASCII is the same letter as no other one. -/
theorem SameLetter.eq_of_not_ascii {c d : Char} (h : SameLetter c d) (hc : 128 ≤ c.toNat ∨ 128 ≤ d.toNat) : c = d := by
  rcases h with rfl | ⟨-, hhigh, hlower⟩ | ⟨-, hhigh, hlower⟩
  · rfl
  · have hhigh : c.toNat ≤ 90 := hhigh
    omega
  · have hhigh : d.toNat ≤ 90 := hhigh
    omega

/-- Names are not the same up to case if a character outside ASCII in one of them has another one at its place. -/
theorem not_sameName_of_not_ascii {a b : String} {i : Nat} {c d : Char} (ha : a.toList[i]? = some c)
    (hb : b.toList[i]? = some d) (hne : c ≠ d) (hc : 128 ≤ c.toNat ∨ 128 ≤ d.toNat) : ¬ SameName a b := by
  intro hsame
  obtain ⟨hia, rfl⟩ := List.getElem?_eq_some_iff.mp ha
  obtain ⟨hib, rfl⟩ := List.getElem?_eq_some_iff.mp hb
  exact hne ((hsame.get hia hib).eq_of_not_ascii hc)

end ScriptEngine.Text
