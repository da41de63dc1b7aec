import Mathlib.Data.List.Induction
import ScriptEngine.Script.Literals

/-!
# Literal pools

Interning values one after the other leaves the distinct ones among them, in the order of their first occurrence. A pool only
grows at its end, so a position that was given out names the same literal ever after: `Literals.Extends` is this relation for
all three pools at once.
-/

namespace ScriptEngine

variable {α : Type}

/-- Interning a value leaves a pool as it is, or puts the value at its end. -/
theorem intern_eq_or [DecidableEq α] (pool : List α) (v : α) :
    (intern pool v).2 = pool ∨ (intern pool v).2 = pool ++ [v] := by
  unfold intern
  simp only
  split
  · exact Or.inl rfl
  · exact Or.inr rfl

/-- Interning one more value into the distinct values of a list gives the distinct values of the longer list. -/
theorem intern_eraseDups [DecidableEq α] (vs : List α) (v : α) : (intern vs.eraseDups v).2 = (vs ++ [v]).eraseDups := by
  rw [List.eraseDups_append]
  unfold intern
  by_cases h : v ∈ vs
  · have hlt : vs.eraseDups.idxOf v < vs.eraseDups.length :=
      List.idxOf_lt_length_iff.mpr (List.mem_eraseDups.mpr h)
    have hnew : [v].removeAll vs = [] := by simp [List.removeAll, h]
    simp only [if_pos hlt, hnew, List.eraseDups_nil, List.append_nil]
  · have hlt : ¬ vs.eraseDups.idxOf v < vs.eraseDups.length := by
      rw [List.idxOf_lt_length_iff, List.mem_eraseDups]
      exact h
    have hnew : [v].removeAll vs = [v] := by simp [List.removeAll, h]
    simp only [if_neg hlt, hnew]
    rfl

/-- Interning keeps a pool from holding a value twice. -/
theorem nodup_intern [DecidableEq α] {pool : List α} (h : pool.Nodup) (v : α) : (intern pool v).2.Nodup := by
  unfold intern
  by_cases hmem : v ∈ pool
  · have hlt : pool.idxOf v < pool.length := List.idxOf_lt_length_iff.mpr hmem
    simpa only [if_pos hlt] using h
  · have hlt : ¬ pool.idxOf v < pool.length := mt List.idxOf_lt_length_iff.mp hmem
    simp only [if_neg hlt]
    refine List.nodup_append.mpr ⟨h, List.pairwise_singleton _ v, ?_⟩
    rintro w hw _ hlast rfl
    exact hmem (List.mem_singleton.mp hlast ▸ hw)

/-- The distinct values of a list are distinct. -/
theorem nodup_eraseDups [DecidableEq α] (vs : List α) : vs.eraseDups.Nodup := by
  induction vs using List.reverseRecOn with
  | nil => exact List.nodup_nil
  | append_singleton vs v ih =>
    rw [← intern_eraseDups]
    exact nodup_intern ih v

/-- A position in a list is the same position in any list that begins with it. -/
theorem getElem?_of_prefix {pool pool' : List α} (h : pool <+: pool') {i : Nat} {v : α} (hv : pool[i]? = some v) :
    pool'[i]? = some v := by
  obtain ⟨rest, rfl⟩ := h
  rw [List.getElem?_append_left (List.getElem?_eq_some_iff.mp hv).1, hv]

namespace Literals

/-- Each pool is the beginning of the corresponding one. -/
structure Extends (l l' : Literals) : Prop where
  ints : l.ints <+: l'.ints
  floats : l.floats <+: l'.floats
  strings : l.strings <+: l'.strings

theorem Extends.refl (l : Literals) : l.Extends l :=
  ⟨List.prefix_refl _, List.prefix_refl _, List.prefix_refl _⟩

theorem Extends.trans {l l' l'' : Literals} (h : l.Extends l') (h' : l'.Extends l'') : l.Extends l'' :=
  ⟨h.ints.trans h'.ints, h.floats.trans h'.floats, h.strings.trans h'.strings⟩

theorem Extends.int? {l l' : Literals} (h : l.Extends l') {i : Nat} {v : Int32} (hv : l.int? i = some v) :
    l'.int? i = some v :=
  getElem?_of_prefix h.ints hv

theorem Extends.float? {l l' : Literals} (h : l.Extends l') {i : Nat} {v : Binary32} (hv : l.float? i = some v) :
    l'.float? i = some v :=
  getElem?_of_prefix h.floats hv

theorem Extends.string? {l l' : Literals} (h : l.Extends l') {i : Nat} {v : String} (hv : l.string? i = some v) :
    l'.string? i = some v :=
  getElem?_of_prefix h.strings hv

end Literals

end ScriptEngine
