import Mathlib.Data.List.Basic
import Mathlib.Data.List.Nodup
import Mathlib.Data.List.Perm.Basic
import ScriptEngine.Word.OpcodeTable

/-!
# Tables in order

The entries of a table are in strictly increasing order of their opcodes as long as only free opcodes are given values. In such a
table a lookup finds exactly the entries, the opcodes are a strictly increasing list, and a scan finds the least opcode that
passes a test. Two such tables over the same opcodes list them alike, so they have equal sizes.
-/

namespace ScriptEngine

/-! ## The order of opcodes -/

namespace Segment

theorem number_inj {s t : Segment} (h : s.number = t.number) : s = t := by
  cases s <;> cases t <;> first | rfl | cases h

end Segment

namespace Opcode

variable {a b c : Opcode}

theorem Before.trans (h : a.Before b) (h' : b.Before c) : a.Before c := by
  unfold Before at *
  omega

theorem Before.ne (h : a.Before b) : a ≠ b := by
  rintro rfl
  exact not_before_self a h

theorem Before.asymm (h : a.Before b) : ¬ b.Before a :=
  fun h' => not_before_self a (h.trans h')

/-- Of two opcodes that differ, one comes before the other. -/
theorem before_of_not_before (hne : a ≠ b) (h : ¬ a.Before b) : b.Before a := by
  unfold Before at *
  by_cases hseg : a.segment.number = b.segment.number
  · have hcode : a.code ≠ b.code := by
      intro hcode
      exact hne (congr (congrArg Opcode.mk (Segment.number_inj hseg)) hcode)
    omega
  · omega

end Opcode

/-! ## Lists with keys -/

section Keys

variable {α : Type} {xs : List α}

/-- In a list whose elements have different keys, looking for a key finds the element that has it. -/
theorem find?_key_eq_some_iff {κ : Type} [DecidableEq κ] {key : α → κ}
    (hinj : ∀ x ∈ xs, ∀ y ∈ xs, key x = key y → x = y) {k : κ} {x : α} :
    xs.find? (fun y => key y = k) = some x ↔ x ∈ xs ∧ key x = k := by
  constructor
  · intro hx
    exact ⟨List.mem_of_find?_eq_some hx, by simpa using List.find?_some hx⟩
  · rintro ⟨hx, rfl⟩
    have hsome : (xs.find? fun y => key y = key x).isSome := by
      rw [List.find?_isSome]
      exact ⟨x, hx, by simp⟩
    obtain ⟨y, hy⟩ := Option.isSome_iff_exists.mp hsome
    have hkey : key y = key x := by simpa using List.find?_some hy
    rw [hy, hinj y (List.mem_of_find?_eq_some hy) x hx hkey]

/-- In a list that is in order, the first element that passes a test is the least one that does. -/
theorem find?_eq_some_iff_least {key : α → Opcode} (h : xs.Pairwise fun x y => (key x).Before (key y)) {p : α → Bool} {x : α} :
    xs.find? p = some x ↔ x ∈ xs ∧ p x = true ∧ ∀ y ∈ xs, p y = true → y = x ∨ (key x).Before (key y) := by
  have hleast {z : α} (hz : xs.find? p = some z) : ∀ y ∈ xs, p y = true → y = z ∨ (key z).Before (key y) := by
    obtain ⟨-, before, after, rfl, hbefore⟩ := List.find?_eq_some_iff_append.mp hz
    intro y hy hpy
    rcases List.mem_append.mp hy with hy | hy
    · have hno := hbefore y hy
      rw [hpy] at hno
      cases hno
    · rcases List.mem_cons.mp hy with rfl | hy
      · exact Or.inl rfl
      · have hafter := (List.pairwise_append.mp h).2.1
        exact Or.inr ((List.pairwise_cons.mp hafter).1 y hy)
  constructor
  · intro hx
    exact ⟨List.mem_of_find?_eq_some hx, List.find?_some hx, hleast hx⟩
  · rintro ⟨hx, hpx, hmin⟩
    obtain ⟨z, hz⟩ := Option.isSome_iff_exists.mp (List.find?_isSome.mpr ⟨x, hx, hpx⟩)
    rcases hmin z (List.mem_of_find?_eq_some hz) (List.find?_some hz) with rfl | hxz
    · exact hz
    · rcases hleast hz x hx hpx with rfl | hzx
      · exact hz
      · exact absurd hzx hxz.asymm

/-- Two lists in order with the same elements are the same. -/
theorem eq_of_same_elements {key : α → Opcode} {ys : List α} (hxs : xs.Pairwise fun x y => (key x).Before (key y))
    (hys : ys.Pairwise fun x y => (key x).Before (key y)) (hsame : ∀ x, x ∈ xs ↔ x ∈ ys) : xs = ys := by
  have hnodup {zs : List α} (h : zs.Pairwise fun x y => (key x).Before (key y)) : zs.Nodup :=
    h.imp fun hbefore heq => hbefore.ne (congrArg key heq)
  have hperm := (List.perm_ext_iff_of_nodup (hnodup hxs) (hnodup hys)).mpr hsame
  exact hperm.eq_of_pairwise (fun _ _ _ _ hab hba => absurd hba hab.asymm) hxs hys

end Keys

/-! ## Tables -/

namespace OpcodeTable

variable {α β : Type} {t : OpcodeTable α}

/-- The entries are in strictly increasing order of their opcodes. -/
def Ordered (t : OpcodeTable α) : Prop := t.entries.Pairwise fun e e' => e.1.Before e'.1

theorem ordered_empty : Ordered ({} : OpcodeTable α) := List.Pairwise.nil

/-- An opcode has no value when it is the opcode of no entry. -/
theorem get?_eq_none_iff {op : Opcode} : t.get? op = none ↔ ∀ e ∈ t.entries, e.1 ≠ op := by
  unfold get?
  rw [Option.map_eq_none_iff, List.find?_eq_none]
  simp only [decide_eq_true_eq, ne_eq]

theorem contains_eq_false_iff {op : Opcode} : t.contains op = false ↔ t.get? op = none :=
  Option.isSome_eq_false_iff.trans Option.isNone_iff_eq_none

/-- The opcodes that have a value are those that are listed. -/
theorem mem_opcodes_iff {op : Opcode} : op ∈ t.opcodes ↔ t.contains op = true := by
  rw [← not_iff_not, Bool.not_eq_true, contains_eq_false_iff, get?_eq_none_iff, opcodes, List.mem_map]
  simp only [not_exists, not_and, ne_eq]

/-- Entries stay in order when one with a new opcode is inserted. -/
theorem pairwise_insertEntry {op : Opcode} (v : α) {es : List (Opcode × α)}
    (h : es.Pairwise fun e e' => e.1.Before e'.1) (hfree : ∀ e ∈ es, e.1 ≠ op) :
    (insertEntry op v es).Pairwise fun e e' => e.1.Before e'.1 := by
  induction es with
  | nil => exact List.pairwise_singleton _ _
  | cons e es ih =>
    obtain ⟨hhead, htail⟩ := List.pairwise_cons.mp h
    have hne : e.1 ≠ op := hfree e List.mem_cons_self
    unfold insertEntry
    split
    next hbefore =>
      refine List.pairwise_cons.mpr ⟨?_, ih htail fun e' he' => hfree e' (List.mem_cons_of_mem e he')⟩
      intro e' he'
      rcases (mem_insertEntry e' op v es).mp he' with rfl | he'
      · exact hbefore
      · exact hhead e' he'
    next hnot =>
      have hafter : op.Before e.1 := Opcode.before_of_not_before hne hnot
      refine List.pairwise_cons.mpr ⟨?_, h⟩
      intro e' he'
      rcases List.mem_cons.mp he' with rfl | he'
      · exact hafter
      · exact hafter.trans (hhead e' he')

/-- A table stays in order when a free opcode is given a value. -/
theorem Ordered.insert (h : t.Ordered) {op : Opcode} (hfree : t.get? op = none) (v : α) : (t.insert op v).Ordered :=
  pairwise_insertEntry v h (get?_eq_none_iff.mp hfree)

/-- Of the entries of a table in order, no two have the same opcode. -/
theorem Ordered.entry_unique (h : t.Ordered) {e e' : Opcode × α} (he : e ∈ t.entries) (he' : e' ∈ t.entries)
    (hop : e.1 = e'.1) : e = e' := by
  have hpair : t.entries.Pairwise fun e e' => e.1 ≠ e'.1 := h.imp Opcode.Before.ne
  have hinj := List.pairwise_map.mpr hpair
  exact List.inj_on_of_nodup_map hinj he he' hop

/-- In a table in order a lookup finds exactly the entries. -/
theorem Ordered.get?_eq_some_iff (h : t.Ordered) {op : Opcode} {v : α} : t.get? op = some v ↔ (op, v) ∈ t.entries := by
  have hfind {e : Opcode × α} : t.entries.find? (·.1 = op) = some e ↔ e ∈ t.entries ∧ e.1 = op :=
    find?_key_eq_some_iff fun _ he _ he' => h.entry_unique he he'
  unfold get?
  rw [Option.map_eq_some_iff]
  constructor
  · rintro ⟨e, he, rfl⟩
    obtain ⟨hmem, rfl⟩ := hfind.mp he
    exact hmem
  · intro hmem
    exact ⟨(op, v), hfind.mpr ⟨hmem, rfl⟩, rfl⟩

/-- The opcodes of a table in order are listed in strictly increasing order. -/
theorem Ordered.opcodes_pairwise (h : t.Ordered) : t.opcodes.Pairwise Opcode.Before :=
  List.pairwise_map.mpr h

/-- Two tables in order over the same opcodes list them alike. -/
theorem Ordered.opcodes_eq {u : OpcodeTable β} (ht : t.Ordered) (hu : u.Ordered)
    (hsame : ∀ op, t.contains op = u.contains op) : t.opcodes = u.opcodes := by
  have hin : t.opcodes.Pairwise fun q q' => (id q).Before (id q') := ht.opcodes_pairwise
  refine eq_of_same_elements hin hu.opcodes_pairwise fun op => ?_
  rw [mem_opcodes_iff, mem_opcodes_iff, hsame]

/-- Two tables in order that answer alike are the same. -/
theorem Ordered.ext {u : OpcodeTable α} (ht : t.Ordered) (hu : u.Ordered) (hsame : ∀ op, t.get? op = u.get? op) : t = u := by
  have hentries : t.entries = u.entries := by
    refine eq_of_same_elements ht hu fun e => ?_
    rw [← ht.get?_eq_some_iff, ← hu.get?_eq_some_iff, hsame]
  cases t
  cases u
  exact congrArg _ hentries

theorem size_eq_length_opcodes (t : OpcodeTable α) : t.size = t.opcodes.length :=
  (List.length_map _).symm

end OpcodeTable

end ScriptEngine
