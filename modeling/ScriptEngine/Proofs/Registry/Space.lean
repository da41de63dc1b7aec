import Mathlib.Data.List.Pairwise
import ScriptEngine.Proofs.Registry.Correspondence

/-!
# The opcode space

What is true of the ranges that are granted over any sequence of requests: none is empty, none leaves its region or the opcode
field, no two share an opcode, so that an opcode has at most one owner. A range lists its opcodes by position, in order.

Bases and counts are natural numbers here. A range that is granted ends within its opcode field, so the numbers of granted
ranges, and their sums, are 32-bit numbers all the same.
-/

namespace ScriptEngine

/-! ## The opcodes of a range -/

namespace Reservation

variable {r : Reservation} {op : Opcode}

/-- A range lists the opcodes that it holds. -/
theorem mem_opcodes_iff : op ∈ r.opcodes ↔ r.Holds op := by
  simp only [opcodes, List.mem_map, List.mem_range'_1]
  constructor
  · rintro ⟨code, hcode, rfl⟩
    exact ⟨rfl, hcode⟩
  · rintro ⟨hseg, hcode⟩
    exact ⟨op.code, hcode, by rw [← hseg]⟩

/-- A range lists its opcodes in strictly increasing order. -/
theorem opcodes_pairwise (r : Reservation) : r.opcodes.Pairwise Opcode.Before := by
  refine List.pairwise_map.mpr (List.Pairwise.imp ?_ List.pairwise_lt_range')
  intro a b hlt
  exact Or.inr ⟨rfl, hlt⟩

/-- A range lists its opcodes by their positions. -/
theorem getElem?_opcodes (r : Reservation) (i : Nat) : r.opcodes[i]? = r.get? i := by
  unfold get?
  split
  · rename_i hi
    simp [opcodes, List.getElem?_range' hi]
  · rename_i hi
    simp [opcodes, Nat.le_of_not_lt hi]

theorem get?_eq_none (r : Reservation) {i : Nat} (hi : r.count ≤ i) : r.get? i = none := if_neg (Nat.not_lt.mpr hi)

/-- The opcodes of a range that lies in its region belong to that region. -/
theorem region_of_holds (hregion : r.InRegion) (h : r.Holds op) : op.region = r.region := by
  obtain ⟨hseg, hbase, hstop⟩ := h
  obtain ⟨hlow, hhigh⟩ := hregion
  rw [Opcode.region, hseg]
  unfold Segment.bounds at hlow hhigh
  unfold Segment.regionOf
  cases hreg : r.region <;> cases hext : r.segment.extensionBase? <;> simp only [hreg, hext] at hlow hhigh ⊢
  case core.some base => rw [if_neg (by omega)]
  case extension.none => omega
  case extension.some base => rw [if_pos (by omega)]

end Reservation

/-! ## Sequences of requests -/

namespace OpcodeSpace

variable {s : OpcodeSpace}

/-- A request adds its own range, if it is granted, and nothing else. -/
theorem mem_attempt_iff {r g : Reservation} :
    g ∈ (s.attempt r).reservations ↔ g ∈ s.reservations ∨ g = r ∧ ∃ s', s.reserve r = .ok s' := by
  cases h : s.reserve r with
  | error e => simp [attempt_of_error h]
  | ok s' =>
    rw [attempt_of_ok h]
    obtain ⟨-, -, -, -, rfl⟩ := (reserve_eq_ok_iff _ _ _).mp h
    simp

/-- The ranges granted after some requests are those from before and those of the requests that were granted in their turn. -/
theorem mem_attempts_iff {requests : List Reservation} {g : Reservation} :
    g ∈ (requests.foldl attempt s).reservations ↔
      g ∈ s.reservations ∨
        ∃ before after s', requests = before ++ g :: after ∧ (before.foldl attempt s).reserve g = .ok s' := by
  have hstep (s : OpcodeSpace) (r : Reservation) :
      g ∈ (s.attempt r).reservations ↔ g ∈ s.reservations ∨ g = r ∧ ∃ s', s.reserve r = .ok s' := mem_attempt_iff
  refine (foldl_gains_iff (P := fun s : OpcodeSpace => g ∈ s.reservations) hstep).trans (or_congr_right ?_)
  constructor
  · rintro ⟨before, r, after, hsplit, rfl, s', hs'⟩
    exact ⟨before, after, s', hsplit, hs'⟩
  · rintro ⟨before, after, s', hsplit, hs'⟩
    exact ⟨before, g, after, hsplit, rfl, s', hs'⟩

/-- A request keeps the granted ranges well-formed. -/
theorem WellFormed.attempt (h : s.WellFormed) (r : Reservation) : (s.attempt r).WellFormed := by
  cases hr : s.reserve r with
  | error e => rwa [attempt_of_error hr]
  | ok s' =>
    rw [attempt_of_ok hr]
    obtain ⟨hcount, hstop, hregion, hapart, rfl⟩ := (reserve_eq_ok_iff _ _ _).mp hr
    exact h.grant hcount hstop hregion hapart

/-- Any requests keep the granted ranges well-formed. -/
theorem WellFormed.attempts (h : s.WellFormed) (requests : List Reservation) :
    (requests.foldl OpcodeSpace.attempt s).WellFormed :=
  List.foldlRecOn requests OpcodeSpace.attempt h fun _ hs r _ => hs.attempt r

theorem wellFormed_empty : WellFormed {} := by
  refine ⟨?_, ?_, ?_, List.Pairwise.nil⟩ <;> simp

/-- No opcode is held by two granted ranges, nor by one that was granted twice. -/
theorem WellFormed.pairwise_disjoint (h : s.WellFormed) :
    s.reservations.Pairwise fun q g => ∀ op, ¬ (q.Holds op ∧ g.Holds op) := by
  refine h.apart.imp ?_
  rintro q g hapart op ⟨hq, hg⟩
  exact hapart (overlaps_of_holds hq hg)

/-- The owner of an opcode is the granted range that holds it. -/
theorem WellFormed.owner?_eq_some_iff (h : s.WellFormed) {op : Opcode} {g : Reservation} :
    s.owner? op = some g ↔ g ∈ s.reservations ∧ g.Holds op := by
  refine ⟨owner?_eq_some, ?_⟩
  rintro ⟨hmem, hholds⟩
  have hsome : (s.owner? op).isSome := by
    rw [owner?, List.find?_isSome]
    exact ⟨g, hmem, decide_eq_true hholds⟩
  obtain ⟨q, hq⟩ := Option.isSome_iff_exists.mp hsome
  obtain ⟨hqmem, hqholds⟩ := owner?_eq_some hq
  have hsame : q = g := by
    by_contra hne
    have hsymm : Std.Symm fun q g : Reservation => ∀ op, ¬ (q.Holds op ∧ g.Holds op) :=
      ⟨fun _ _ hno op hop => hno op hop.symm⟩
    exact h.pairwise_disjoint.forall hqmem hmem hne op ⟨hqholds, hholds⟩
  rw [hq, hsame]

/-- A range that is granted ends far below the largest 32-bit number. -/
theorem WellFormed.stop_lt (h : s.WellFormed) {g : Reservation} (hg : g ∈ s.reservations) : g.stop < 2 ^ 32 := by
  refine Nat.lt_of_le_of_lt (h.fits g hg) ?_
  cases g.segment <;> decide

/-- The ranges granted over any sequence of requests are those of the requests that were granted in their turn. None is empty,
each lies in the opcode field of its segment and ends at a 32-bit number, and its opcodes belong to its region. No two share an
opcode, so that an opcode lies in at most one of them, which is its owner. A range lists exactly the opcodes that it holds, in
strictly increasing order, by their positions. -/
theorem granted_ranges_of_requests (requests : List Reservation) :
    let s := requests.foldl attempt {}
    (∀ g, g ∈ s.reservations ↔
      ∃ before after s', requests = before ++ g :: after ∧ (before.foldl attempt {}).reserve g = .ok s') ∧
    (∀ g ∈ s.reservations, g.count ≠ 0 ∧ g.stop ≤ g.segment.opcodeLimit ∧ g.stop < 2 ^ 32 ∧
      ∀ op, g.Holds op → op.region = g.region) ∧
    s.reservations.Pairwise (fun q g => ∀ op, ¬ (q.Holds op ∧ g.Holds op)) ∧
    (∀ op, s.reservations.countP (·.Holds op) ≤ 1 ∧
      ∀ g, s.owner? op = some g ↔ g ∈ s.reservations ∧ g.Holds op) ∧
    ∀ g ∈ s.reservations, g.opcodes.Pairwise Opcode.Before ∧ (∀ op, op ∈ g.opcodes ↔ g.Holds op) ∧
      ∀ i, g.opcodes[i]? = g.get? i ∧ (g.count ≤ i → g.get? i = none) := by
  intro s
  have h : s.WellFormed := wellFormed_empty.attempts requests
  refine ⟨?_, ?_, h.pairwise_disjoint, ?_, ?_⟩
  · intro g
    rw [mem_attempts_iff]
    simp
  · intro g hg
    exact ⟨h.nonempty g hg, h.fits g hg, h.stop_lt hg, fun op => Reservation.region_of_holds (h.inRegion g hg)⟩
  · intro op
    exact ⟨h.countP_holds_le_one op, fun g => h.owner?_eq_some_iff⟩
  · intro g _
    exact ⟨g.opcodes_pairwise, fun op => Reservation.mem_opcodes_iff, fun i => ⟨g.getElem?_opcodes i, g.get?_eq_none⟩⟩

end OpcodeSpace

end ScriptEngine
