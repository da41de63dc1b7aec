import ScriptEngine.Proofs.Registry.Space

/-!
# How a request for opcodes is answered

A request for a range meets four questions, in this order: does it ask for any opcode, do all of its opcodes fit the opcode field,
do they belong to the region that was asked for, and has none of them been granted before. `OpcodeSpace.Answers` asks them of the
opcodes of the range, whereas granting a range compares nothing but bounds. The two agree since a range that gets as far as the
last two questions has opcodes, and so have the ranges that were granted.
-/

namespace ScriptEngine

/-! ## Bounds and opcodes -/

namespace Reservation

variable {q r : Reservation}

/-- Some opcode lies in both ranges. -/
def Shares (q r : Reservation) : Prop := ∃ op, q.Holds op ∧ r.Holds op

/-- Ranges that are not empty overlap when they share an opcode. -/
theorem overlaps_iff_shares (hq : q.count ≠ 0) (hr : r.count ≠ 0) : q.Overlaps r ↔ q.Shares r := by
  constructor
  · rintro ⟨hseg, hbase, hbase'⟩
    -- The larger of the two bases is a common opcode.
    have hstop : max q.base r.base < q.stop := Nat.max_lt.mpr ⟨Nat.lt_add_of_pos_right (Nat.pos_of_ne_zero hq), hbase⟩
    have hstop' : max q.base r.base < r.stop := Nat.max_lt.mpr ⟨hbase', Nat.lt_add_of_pos_right (Nat.pos_of_ne_zero hr)⟩
    exact ⟨⟨q.segment, max q.base r.base⟩, ⟨rfl, Nat.le_max_left _ _, hstop⟩, ⟨hseg, Nat.le_max_right _ _, hstop'⟩⟩
  · rintro ⟨op, hq, hr⟩
    exact OpcodeSpace.overlaps_of_holds hq hr

/-- A range that is not empty and fits the opcode field lies in its region when its opcodes belong to that region. -/
theorem inRegion_iff (hcount : r.count ≠ 0) (hstop : r.stop ≤ r.segment.opcodeLimit) :
    r.InRegion ↔ ∀ op, r.Holds op → op.region = r.region := by
  refine ⟨fun hregion _ => region_of_holds hregion, fun hall => ?_⟩
  have hpos : r.base < r.stop := Nat.lt_add_of_pos_right (Nat.pos_of_ne_zero hcount)
  have hfirst := hall ⟨r.segment, r.base⟩ ⟨rfl, Nat.le_refl _, hpos⟩
  have hlast := hall ⟨r.segment, r.stop - 1⟩ ⟨rfl, Nat.le_sub_one_of_lt hpos, Nat.sub_one_lt_of_lt hpos⟩
  unfold InRegion Segment.bounds
  simp only [Opcode.region, Segment.regionOf] at hfirst hlast
  cases hreg : r.region <;> cases hext : r.segment.extensionBase? <;> simp only [hreg, hext] at hfirst hlast ⊢
  case core.none => exact ⟨Nat.zero_le _, hstop⟩
  case core.some base =>
    have hbelow : ¬ base ≤ r.stop - 1 := by
      intro hle
      rw [if_pos hle] at hlast
      cases hlast
    omega
  case extension.none => cases hfirst
  case extension.some base =>
    have habove : base ≤ r.base := by
      by_contra hlt
      rw [if_neg hlt] at hfirst
      cases hfirst
    exact ⟨habove, hstop⟩

/-- No opcode of a segment without an extension region belongs to one. -/
theorem region_ne_of_no_extension (hregion : r.region = .extension) (hnone : r.segment.extensionBase? = none) {op : Opcode}
    (h : r.Holds op) : op.region ≠ r.region := by
  rw [hregion, Opcode.region, h.1, Segment.regionOf, hnone]
  intro hcore
  cases hcore

end Reservation

/-! ## Answers -/

namespace OpcodeSpace

/-- What a request is answered. Each case says that no case above it applies. -/
inductive Answers (s : OpcodeSpace) (r : Reservation) : Except SetupError OpcodeSpace → Prop where
  | empty : r.count = 0 → Answers s r (.error (.emptyReservation r.group))
  | outOfSegment : r.count ≠ 0 → r.segment.opcodeLimit < r.stop →
      Answers s r (.error (.outOfSegment r.segment (r.stop - 1)))
  | outOfRegion (op : Opcode) : r.count ≠ 0 → r.stop ≤ r.segment.opcodeLimit →
      r.Holds op → op.region ≠ r.region →
      Answers s r (.error (.regionViolation r.group r.segment r.base r.count r.region))
  | overlap (before after : List Reservation) (other : Reservation) : r.count ≠ 0 → r.stop ≤ r.segment.opcodeLimit →
      (∀ op, r.Holds op → op.region = r.region) →
      s.reservations = before ++ other :: after → (∀ q ∈ before, ¬ q.Shares r) → other.Shares r →
      Answers s r (.error (.rangeOverlap r.group other.group r.segment r.base r.count))
  | granted : r.count ≠ 0 → r.stop ≤ r.segment.opcodeLimit →
      (∀ op, r.Holds op → op.region = r.region) → (∀ q ∈ s.reservations, ¬ q.Shares r) →
      Answers s r (.ok ⟨s.reservations ++ [r]⟩)

variable {s : OpcodeSpace} {r : Reservation} {answer : Except SetupError OpcodeSpace}

/-- The first granted range that overlaps a range is the first that shares an opcode with it. -/
theorem WellFormed.find?_overlaps_eq_some_iff (h : s.WellFormed) (hcount : r.count ≠ 0) {other : Reservation} :
    s.reservations.find? (·.Overlaps r) = some other ↔
      other.Shares r ∧ ∃ before after, s.reservations = before ++ other :: after ∧ ∀ q ∈ before, ¬ q.Shares r := by
  have hshares : ∀ q ∈ s.reservations, q.Overlaps r ↔ q.Shares r :=
    fun q hq => Reservation.overlaps_iff_shares (h.nonempty q hq) hcount
  rw [List.find?_eq_some_iff_append, decide_eq_true_eq]
  constructor
  · rintro ⟨hother, before, after, hsplit, hbefore⟩
    rw [hsplit] at hshares
    refine ⟨(hshares other (by simp)).mp hother, before, after, hsplit, fun q hq hq' => ?_⟩
    have hno := hbefore q hq
    have hover := (hshares q (List.mem_append_left _ hq)).mpr hq'
    simp [hover] at hno
  · rintro ⟨hother, before, after, hsplit, hbefore⟩
    rw [hsplit] at hshares
    refine ⟨(hshares other (by simp)).mpr hother, before, after, hsplit, fun q hq => ?_⟩
    have hno : ¬ q.Overlaps r := fun hover => hbefore q hq ((hshares q (List.mem_append_left _ hq)).mp hover)
    simp [hno]

/-- Among well-formed ranges a request gets its answer. -/
theorem WellFormed.reserve_eq_iff (h : s.WellFormed) : s.reserve r = answer ↔ s.Answers r answer := by
  constructor
  · rintro rfl
    rw [reserve_eq]
    split
    · rename_i hcount
      exact .empty hcount
    rename_i hcount
    split
    · rename_i hstop
      exact .outOfSegment hcount hstop
    rename_i hstop
    have hfits := Nat.le_of_not_lt hstop
    split
    · rename_i hregion
      rw [Reservation.inRegion_iff hcount hfits] at hregion
      push Not at hregion
      obtain ⟨op, hop, hne⟩ := hregion
      exact .outOfRegion op hcount hfits hop hne
    rename_i hregion
    have hinside := (Reservation.inRegion_iff hcount hfits).mp (Decidable.not_not.mp hregion)
    split
    · rename_i other hfound
      obtain ⟨hother, before, after, hsplit, hbefore⟩ := (h.find?_overlaps_eq_some_iff hcount).mp hfound
      exact .overlap before after other hcount hfits hinside hsplit hbefore hother
    · rename_i hnone
      refine .granted hcount hfits hinside fun q hq hshares => ?_
      have hover := (Reservation.overlaps_iff_shares (h.nonempty q hq) hcount).mpr hshares
      exact List.find?_eq_none.mp hnone q hq (decide_eq_true hover)
  · intro hanswer
    rw [reserve_eq]
    cases hanswer with
    | empty hcount => rw [if_pos hcount]
    | outOfSegment hcount hstop =>
      rw [if_neg hcount, if_pos hstop]
    | outOfRegion op hcount hfits hop hne =>
      have hregion : ¬ r.InRegion := fun hregion => hne ((Reservation.inRegion_iff hcount hfits).mp hregion op hop)
      rw [if_neg hcount, if_neg (Nat.not_lt.mpr hfits), if_pos hregion]
    | overlap before after other hcount hfits hinside hsplit hbefore hother =>
      have hregion := (Reservation.inRegion_iff hcount hfits).mpr hinside
      have hfound := (h.find?_overlaps_eq_some_iff hcount).mpr ⟨hother, before, after, hsplit, hbefore⟩
      rw [if_neg hcount, if_neg (Nat.not_lt.mpr hfits), if_neg (Decidable.not_not.mpr hregion), hfound]
    | granted hcount hfits hinside hapart =>
      have hregion := (Reservation.inRegion_iff hcount hfits).mpr hinside
      have hnone : ∀ q ∈ s.reservations, ¬ q.Overlaps r :=
        fun q hq hover => hapart q hq ((Reservation.overlaps_iff_shares (h.nonempty q hq) hcount).mp hover)
      rw [← reserve_eq]
      exact (reserve_eq_ok_iff s _ r).mpr ⟨hcount, hfits, hregion, hnone, rfl⟩

/-- After any requests, the next one, for any region, segment, base and count, is answered in this way: a range without opcodes is
empty; a range that ends beyond the opcode field is outside its segment, and its last opcode is named; a range with an opcode of
another region violates its region, which is always so for the extension region of a segment that has none; a range that shares an
opcode with a granted one overlaps it, and the earliest such range is named; and any other range is granted, as the latest one. A
request that is refused leaves the granted ranges as they are. -/
theorem request_is_answered (requests : List Reservation) (r : Reservation) :
    let s := requests.foldl attempt {}
    (∀ answer, s.reserve r = answer ↔ s.Answers r answer) ∧
    (r.count ≠ 0 → r.stop ≤ r.segment.opcodeLimit → r.region = .extension → r.segment.extensionBase? = none →
      s.reserve r = .error (.regionViolation r.group r.segment r.base r.count r.region)) ∧
    ∀ e, s.reserve r = .error e → s.attempt r = s := by
  intro s
  have h : s.WellFormed := wellFormed_empty.attempts requests
  refine ⟨fun _ => h.reserve_eq_iff, ?_, ?_⟩
  · intro hcount hfits hregion hnone
    have hfirst : r.Holds ⟨r.segment, r.base⟩ := ⟨rfl, Nat.le_refl _, Nat.lt_add_of_pos_right (Nat.pos_of_ne_zero hcount)⟩
    exact h.reserve_eq_iff.mpr (.outOfRegion _ hcount hfits hfirst (Reservation.region_ne_of_no_extension hregion hnone hfirst))
  · intro e
    exact attempt_of_error

end OpcodeSpace

end ScriptEngine
