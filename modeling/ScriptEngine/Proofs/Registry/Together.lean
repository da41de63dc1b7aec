import ScriptEngine.Proofs.Registry.Space

/-!
# Steps that succeed together

Whether a registration step succeeds depends on all that was registered before it: a range must not overlap an earlier one, a name
and an opcode must be new, and the opcode must lie in a range. Yet whether some steps all succeed can be said without regard to
their order, but for one thing: no two of their ranges overlap, no two of their descriptors share a name or an opcode, and each
step can be carried out by itself (`Registry.Together`). The order matters only in that a range comes before the opcodes that lie
in it (`Registration.Owned`), which groups of steps that own their opcodes settle among themselves.
-/

namespace ScriptEngine

namespace Reservation

/-- The range can be granted if no other one is in its way. -/
def Grantable (g : Reservation) : Prop := g.count ≠ 0 ∧ g.stop ≤ g.segment.opcodeLimit ∧ g.InRegion

theorem Overlaps.symm {q g : Reservation} (h : q.Overlaps g) : g.Overlaps q := ⟨h.1.symm, h.2.2, h.2.1⟩

end Reservation

/-! ## Steps by themselves -/

namespace Registration

/-- The range that a step asks for. -/
def range? : Registration → Option Reservation
  | reserve g => some g
  | .instruction _ _ _ | .function _ _ _ _ => none

/-- The opcode that a step registers. -/
def opcode? : Registration → Option Opcode
  | reserve _ => none
  | .instruction _ _ opcode | .function _ _ _ opcode => some opcode

/-- A step can be carried out if nothing is in its way: it asks for a range that can be granted, or its descriptor can be read. -/
def Feasible (s : Registration) : Prop := (∃ g, s = reserve g ∧ g.Grantable) ∨ ∃ d, s.descriptor? = some d

/-- Every opcode that some steps register lies in a range that is held, or that one of the steps before has asked for. -/
def Owned (held : List Reservation) : List Registration → Prop
  | [] => True
  | s :: ss => (∀ op ∈ s.opcode?, ∃ g ∈ held, g.Holds op) ∧ Owned (held ++ s.range?.toList) ss

instance decidableOwned (held : List Reservation) : (ss : List Registration) → Decidable (Owned held ss)
  | [] => isTrue trivial
  | s :: ss => @instDecidableAnd _ _ inferInstance (decidableOwned (held ++ s.range?.toList) ss)

/-- A step that writes a descriptor registers its opcode and asks for no range. -/
theorem opcode?_of_descriptor? {s : Registration} {d : Descriptor} (h : s.descriptor? = some d) :
    s.opcode? = some d.opcode ∧ s.range? = none := by
  cases s with
  | reserve g => cases h
  | instruction mnemonic signature opcode =>
    obtain ⟨parsed, -, rfl⟩ := Option.map_eq_some_iff.mp h
    exact ⟨rfl, rfl⟩
  | function mnemonic returns signature opcode =>
    obtain ⟨t, -, h⟩ := Option.bind_eq_some_iff.mp h
    obtain ⟨parsed, -, rfl⟩ := Option.map_eq_some_iff.mp h
    exact ⟨rfl, rfl⟩

variable {held held' : List Reservation} {ss ss' : List Registration}

/-- Opcodes stay owned when more ranges are held. -/
theorem Owned.mono (h : Owned held ss) (hsub : held ⊆ held') : Owned held' ss := by
  induction ss generalizing held held' with
  | nil => exact trivial
  | cons s ss ih =>
    obtain ⟨hop, h⟩ := h
    refine ⟨?_, ih h (List.append_subset.mpr ⟨?_, ?_⟩)⟩
    · intro op hs
      obtain ⟨g, hg, hholds⟩ := hop op hs
      exact ⟨g, hsub hg, hholds⟩
    · exact fun g hg => List.mem_append_left _ (hsub hg)
    · exact List.subset_append_right _ _

/-- Opcodes are owned in two groups of steps when they are in the first, and in the second with the ranges of the first. -/
theorem Owned.append (h : Owned held ss) (h' : Owned (held ++ ss.filterMap range?) ss') : Owned held (ss ++ ss') := by
  induction ss generalizing held with
  | nil => simpa using h'
  | cons s ss ih =>
    obtain ⟨hop, h⟩ := h
    refine ⟨hop, ih h ?_⟩
    cases hs : s.range? <;> simpa [hs] using h'

/-- Opcodes that are owned in each of some groups of steps are owned in all of them. -/
theorem owned_flatMap {β : Type} {groups : List β} {steps : β → List Registration} (h : ∀ x ∈ groups, Owned [] (steps x)) :
    Owned held (groups.flatMap steps) := by
  induction groups generalizing held with
  | nil => exact trivial
  | cons x groups ih =>
    obtain ⟨hx, h⟩ := List.forall_mem_cons.mp h
    rw [List.flatMap_cons]
    exact (hx.mono (List.nil_subset held)).append (ih h)

end Registration

/-! ## One step -/

namespace Registry

variable {r r' : Registry} {s : Registration} {ss : List Registration}

/-- A step succeeds when it is a range that can be granted and overlaps no earlier one, or when its descriptor shares neither name
nor opcode with one that is there and a granted range holds the opcode. -/
theorem Indexed.step_eq_ok_iff (h : r.Indexed) :
    r.step s = .ok r' ↔
      (∃ g, s = .reserve g ∧ g.Grantable ∧ (∀ q ∈ r.space.reservations, ¬ q.Overlaps g) ∧
        r' = { r with space := ⟨r.space.reservations ++ [g]⟩ }) ∨
      ∃ d, s.descriptor? = some d ∧ ((∀ d' ∈ r.all, d'.Distinct d) ∧ ∃ g ∈ r.space.reservations, g.Holds d.opcode) ∧
        r' = r.add d := by
  simp only [Registry.step_eq_ok_iff, h.accepts_iff, OpcodeSpace.reserve_eq_ok_iff, Reservation.Grantable]
  refine or_congr_left (exists_congr fun g => ?_)
  constructor
  · rintro ⟨space, rfl, ⟨hcount, hstop, hregion, hapart, rfl⟩, rfl⟩
    exact ⟨rfl, ⟨hcount, hstop, hregion⟩, hapart, rfl⟩
  · rintro ⟨rfl, ⟨hcount, hstop, hregion⟩, hapart, rfl⟩
    exact ⟨_, rfl, ⟨hcount, hstop, hregion, hapart, rfl⟩, rfl⟩

/-! ## Many steps -/

/-- Some steps all succeed if they are taken in order: each can be carried out by itself, its opcode lies in an earlier range, and
of all ranges and descriptors, those that are there included, no two are in each other's way. -/
structure Together (r : Registry) (ss : List Registration) : Prop where
  feasible : ∀ s ∈ ss, s.Feasible
  owned : Registration.Owned r.space.reservations ss
  apart : (r.space.reservations ++ ss.filterMap Registration.range?).Pairwise fun q g => ¬ q.Overlaps g
  distinct : (r.all ++ ss.filterMap Registration.descriptor?).Pairwise Descriptor.Distinct

/-- A range and further steps succeed together when it can be granted, it overlaps no earlier one, and the others succeed after
it. -/
theorem together_reserve_iff {g : Reservation} :
    r.Together (.reserve g :: ss) ↔ g.Grantable ∧ (∀ q ∈ r.space.reservations, ¬ q.Overlaps g) ∧
      Together { r with space := ⟨r.space.reservations ++ [g]⟩ } ss := by
  have hranges : r.space.reservations ++ (Registration.reserve g :: ss).filterMap Registration.range? =
      r.space.reservations ++ [g] ++ ss.filterMap Registration.range? := by
    simp [Registration.range?]
  constructor
  · rintro ⟨hfeasible, ⟨-, howned⟩, hapart, hdistinct⟩
    obtain ⟨hfirst, hothers⟩ := List.forall_mem_cons.mp hfeasible
    rw [hranges] at hapart
    have hgrantable : g.Grantable := by
      rcases hfirst with ⟨g', hg', hgrantable⟩ | ⟨d, hd⟩
      · cases hg'
        exact hgrantable
      · cases hd
    refine ⟨hgrantable, ?_, hothers, howned, hapart, hdistinct⟩
    intro q hq
    have hfront := (List.pairwise_append.mp hapart).1
    exact (List.pairwise_append.mp hfront).2.2 q hq g (List.mem_singleton_self g)
  · rintro ⟨hgrantable, -, hothers, howned, hapart, hdistinct⟩
    refine ⟨List.forall_mem_cons.mpr ⟨Or.inl ⟨g, rfl, hgrantable⟩, hothers⟩, ⟨?_, howned⟩, ?_, hdistinct⟩
    · intro op hop
      cases hop
    · rwa [hranges]

/-- A descriptor and further steps succeed together when a range holds its opcode, it shares neither name nor opcode with an
earlier one, and the others succeed after it. -/
theorem Indexed.together_descriptor_iff (h : r.Indexed) {d : Descriptor} (hd : s.descriptor? = some d) :
    r.Together (s :: ss) ↔ (∃ g ∈ r.space.reservations, g.Holds d.opcode) ∧ (∀ d' ∈ r.all, d'.Distinct d) ∧
      Together (r.add d) ss := by
  obtain ⟨hop, hrange⟩ := Registration.opcode?_of_descriptor? hd
  have hperm (hdistinct : ∀ d' ∈ r.all, d'.Distinct d) (howner : ∃ g ∈ r.space.reservations, g.Holds d.opcode) :
      (r.all ++ (s :: ss).filterMap Registration.descriptor?).Perm ((r.add d).all ++ ss.filterMap Registration.descriptor?) := by
    obtain ⟨name, -, hname⟩ := Registration.mnemonic_of_descriptor? hd
    have hall := h.perm_all_add (by rw [hname, Text.fold_fold]) (h.accepts_iff.mpr ⟨hdistinct, howner⟩)
    rw [List.filterMap_cons_some hd]
    exact List.perm_middle.trans (hall.append_right _).symm
  have hranges : (s :: ss).filterMap Registration.range? = ss.filterMap Registration.range? := List.filterMap_cons_none hrange
  have hheld : r.space.reservations ++ s.range?.toList = r.space.reservations := by
    rw [hrange, Option.toList_none, List.append_nil]
  constructor
  · rintro ⟨hfeasible, ⟨howner, howned⟩, hapart, hdistinct⟩
    rw [hranges] at hapart
    rw [hheld] at howned
    have hnew : ∀ d' ∈ r.all, d'.Distinct d := by
      intro d' hd'
      rw [List.filterMap_cons_some hd] at hdistinct
      exact (List.pairwise_append.mp hdistinct).2.2 d' hd' d List.mem_cons_self
    refine ⟨howner _ hop, hnew, (List.forall_mem_cons.mp hfeasible).2, howned, hapart, ?_⟩
    exact ((hperm hnew (howner _ hop)).pairwise_iff Descriptor.Distinct.symm).mp hdistinct
  · rintro ⟨howner, hnew, hothers, howned, hapart, hdistinct⟩
    refine ⟨List.forall_mem_cons.mpr ⟨Or.inr ⟨d, hd⟩, hothers⟩, ⟨?_, ?_⟩, ?_, ?_⟩
    · intro op hop'
      rw [hop] at hop'
      cases hop'
      exact howner
    · rwa [hheld]
    · rwa [hranges]
    · exact ((hperm hnew howner).pairwise_iff Descriptor.Distinct.symm).mpr hdistinct

/-- Steps succeed together when the first one succeeds and the others do after it. -/
theorem together_cons_iff (h : r.Indexed) : r.Together (s :: ss) ↔ ∃ r₁, r.step s = .ok r₁ ∧ r₁.Together ss := by
  constructor
  · intro htogether
    rcases htogether.feasible s List.mem_cons_self with ⟨g, rfl, -⟩ | ⟨d, hd⟩
    · obtain ⟨hgrantable, hapart, hothers⟩ := together_reserve_iff.mp htogether
      exact ⟨_, h.step_eq_ok_iff.mpr (Or.inl ⟨g, rfl, hgrantable, hapart, rfl⟩), hothers⟩
    · obtain ⟨howner, hdistinct, hothers⟩ := (h.together_descriptor_iff hd).mp htogether
      exact ⟨_, h.step_eq_ok_iff.mpr (Or.inr ⟨d, hd, ⟨hdistinct, howner⟩, rfl⟩), hothers⟩
  · rintro ⟨r₁, hstep, hothers⟩
    rcases h.step_eq_ok_iff.mp hstep with ⟨g, rfl, hgrantable, hapart, rfl⟩ | ⟨d, hd, ⟨hdistinct, howner⟩, rfl⟩
    · exact together_reserve_iff.mpr ⟨hgrantable, hapart, hothers⟩
    · exact (h.together_descriptor_iff hd).mpr ⟨howner, hdistinct, hothers⟩

/-- Loading some steps is taking the first one and loading the others. -/
theorem load_cons_eq_none_iff : r.load (s :: ss) = (r', none) ↔ ∃ r₁, r.step s = .ok r₁ ∧ r₁.load ss = (r', none) := by
  cases hs : r.step s with
  | error e => simp [load_of_error hs]
  | ok r₁ => simp [load_of_ok hs]

/-- Steps can be loaded exactly when they succeed together. -/
theorem Reachable.exists_load_iff (h : r.Reachable) : (∃ r', r.load ss = (r', none)) ↔ r.Together ss := by
  induction ss generalizing r with
  | nil =>
    have hi := h.indexed
    have hapart := h.wellFormed.space.apart
    have hdistinct : r.all.Pairwise Descriptor.Distinct := by
      refine List.Pairwise.imp_of_mem ?_ hi.all_pairwise
      intro d d' hd hd' hbefore
      refine ⟨fun hname => hbefore.ne ?_, hbefore.ne⟩
      rw [hi.mnemonic_inj hd hd' hname]
    constructor
    · intro _
      exact ⟨List.forall_mem_nil _, trivial, by simpa using hapart, by simpa using hdistinct⟩
    · intro _
      exact ⟨r, rfl⟩
  | cons s ss ih =>
    simp only [load_cons_eq_none_iff, together_cons_iff h.indexed]
    rw [exists_comm]
    refine exists_congr fun r₁ => ?_
    rw [exists_and_left]
    exact and_congr_right fun hs => ih (h.step hs)

/-- The ranges after some steps are those from before and those that the steps asked for. -/
theorem reservations_of_load (h : r.Reachable) (hload : r.load ss = (r', none)) :
    r'.space.reservations = r.space.reservations ++ ss.filterMap Registration.range? := by
  induction ss generalizing r with
  | nil =>
    cases hload
    exact (List.append_nil _).symm
  | cons s ss ih =>
    obtain ⟨r₁, hstep, hload⟩ := load_cons_eq_none_iff.mp hload
    rw [ih (h.step hstep) hload]
    rcases h.indexed.step_eq_ok_iff.mp hstep with ⟨g, rfl, -, -, rfl⟩ | ⟨d, hd, -, rfl⟩
    · simp [Registration.range?]
    · rw [List.filterMap_cons_none (Registration.opcode?_of_descriptor? hd).2]
      rfl

end Registry

end ScriptEngine
