import ScriptEngine.Proofs.Registry.Steps
import ScriptEngine.Proofs.Result

/-!
# How a registry grows

A step that succeeds does one of two things: it grants a range, or it adds an instruction. `Registry.Growth` says so once, with
everything that has been checked by then; what holds of every registry that can be reached is proved from it and from nothing
else. `Registry.Reachable` counts steps that fail among the steps: they leave the registry as it was.
-/

namespace ScriptEngine

/-! ## Granted ranges -/

namespace OpcodeSpace

/-- A range is granted exactly when it passes all four checks, and it is then the latest one. -/
theorem reserve_eq_ok_iff (s s' : OpcodeSpace) (r : Reservation) :
    s.reserve r = .ok s' ↔
      r.count ≠ 0 ∧ r.stop ≤ r.segment.opcodeLimit ∧ r.InRegion ∧ (∀ q ∈ s.reservations, ¬ q.Overlaps r) ∧
        s' = ⟨s.reservations ++ [r]⟩ := by
  rw [reserve_eq]
  constructor
  · intro h
    split at h
    · cases h
    rename_i hcount
    split at h
    · cases h
    rename_i hstop
    split at h
    · cases h
    rename_i hregion
    split at h
    · cases h
    rename_i hnone
    cases h
    refine ⟨hcount, Nat.le_of_not_lt hstop, Decidable.not_not.mp hregion, ?_, rfl⟩
    intro q hq hover
    exact List.find?_eq_none.mp hnone q hq (decide_eq_true hover)
  · rintro ⟨hcount, hstop, hregion, hapart, rfl⟩
    have hnone : s.reservations.find? (·.Overlaps r) = none := by
      rw [List.find?_eq_none]
      intro q hq hover
      exact hapart q hq (of_decide_eq_true hover)
    rw [if_neg hcount, if_neg (Nat.not_lt.mpr hstop), if_neg (Decidable.not_not.mpr hregion), hnone]

/-- What is true of the ranges that are granted one after the other: none is empty, each lies in the opcode field and in its
region, and no two share an opcode. -/
structure WellFormed (s : OpcodeSpace) : Prop where
  nonempty : ∀ g ∈ s.reservations, g.count ≠ 0
  fits : ∀ g ∈ s.reservations, g.stop ≤ g.segment.opcodeLimit
  inRegion : ∀ g ∈ s.reservations, g.InRegion
  apart : s.reservations.Pairwise fun q g => ¬ q.Overlaps g

/-- A granted range fits among those granted before. -/
theorem WellFormed.grant {s : OpcodeSpace} (h : s.WellFormed) {r : Reservation} (hcount : r.count ≠ 0)
    (hstop : r.stop ≤ r.segment.opcodeLimit) (hregion : r.InRegion) (hapart : ∀ q ∈ s.reservations, ¬ q.Overlaps r) :
    WellFormed ⟨s.reservations ++ [r]⟩ := by
  have hmem {P : Reservation → Prop} (hold : ∀ g ∈ s.reservations, P g) (hnew : P r) :
      ∀ g ∈ s.reservations ++ [r], P g :=
    List.forall_mem_append.mpr ⟨hold, List.forall_mem_singleton.mpr hnew⟩
  refine ⟨hmem h.nonempty hcount, hmem h.fits hstop, hmem h.inRegion hregion, ?_⟩
  rw [List.pairwise_append]
  refine ⟨h.apart, List.pairwise_singleton _ _, ?_⟩
  intro q hq g hg
  rw [List.mem_singleton.mp hg]
  exact hapart q hq

/-- The owner of an opcode is a granted range that holds the opcode. -/
theorem owner?_eq_some {s : OpcodeSpace} {op : Opcode} {g : Reservation} (h : s.owner? op = some g) :
    g ∈ s.reservations ∧ g.Holds op := by
  unfold owner? at h
  have hholds := List.find?_some h
  exact ⟨List.mem_of_find?_eq_some h, of_decide_eq_true hholds⟩

/-- An opcode has an owner when a granted range holds it. -/
theorem owner?_ne_none_iff {s : OpcodeSpace} {op : Opcode} : s.owner? op ≠ none ↔ ∃ g ∈ s.reservations, g.Holds op := by
  simp [owner?]

/-- An opcode that has an owner fits its segment. -/
theorem WellFormed.fits_of_owner {s : OpcodeSpace} (h : s.WellFormed) {op : Opcode} (ho : s.owner? op ≠ none) :
    op.Fits := by
  obtain ⟨g, hmem, hseg, -, hlt⟩ := owner?_ne_none_iff.mp ho
  rw [Opcode.Fits, hseg]
  exact Nat.lt_of_lt_of_le hlt (h.fits g hmem)

/-- An opcode keeps an owner when a range is granted. -/
theorem owner?_append_ne_none {rs : List Reservation} {op : Opcode} (g : Reservation)
    (h : owner? ⟨rs⟩ op ≠ none) : owner? ⟨rs ++ [g]⟩ op ≠ none := by
  obtain ⟨q, hq, hholds⟩ := owner?_ne_none_iff.mp h
  exact owner?_ne_none_iff.mpr ⟨q, List.mem_append_left [g] hq, hholds⟩

end OpcodeSpace

/-! ## Steps -/

namespace Registration

/-- The name that a step registers. -/
def mnemonic? : Registration → Option String
  | reserve _ => none
  | .instruction mnemonic _ _ => some mnemonic
  | .function mnemonic _ _ _ => some mnemonic

/-- The descriptor that a step writes, if its signature and its return type can be read. -/
def descriptor? : Registration → Option Descriptor
  | reserve _ => none
  | .instruction mnemonic signature opcode =>
    (Signature.ofText signature).toOption.map fun parsed => ⟨Text.fold mnemonic, parsed, opcode, .instruction⟩
  | .function mnemonic returns signature opcode =>
    (ReturnType.ofLetter? returns).bind fun t =>
      (Signature.ofText signature).toOption.map fun parsed => ⟨Text.fold mnemonic, parsed, opcode, .function t⟩

/-- A descriptor that a step writes has the name of the step in lower case. -/
theorem mnemonic_of_descriptor? {s : Registration} {d : Descriptor} (h : s.descriptor? = some d) :
    ∃ name, s.mnemonic? = some name ∧ d.mnemonic = Text.fold name := by
  cases s with
  | reserve g => cases h
  | instruction mnemonic signature opcode =>
    obtain ⟨parsed, -, rfl⟩ := Option.map_eq_some_iff.mp h
    exact ⟨mnemonic, rfl, rfl⟩
  | function mnemonic returns signature opcode =>
    obtain ⟨t, -, h⟩ := Option.bind_eq_some_iff.mp h
    obtain ⟨parsed, -, rfl⟩ := Option.map_eq_some_iff.mp h
    exact ⟨mnemonic, rfl, rfl⟩

end Registration

namespace Registry

/-- The registry with a descriptor written into both tables. -/
def add (r : Registry) (d : Descriptor) : Registry where
  space := r.space
  descriptors := r.descriptors.insert d.mnemonic d
  mnemonics := r.mnemonics.insert d.opcode d.mnemonic

/-- A descriptor whose name is new is listed besides those from before. -/
theorem mem_all_add {r : Registry} {d x : Descriptor} (hfresh : r.descriptors.contains d.mnemonic = false) :
    x ∈ (r.add d).all ↔ x = d ∨ x ∈ r.all := by
  have hnone := NameTable.contains_eq_false_iff.mp hfresh
  simp only [all, add, List.mem_filterMap, OpcodeTable.mem_values_insert, NameTable.get?_insert]
  constructor
  · rintro ⟨name, hname, hfound⟩
    split at hfound
    · exact Or.inl (Option.some.inj hfound).symm
    · rename_i hne
      exact Or.inr ⟨name, hname.resolve_left (Ne.symm hne), hfound⟩
  · rintro (rfl | ⟨name, hname, hfound⟩)
    · exact ⟨_, Or.inl rfl, if_pos rfl⟩
    · refine ⟨name, Or.inr hname, ?_⟩
      rwa [if_neg]
      rintro rfl
      rw [hnone] at hfound
      cases hfound

/-- A descriptor can be added: its mnemonic is new, and its opcode is reserved and free. -/
structure Accepts (r : Registry) (d : Descriptor) : Prop where
  fresh : r.descriptors.contains d.mnemonic = false
  owned : r.space.owner? d.opcode ≠ none
  free : r.mnemonics.get? d.opcode = none

/-- A registration succeeds exactly when its signature can be read and its descriptor can be added, and then it is. -/
theorem register_eq_ok_iff {r r' : Registry} {mnemonic signature : String} {opcode : Opcode} {kind : Kind} :
    r.register mnemonic signature opcode kind = .ok r' ↔
      ∃ d, (Signature.ofText signature).toOption.map (fun parsed => ⟨Text.fold mnemonic, parsed, opcode, kind⟩) = some d ∧
        r.Accepts d ∧ r' = r.add d := by
  simp only [register_eq]
  constructor
  · intro h
    split at h
    · cases h
    rename_i hfresh
    split at h
    · cases h
    rename_i parsed hparsed
    split at h
    · cases h
    rename_i howned
    split at h
    · cases h
    rename_i hfree
    cases h
    refine ⟨⟨Text.fold mnemonic, parsed, opcode, kind⟩, ?_, ⟨Bool.eq_false_iff.mpr hfresh, howned, hfree⟩, rfl⟩
    rw [hparsed]
    rfl
  · rintro ⟨d, hd, haccepts, rfl⟩
    cases hparsed : Signature.ofText signature with
    | error reason =>
      rw [hparsed] at hd
      cases hd
    | ok parsed =>
      rw [hparsed] at hd
      cases hd
      simp only [haccepts.fresh, Bool.false_eq_true, if_false, if_neg haccepts.owned, haccepts.free]
      rfl

/-- A step succeeds exactly when it asks for a range that is granted, or writes a descriptor that can be added. -/
theorem step_eq_ok_iff {r r' : Registry} {s : Registration} :
    r.step s = .ok r' ↔
      (∃ g space, s = .reserve g ∧ r.space.reserve g = .ok space ∧ r' = { r with space }) ∨
        ∃ d, s.descriptor? = some d ∧ r.Accepts d ∧ r' = r.add d := by
  cases s with
  | reserve g => simp [step_reserve_eq_ok_iff, Registration.descriptor?]
  | instruction mnemonic signature opcode =>
    have hstep : r.step (.instruction mnemonic signature opcode) = r.register mnemonic signature opcode .instruction := rfl
    simp [hstep, register_eq_ok_iff, Registration.descriptor?]
  | function mnemonic returns signature opcode =>
    rw [step_function]
    cases hreturns : ReturnType.ofLetter? returns <;> simp [register_eq_ok_iff, Registration.descriptor?, hreturns]

/-- What a step that succeeds does to a registry, and what has been checked before. -/
inductive Growth (r : Registry) : Registry → Prop where
  | grant (g : Reservation) : g.count ≠ 0 → g.stop ≤ g.segment.opcodeLimit → g.InRegion →
      (∀ q ∈ r.space.reservations, ¬ q.Overlaps g) →
      Growth r { r with space := ⟨r.space.reservations ++ [g]⟩ }
  | add (mnemonic : String) (d : Descriptor) : d.mnemonic = Text.fold mnemonic → r.Accepts d → Growth r (r.add d)

/-- Every step that succeeds is growth. -/
theorem growth_of_step {r r' : Registry} {s : Registration} (h : r.step s = .ok r') : Growth r r' := by
  rcases step_eq_ok_iff.mp h with ⟨g, space, -, hs, rfl⟩ | ⟨d, hd, haccepts, rfl⟩
  · obtain ⟨hcount, hstop, hregion, hapart, rfl⟩ := (OpcodeSpace.reserve_eq_ok_iff _ _ _).mp hs
    exact .grant g hcount hstop hregion hapart
  · obtain ⟨name, -, hname⟩ := Registration.mnemonic_of_descriptor? hd
    exact .add name d hname haccepts

/-! ## Registries that can be reached -/

/-- What steps lead to from the empty registry, whichever of them succeed. -/
inductive Reachable : Registry → Prop where
  | empty : Reachable {}
  | attempt {r : Registry} (s : Registration) : Reachable r → Reachable (r.attempt s)

/-- A step that succeeds leads to a registry that can be reached. -/
theorem Reachable.step {r r' : Registry} (h : r.Reachable) {s : Registration} (hs : r.step s = .ok r') :
    r'.Reachable := by
  have hr := h.attempt s
  rwa [attempt_of_ok hs] at hr

/-- Loading steps leads to a registry that can be reached, also when one of them fails. -/
theorem Reachable.load {r : Registry} (h : r.Reachable) (ss : List Registration) : (r.load ss).1.Reachable := by
  induction ss generalizing r with
  | nil => exact h
  | cons s ss ih =>
    cases hs : r.step s with
    | error e => rwa [load_of_error hs]
    | ok r' =>
      rw [load_of_ok hs]
      exact ih (h.step hs)

/-- Steps lead from a registry that can be reached to another one, whichever of them succeed. -/
theorem Reachable.attempts {r : Registry} (h : r.Reachable) (ss : List Registration) :
    (ss.foldl Registry.attempt r).Reachable :=
  List.foldlRecOn ss Registry.attempt h fun _ hr s _ => hr.attempt s

/-- A step leaves the registry as it was or is growth. -/
theorem growth_of_attempt (r : Registry) (s : Registration) : r.attempt s = r ∨ Growth r (r.attempt s) := by
  cases hs : r.step s with
  | error e => exact Or.inl (attempt_of_error hs)
  | ok r' =>
    rw [attempt_of_ok hs]
    exact Or.inr (growth_of_step hs)

/-- What growth keeps is true of every registry that can be reached. -/
theorem Reachable.invariant {P : Registry → Prop} (hempty : P {}) (hgrow : ∀ r r', P r → Growth r r' → P r')
    {r : Registry} (h : r.Reachable) : P r := by
  induction h with
  | empty => exact hempty
  | @attempt r s _ ih =>
    rcases growth_of_attempt r s with hsame | hg
    · rwa [hsame]
    · exact hgrow r _ ih hg

/-- The ranges of a registry are well-formed, and every registered opcode lies in one of them. -/
structure WellFormed (r : Registry) : Prop where
  space : r.space.WellFormed
  owned : ∀ d ∈ r.all, r.space.owner? d.opcode ≠ none

/-- Growth keeps a registry well-formed. -/
theorem WellFormed.growth {r r' : Registry} (h : r.WellFormed) (hg : Growth r r') : r'.WellFormed := by
  cases hg with
  | grant g hcount hstop hregion hapart =>
    refine ⟨h.space.grant hcount hstop hregion hapart, ?_⟩
    intro d hd
    exact OpcodeSpace.owner?_append_ne_none g (h.owned d hd)
  | add _ d _ haccepts =>
    refine ⟨h.space, ?_⟩
    intro d' hd'
    rcases (mem_all_add haccepts.fresh).mp hd' with rfl | hd'
    · exact haccepts.owned
    · exact h.owned d' hd'

/-- Every registry that can be reached is well-formed. -/
theorem Reachable.wellFormed {r : Registry} (h : r.Reachable) : r.WellFormed := by
  refine h.invariant ⟨⟨?_, ?_, ?_, List.Pairwise.nil⟩, ?_⟩ fun _ _ => WellFormed.growth
  all_goals
    intro x hx
    cases hx

/-- Every registered opcode fits its segment. -/
theorem WellFormed.opcode_fits {r : Registry} (h : r.WellFormed) {d : Descriptor} (hd : d ∈ r.all) : d.opcode.Fits :=
  h.space.fits_of_owner (h.owned d hd)

end Registry

end ScriptEngine
