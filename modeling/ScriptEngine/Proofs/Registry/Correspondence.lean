import ScriptEngine.Proofs.Registry.Growth
import ScriptEngine.Proofs.Registry.Signature
import ScriptEngine.Proofs.Word.Table

/-!
# Mnemonics and opcodes

In every registry that can be reached a mnemonic names one opcode and an opcode has one mnemonic. The registry keeps one table for
each direction, and an entry of the one without its entry in the other would be passed over in silence. That the two stay in step
is an invariant of growth (`Registry.Indexed`), and from it follow that looking for a name and looking for an opcode find the same
descriptors, and that the listing drops none. A registry never loses what it holds, so a descriptor is found under its name and
its opcode ever after.
-/

namespace ScriptEngine

/-! ## Ranges that hold an opcode -/

namespace OpcodeSpace

/-- Two ranges that hold the same opcode overlap. -/
theorem overlaps_of_holds {q g : Reservation} {op : Opcode} (hq : q.Holds op) (hg : g.Holds op) : q.Overlaps g := by
  obtain ⟨hseg, hbase, hstop⟩ := hq
  obtain ⟨hseg', hbase', hstop'⟩ := hg
  exact ⟨hseg.symm.trans hseg', Nat.lt_of_le_of_lt hbase' hstop, Nat.lt_of_le_of_lt hbase hstop'⟩

/-- No opcode lies in two ranges. -/
theorem WellFormed.countP_holds_le_one {s : OpcodeSpace} (h : s.WellFormed) (op : Opcode) :
    s.reservations.countP (·.Holds op) ≤ 1 := by
  rw [List.countP_eq_length_filter]
  have hpair := h.apart.filter (fun g => decide (g.Holds op))
  have hholds : ∀ g ∈ s.reservations.filter (fun g => decide (g.Holds op)), g.Holds op := by
    intro g hg
    exact of_decide_eq_true (List.mem_filter.mp hg).2
  generalize s.reservations.filter (fun g => decide (g.Holds op)) = holders at hpair hholds ⊢
  rcases holders with _ | ⟨q, _ | ⟨g, rest⟩⟩
  · exact Nat.zero_le 1
  · exact Nat.le_refl 1
  · have hapart := (List.pairwise_cons.mp hpair).1 g List.mem_cons_self
    have hq := hholds q List.mem_cons_self
    have hg := hholds g (List.mem_cons_of_mem q List.mem_cons_self)
    exact absurd (overlaps_of_holds hq hg) hapart

/-- An opcode that has an owner lies in exactly one range. -/
theorem WellFormed.countP_holds_eq_one {s : OpcodeSpace} (h : s.WellFormed) {op : Opcode} (ho : s.owner? op ≠ none) :
    s.reservations.countP (·.Holds op) = 1 := by
  obtain ⟨g, hmem, hholds⟩ := owner?_ne_none_iff.mp ho
  have hpos : 0 < s.reservations.countP (·.Holds op) := List.countP_pos_iff.mpr ⟨g, hmem, decide_eq_true hholds⟩
  have hle := h.countP_holds_le_one op
  omega

end OpcodeSpace

/-! ## Steps and descriptors -/

namespace ReturnType

/-- A letter is read as the return type that has it. -/
theorem ofLetter?_eq_some_iff {c : Char} {t : ReturnType} : ofLetter? c = some t ↔ t.letter = c := by
  constructor
  · intro h
    unfold ofLetter? at h
    split at h <;> cases h <;> rfl
  · rintro rfl
    cases t <;> rfl

end ReturnType

/-- Two descriptors share neither their name nor their opcode. -/
def Descriptor.Distinct (d d' : Descriptor) : Prop := d.mnemonic ≠ d'.mnemonic ∧ d.opcode ≠ d'.opcode

theorem Descriptor.Distinct.symm {d d' : Descriptor} (h : d.Distinct d') : d'.Distinct d := ⟨h.1.symm, h.2.symm⟩

namespace Registration

/-- A step is for a descriptor: it gives the name, in any case of its letters, the opcode, and the signature and the return type
as they are written. -/
inductive Writes : Registration → Descriptor → Prop where
  | instruction (name : String) {parsed : Signature} (opcode : Opcode) : parsed.Valid →
      Writes (.instruction name parsed.text opcode) ⟨Text.fold name, parsed, opcode, .instruction⟩
  | function (name : String) (t : ReturnType) {parsed : Signature} (opcode : Opcode) : parsed.Valid →
      Writes (.function name t.letter parsed.text opcode) ⟨Text.fold name, parsed, opcode, .function t⟩

/-- The descriptor that a step writes is the one that it is for. -/
theorem descriptor?_eq_some_iff {s : Registration} {d : Descriptor} : s.descriptor? = some d ↔ s.Writes d := by
  constructor
  · intro h
    cases s with
    | reserve g => cases h
    | instruction name signature opcode =>
      obtain ⟨parsed, hparsed, rfl⟩ := Option.map_eq_some_iff.mp h
      obtain ⟨hvalid, rfl⟩ := Signature.ofText_eq_ok_iff.mp (eq_ok_of_toOption hparsed)
      exact .instruction name opcode hvalid
    | function name returns signature opcode =>
      obtain ⟨t, hreturns, hd⟩ := Option.bind_eq_some_iff.mp h
      obtain ⟨parsed, hparsed, rfl⟩ := Option.map_eq_some_iff.mp hd
      obtain ⟨hvalid, rfl⟩ := Signature.ofText_eq_ok_iff.mp (eq_ok_of_toOption hparsed)
      obtain rfl := ReturnType.ofLetter?_eq_some_iff.mp hreturns
      exact .function name t opcode hvalid
  · intro h
    cases h with
    | instruction name opcode hvalid =>
      rw [descriptor?, Signature.ofText_eq_ok_iff.mpr ⟨hvalid, rfl⟩]
      rfl
    | function name t opcode hvalid =>
      rw [descriptor?, ReturnType.ofLetter?_eq_some_iff.mpr rfl, Option.bind_some, Signature.ofText_eq_ok_iff.mpr ⟨hvalid, rfl⟩]
      rfl

end Registration

namespace Registry

/-! ## The two tables -/

/-- The two tables are in step: an opcode has a mnemonic exactly when the mnemonic has a descriptor with the opcode. Each
descriptor is kept under its own mnemonic, which is in lower case, and the opcodes are in order. -/
structure Indexed (r : Registry) : Prop where
  ordered : r.mnemonics.Ordered
  inStep : ∀ op name, r.mnemonics.get? op = some name ↔ ∃ d, r.descriptors.get? name = some d ∧ d.opcode = op
  keyed : ∀ name d, r.descriptors.get? name = some d → d.mnemonic = name
  lower : ∀ name d, r.descriptors.get? name = some d → Text.fold name = name

/-- Two tables that are in step stay so when a new descriptor is written into both. -/
theorem Indexed.add {r : Registry} (h : r.Indexed) {d : Descriptor} (hname : Text.fold d.mnemonic = d.mnemonic)
    (haccepts : r.Accepts d) : (r.add d).Indexed := by
  have hfresh := NameTable.contains_eq_false_iff.mp haccepts.fresh
  have hentry {P : String → Descriptor → Prop} (hnew : P d.mnemonic d)
      (hold : ∀ name x, r.descriptors.get? name = some x → P name x) : ∀ name x, (r.add d).descriptors.get? name = some x → P name x := by
    intro name x hx
    rw [Registry.add, NameTable.get?_insert] at hx
    split at hx
    · rename_i heq
      cases heq
      cases hx
      exact hnew
    · exact hold name x hx
  refine ⟨h.ordered.insert haccepts.free d.mnemonic, ?_, hentry rfl h.keyed, hentry hname h.lower⟩
  intro op name
  simp only [Registry.add, OpcodeTable.get?_insert, NameTable.get?_insert]
  by_cases hop : d.opcode = op <;> by_cases hsame : d.mnemonic = name
  · simp [hop, hsame]
  · -- Another descriptor with the opcode would have put its mnemonic there.
    have hother : ¬ ∃ x, r.descriptors.get? name = some x ∧ x.opcode = op := by
      simp [← h.inStep, ← hop, haccepts.free]
    simp [hop, hsame, hother]
  · have hother := h.inStep op name
    rw [← hsame, hfresh] at hother
    simp only [reduceCtorEq, false_and, exists_false, iff_false] at hother
    simp [hop, ← hsame, hother]
  · simp [hop, hsame, h.inStep]

/-- Growth keeps the two tables in step. -/
theorem Indexed.growth {r r' : Registry} (h : r.Indexed) (hg : Growth r r') : r'.Indexed := by
  cases hg with
  | grant g _ _ _ _ => exact ⟨h.ordered, h.inStep, h.keyed, h.lower⟩
  | add mnemonic d hname haccepts =>
    exact h.add (by rw [hname, Text.fold_fold]) haccepts

/-- In every registry that can be reached the two tables are in step. -/
theorem Reachable.indexed {r : Registry} (h : r.Reachable) : r.Indexed := by
  refine h.invariant ⟨OpcodeTable.ordered_empty, ?_, ?_, ?_⟩ fun _ _ => Indexed.growth
  · intro op name
    simp [OpcodeTable.get?]
  all_goals
    intro name d hd
    cases hd

section Indexed

variable {r : Registry} (h : r.Indexed)

include h

/-- The registered descriptors are those that are found under their own mnemonic. -/
theorem Indexed.mem_all_iff {d : Descriptor} : d ∈ r.all ↔ r.descriptors.get? d.mnemonic = some d := by
  rw [all, List.mem_filterMap]
  constructor
  · rintro ⟨name, -, hd⟩
    rwa [h.keyed name d hd]
  · intro hd
    have hentry := h.ordered.get?_eq_some_iff.mp ((h.inStep d.opcode d.mnemonic).mpr ⟨d, hd, rfl⟩)
    exact ⟨d.mnemonic, List.mem_map.mpr ⟨_, hentry, rfl⟩, hd⟩

/-- A descriptor is found under a mnemonic when it is registered and has the mnemonic. -/
theorem Indexed.get?_eq_some_iff {name : String} {d : Descriptor} :
    r.descriptors.get? name = some d ↔ d ∈ r.all ∧ d.mnemonic = name := by
  rw [h.mem_all_iff]
  constructor
  · intro hd
    obtain rfl := h.keyed name d hd
    exact ⟨hd, rfl⟩
  · rintro ⟨hd, rfl⟩
    exact hd

/-- Every mnemonic is in lower case. -/
theorem Indexed.folded {d : Descriptor} (hd : d ∈ r.all) : Text.fold d.mnemonic = d.mnemonic :=
  h.lower _ d (h.mem_all_iff.mp hd)

/-- Two descriptors with the same mnemonic are the same. -/
theorem Indexed.mnemonic_inj {d d' : Descriptor} (hd : d ∈ r.all) (hd' : d' ∈ r.all) (hname : d.mnemonic = d'.mnemonic) :
    d = d' := by
  have hfound := h.mem_all_iff.mp hd
  rw [hname, h.mem_all_iff.mp hd'] at hfound
  exact (Option.some.inj hfound).symm

/-- A name is new when it is the mnemonic of no descriptor. -/
theorem Indexed.contains_eq_false_iff {name : String} : r.descriptors.contains name = false ↔ ∀ d ∈ r.all, d.mnemonic ≠ name := by
  simp [NameTable.contains_eq_false_iff, Option.eq_none_iff_forall_not_mem, h.get?_eq_some_iff]

/-- The descriptor with an opcode is the registered one that has it. -/
theorem Indexed.byOpcode?_eq_some_iff {op : Opcode} {d : Descriptor} :
    r.byOpcode? op = some d ↔ d ∈ r.all ∧ d.opcode = op := by
  simp only [byOpcode?, Option.bind_eq_some_iff, h.inStep]
  constructor
  · rintro ⟨name, ⟨d', hd', hop⟩, hd⟩
    obtain rfl := Option.some.inj (hd'.symm.trans hd)
    exact ⟨(h.get?_eq_some_iff.mp hd).1, hop⟩
  · rintro ⟨hd, hop⟩
    exact ⟨d.mnemonic, ⟨d, h.mem_all_iff.mp hd, hop⟩, h.mem_all_iff.mp hd⟩

/-- An opcode has a mnemonic when it is the opcode of the descriptor with the mnemonic. -/
theorem Indexed.mnemonic_eq_some_iff {op : Opcode} {name : String} :
    r.mnemonics.get? op = some name ↔ ∃ d ∈ r.all, d.mnemonic = name ∧ d.opcode = op := by
  simp only [h.inStep, h.get?_eq_some_iff, and_assoc]

/-- An opcode finds a descriptor when it has a mnemonic. -/
theorem Indexed.isSome_byOpcode? (op : Opcode) : (r.byOpcode? op).isSome = r.mnemonics.contains op := by
  rw [OpcodeTable.contains, Bool.eq_iff_iff, Option.isSome_iff_exists, Option.isSome_iff_exists]
  simp only [h.byOpcode?_eq_some_iff, h.mnemonic_eq_some_iff]
  constructor
  · rintro ⟨d, hd, hop⟩
    exact ⟨d.mnemonic, d, hd, rfl, hop⟩
  · rintro ⟨name, d, hd, -, hop⟩
    exact ⟨d, hd, hop⟩

/-- An opcode has no mnemonic when it is the opcode of no descriptor. -/
theorem Indexed.mnemonic_eq_none_iff {op : Opcode} : r.mnemonics.get? op = none ↔ ∀ d ∈ r.all, d.opcode ≠ op := by
  rw [Option.eq_none_iff_forall_ne_some]
  constructor
  · intro hnone d hd hop
    exact hnone d.mnemonic (h.mnemonic_eq_some_iff.mpr ⟨d, hd, rfl, hop⟩)
  · intro hfree name hname
    obtain ⟨d, hd, -, hop⟩ := h.mnemonic_eq_some_iff.mp hname
    exact hfree d hd hop

/-- A descriptor can be added when it shares neither name nor opcode with one that is there, and a granted range holds the opcode. -/
theorem Indexed.accepts_iff {d : Descriptor} :
    r.Accepts d ↔ (∀ d' ∈ r.all, d'.Distinct d) ∧ ∃ g ∈ r.space.reservations, g.Holds d.opcode := by
  simp only [Descriptor.Distinct, forall₂_and, ← h.contains_eq_false_iff, ← h.mnemonic_eq_none_iff,
    ← OpcodeSpace.owner?_ne_none_iff]
  constructor
  · rintro ⟨hfresh, howned, hfree⟩
    exact ⟨⟨hfresh, hfree⟩, howned⟩
  · rintro ⟨⟨hfresh, hfree⟩, howned⟩
    exact ⟨hfresh, howned, hfree⟩

/-- A step for a descriptor succeeds exactly when the descriptor can be added. -/
theorem Indexed.succeeds_iff {s : Registration} {d : Descriptor} (hwrites : s.Writes d) :
    (∃ r', r.step s = .ok r') ↔ (∀ d' ∈ r.all, d'.Distinct d) ∧ ∃ g ∈ r.space.reservations, g.Holds d.opcode := by
  have hd := Registration.descriptor?_eq_some_iff.mpr hwrites
  rw [← h.accepts_iff]
  constructor
  · rintro ⟨r', hr'⟩
    rcases step_eq_ok_iff.mp hr' with ⟨g, space, rfl, -, -⟩ | ⟨d', hd', haccepts, -⟩
    · cases hd
    · rw [hd, Option.some_inj] at hd'
      rwa [hd']
  · intro haccepts
    exact ⟨r.add d, step_eq_ok_iff.mpr (Or.inr ⟨d, hd, haccepts, rfl⟩)⟩

/-- Looking for a name finds the registered descriptor that has it, in lower case. -/
theorem Indexed.find?_eq_some_iff {mnemonic : String} {d : Descriptor} :
    r.find? mnemonic = some d ↔ d ∈ r.all ∧ d.mnemonic = Text.fold mnemonic :=
  h.get?_eq_some_iff

/-- The descriptor with a name is the registered one that has it, in lower case. -/
theorem Indexed.lookup_eq_ok_iff {mnemonic : String} {d : Descriptor} :
    r.lookup mnemonic = .ok d ↔ d ∈ r.all ∧ d.mnemonic = Text.fold mnemonic := by
  rw [← h.find?_eq_some_iff, lookup]
  cases r.find? mnemonic <;> simp

/-- Descriptors are registered in strictly increasing order of their opcodes. -/
theorem Indexed.all_pairwise : r.all.Pairwise fun d d' => d.opcode.Before d'.opcode := by
  have hopcode {e : Opcode × String} {d : Descriptor} (he : e ∈ r.mnemonics.entries) (hd : r.descriptors.get? e.2 = some d) :
      d.opcode = e.1 := by
    obtain ⟨d', hd', hop⟩ := (h.inStep _ _).mp (h.ordered.get?_eq_some_iff.mpr he)
    rwa [Option.some.inj (hd.symm.trans hd')]
  rw [all, OpcodeTable.values, List.filterMap_map, List.pairwise_filterMap]
  refine h.ordered.imp_of_mem ?_
  intro e e' he he' hbefore d hd d' hd'
  rwa [hopcode he hd, hopcode he' hd']

/-- No descriptor is listed twice. -/
theorem Indexed.nodup_all : r.all.Nodup := h.all_pairwise.imp fun hbefore hsame => hbefore.ne (congrArg _ hsame)

/-- A descriptor that can be added is not there. -/
theorem Indexed.not_mem_of_accepts {d : Descriptor} (haccepts : r.Accepts d) : d ∉ r.all := by
  intro hd
  exact h.contains_eq_false_iff.mp haccepts.fresh d hd rfl

/-- A descriptor that is added is listed once, besides those from before. -/
theorem Indexed.perm_all_add {d : Descriptor} (hname : Text.fold d.mnemonic = d.mnemonic) (haccepts : r.Accepts d) :
    (r.add d).all.Perm (d :: r.all) := by
  have hnodup : (d :: r.all).Nodup := List.nodup_cons.mpr ⟨h.not_mem_of_accepts haccepts, h.nodup_all⟩
  refine (List.perm_ext_iff_of_nodup (h.add hname haccepts).nodup_all hnodup).mpr fun x => ?_
  rw [mem_all_add haccepts.fresh, List.mem_cons]

/-- The listing drops none of the registered opcodes. -/
theorem Indexed.map_opcode_all : r.all.map (·.opcode) = r.opcodes := by
  have hall : (r.all.map (·.opcode)).Pairwise fun q q' => (id q).Before (id q') := List.pairwise_map.mpr h.all_pairwise
  refine eq_of_same_elements hall h.ordered.opcodes_pairwise fun op => ?_
  rw [opcodes, OpcodeTable.mem_opcodes_iff, ← h.isSome_byOpcode?, Option.isSome_iff_exists, List.mem_map]
  simp only [h.byOpcode?_eq_some_iff]

/-- The listing is as long as there are names. -/
theorem Indexed.length_all : r.all.length = r.size := by
  have hnodup : (r.all.map (·.mnemonic)).Nodup := by
    refine List.pairwise_map.mpr (h.all_pairwise.imp_of_mem ?_)
    intro d d' hd hd' hbefore hname
    exact hbefore.ne (congrArg _ (h.mnemonic_inj hd hd' hname))
  have hsame : ∀ name, name ∈ r.all.map (·.mnemonic) ↔ name ∈ r.descriptors.names := by
    intro name
    simp only [NameTable.mem_names_iff, List.mem_map, h.get?_eq_some_iff]
  have hperm := (List.perm_ext_iff_of_nodup hnodup r.descriptors.distinct).mpr hsame
  simpa [size, NameTable.size] using hperm.length_eq

/-- Two descriptors with the same opcode are the same. -/
theorem Indexed.opcode_inj {d d' : Descriptor} (hd : d ∈ r.all) (hd' : d' ∈ r.all) (hop : d.opcode = d'.opcode) :
    d = d' := by
  have hfound := h.byOpcode?_eq_some_iff.mpr ⟨hd, hop⟩
  rw [h.byOpcode?_eq_some_iff.mpr ⟨hd', rfl⟩] at hfound
  exact (Option.some.inj hfound).symm

end Indexed

/-! ## What steps register -/

/-- A step that succeeds adds the descriptor that it writes, if it writes one, and nothing else. -/
theorem mem_all_of_step {r r' : Registry} {s : Registration} (h : r.step s = .ok r') {d : Descriptor} :
    d ∈ r'.all ↔ d ∈ r.all ∨ s.descriptor? = some d := by
  rcases step_eq_ok_iff.mp h with ⟨g, space, rfl, -, rfl⟩ | ⟨d', hd', haccepts, rfl⟩
  · simp [Registration.descriptor?, all]
  · rw [mem_all_add haccepts.fresh, hd', Option.some.injEq, or_comm, eq_comm]

/-- Steps that all succeed add the descriptors that they write, and nothing else. -/
theorem mem_all_of_load {r r' : Registry} {ss : List Registration} (h : r.load ss = (r', none)) {d : Descriptor} :
    d ∈ r'.all ↔ d ∈ r.all ∨ d ∈ ss.filterMap Registration.descriptor? := by
  induction ss generalizing r with
  | nil =>
    cases h
    simp
  | cons s ss ih =>
    cases hs : r.step s with
    | error e =>
      rw [load_of_error hs] at h
      cases h
    | ok r₁ =>
      rw [load_of_ok hs] at h
      rw [ih h, mem_all_of_step hs, or_assoc]
      simp [List.mem_filterMap]

/-- An attempted step adds the descriptor that it is for, if it succeeds, and nothing else. -/
theorem mem_all_attempt_iff {r : Registry} {s : Registration} {d : Descriptor} :
    d ∈ (r.attempt s).all ↔ d ∈ r.all ∨ (∃ r', r.step s = .ok r') ∧ s.Writes d := by
  cases hs : r.step s with
  | error e => simp [attempt_of_error hs]
  | ok r' => simp [attempt_of_ok hs, mem_all_of_step hs, Registration.descriptor?_eq_some_iff]

/-- The descriptors after some steps are those from before, and those of the steps that have succeeded. -/
theorem mem_all_attempts_iff {r : Registry} {ss : List Registration} {d : Descriptor} :
    d ∈ (ss.foldl attempt r).all ↔ d ∈ r.all ∨
      ∃ before s after, ss = before ++ s :: after ∧ (∃ r', (before.foldl attempt r).step s = .ok r') ∧ s.Writes d :=
  foldl_gains_iff (P := fun r : Registry => d ∈ r.all) fun _ _ => mem_all_attempt_iff

/-! ## What stays registered -/

/-- Whatever is registered, and whatever is granted, in the first registry is so in the second. -/
structure Extends (r r' : Registry) : Prop where
  all : ∀ d ∈ r.all, d ∈ r'.all
  ranges : ∀ g ∈ r.space.reservations, g ∈ r'.space.reservations

theorem Extends.refl (r : Registry) : r.Extends r := ⟨fun _ hd => hd, fun _ hg => hg⟩

theorem Extends.trans {r r' r'' : Registry} (h : r.Extends r') (h' : r'.Extends r'') : r.Extends r'' :=
  ⟨fun d hd => h'.all d (h.all d hd), fun g hg => h'.ranges g (h.ranges g hg)⟩

/-- Growth loses nothing. -/
theorem Growth.extends {r r' : Registry} (h : Growth r r') : r.Extends r' := by
  cases h with
  | grant g _ _ _ _ => exact ⟨fun _ hd => hd, fun _ hq => List.mem_append_left _ hq⟩
  | add _ d _ haccepts => exact ⟨fun _ hd => (mem_all_add haccepts.fresh).mpr (Or.inr hd), fun _ hg => hg⟩

/-- Steps lose nothing, whichever of them succeed. -/
theorem extends_attempts (r : Registry) (ss : List Registration) : r.Extends (ss.foldl attempt r) := by
  refine List.foldlRecOn ss attempt (Extends.refl r) ?_
  intro r' hext s _
  rcases growth_of_attempt r' s with hsame | hg
  · rwa [hsame]
  · exact hext.trans hg.extends

/-- A registry that extends another one answers for a name as the other does, if that one knows the name. -/
theorem Extends.lookup {r r' : Registry} (hext : r.Extends r') (h : r.Indexed) (h' : r'.Indexed) {mnemonic : String}
    {d : Descriptor} (hd : r.lookup mnemonic = .ok d) : r'.lookup mnemonic = .ok d := by
  obtain ⟨hmem, hname⟩ := h.lookup_eq_ok_iff.mp hd
  exact h'.lookup_eq_ok_iff.mpr ⟨hext.all d hmem, hname⟩

/-- A registry that extends another one answers for an opcode as the other does, if that one knows the opcode. -/
theorem Extends.byOpcode? {r r' : Registry} (hext : r.Extends r') (h : r.Indexed) (h' : r'.Indexed) {op : Opcode}
    {d : Descriptor} (hd : r.byOpcode? op = some d) : r'.byOpcode? op = some d := by
  obtain ⟨hmem, hop⟩ := h.byOpcode?_eq_some_iff.mp hd
  exact h'.byOpcode?_eq_some_iff.mpr ⟨hext.all d hmem, hop⟩

/-- A registered descriptor is found under its opcode, and under its mnemonic in any case of its letters. -/
theorem Indexed.found {r : Registry} (h : r.Indexed) {d : Descriptor} (hd : d ∈ r.all) :
    r.byOpcode? d.opcode = some d ∧ ∀ name, Text.fold name = d.mnemonic → r.lookup name = .ok d :=
  ⟨h.byOpcode?_eq_some_iff.mpr ⟨hd, rfl⟩, fun _ hname => h.lookup_eq_ok_iff.mpr ⟨hd, hname.symm⟩⟩

/-- What a step among others has done, if it has succeeded in its turn, is there after all of them: it has asked for a range,
which is granted, or it is for a descriptor, which is registered. -/
theorem exists_of_succeeded {ss before after : List Registration} {s : Registration} {r r' : Registry}
    (hsplit : ss = before ++ s :: after) (hs : (before.foldl attempt r).step s = .ok r') :
    (∃ g, s = .reserve g ∧ g ∈ (ss.foldl attempt r).space.reservations) ∨ ∃ d, s.Writes d ∧ d ∈ (ss.foldl attempt r).all := by
  have hext : r'.Extends (ss.foldl attempt r) := by
    rw [hsplit, List.foldl_append, List.foldl_cons, attempt_of_ok hs]
    exact extends_attempts r' after
  rcases step_eq_ok_iff.mp hs with ⟨g, space, rfl, hspace, rfl⟩ | ⟨d, hd, haccepts, rfl⟩
  · obtain ⟨-, -, -, -, rfl⟩ := (OpcodeSpace.reserve_eq_ok_iff _ _ _).mp hspace
    exact Or.inl ⟨g, rfl, hext.ranges g (List.mem_append_right _ (List.mem_singleton_self g))⟩
  · exact Or.inr ⟨d, Registration.descriptor?_eq_some_iff.mp hd, hext.all d ((mem_all_add haccepts.fresh).mpr (Or.inl rfl))⟩

/-- The registry after any steps, whichever of them succeed. A name finds a descriptor exactly when the descriptor's opcode finds
it and its mnemonic is the name in lower case, so mnemonics and opcodes correspond one to one. Every registered opcode fits its
segment and lies in exactly one granted range. The descriptors are listed in strictly increasing order of their opcodes, each
once, and are as many as the size says. A further step for a descriptor succeeds exactly when no registered one shares its name or
its opcode and a granted range holds the opcode. A step that has succeeded in its turn has asked for a range, and the range is
granted, or it is for a descriptor, and the descriptor is found under its opcode and under its mnemonic in any case of its letters;
and no other descriptors are registered. What is registered is found unchanged after any further steps. -/
theorem lookup_iff_byOpcode_of_attempts (steps : List Registration) :
    let r := steps.foldl attempt {}
    (∀ mnemonic d, r.lookup mnemonic = .ok d ↔ r.byOpcode? d.opcode = some d ∧ d.mnemonic = Text.fold mnemonic) ∧
      (∀ d ∈ r.all, ∀ d' ∈ r.all, (d.mnemonic = d'.mnemonic ↔ d = d') ∧ (d.opcode = d'.opcode ↔ d = d')) ∧
      (∀ op d, r.byOpcode? op = some d → d.opcode = op ∧ Text.fold d.mnemonic = d.mnemonic ∧ op.Fits ∧
        r.space.reservations.countP (·.Holds op) = 1) ∧
      (∀ d, d ∈ r.all ↔ r.byOpcode? d.opcode = some d) ∧
      r.all.Pairwise (fun d d' => d.opcode.Before d'.opcode) ∧ r.all.length = r.size ∧
      (∀ (s : Registration) d, s.Writes d → ((∃ r', r.step s = .ok r') ↔
        (∀ d' ∈ r.all, d'.mnemonic ≠ d.mnemonic ∧ d'.opcode ≠ d.opcode) ∧ ∃ g ∈ r.space.reservations, g.Holds d.opcode)) ∧
      (∀ before s after r', steps = before ++ s :: after → (before.foldl attempt {}).step s = .ok r' →
        (∃ g, s = .reserve g ∧ g ∈ r.space.reservations) ∨
          ∃ d, s.Writes d ∧ r.byOpcode? d.opcode = some d ∧ ∀ name, Text.fold name = d.mnemonic → r.lookup name = .ok d) ∧
      (∀ d ∈ r.all, ∃ before s after r', steps = before ++ s :: after ∧ (before.foldl attempt {}).step s = .ok r' ∧ s.Writes d) ∧
      ∀ later : List Registration, ∀ d ∈ r.all, (later.foldl attempt r).byOpcode? d.opcode = some d ∧
        ∀ mnemonic, Text.fold mnemonic = d.mnemonic → (later.foldl attempt r).lookup mnemonic = .ok d := by
  intro r
  have hr : r.Reachable := Reachable.empty.attempts steps
  have hi := hr.indexed
  have hall {d : Descriptor} : d ∈ r.all ↔ r.byOpcode? d.opcode = some d := by
    rw [hi.byOpcode?_eq_some_iff]
    exact (and_iff_left rfl).symm
  refine ⟨?_, ?_, ?_, fun _ => hall, hi.all_pairwise, hi.length_all, fun _ _ => hi.succeeds_iff, ?_, ?_, ?_⟩
  · intro mnemonic d
    rw [hi.lookup_eq_ok_iff, hall]
  · intro d hd d' hd'
    exact ⟨⟨hi.mnemonic_inj hd hd', congrArg _⟩, ⟨hi.opcode_inj hd hd', congrArg _⟩⟩
  · intro op d hd
    obtain ⟨hmem, rfl⟩ := hi.byOpcode?_eq_some_iff.mp hd
    have howned := hr.wellFormed.owned d hmem
    exact ⟨rfl, hi.folded hmem, hr.wellFormed.opcode_fits hmem, hr.wellFormed.space.countP_holds_eq_one howned⟩
  · intro before s after r' hsplit hs
    rcases exists_of_succeeded hsplit hs with hrange | ⟨d, hwrites, hd⟩
    · exact Or.inl hrange
    · exact Or.inr ⟨d, hwrites, hi.found hd⟩
  · intro d hd
    rcases mem_all_attempts_iff.mp hd with hnone | ⟨before, s, after, hsplit, ⟨r', hs⟩, hwrites⟩
    · cases hnone
    · exact ⟨before, s, after, r', hsplit, hs, hwrites⟩
  · intro later d hd
    exact (hr.attempts later).indexed.found ((extends_attempts r later).all d hd)

end Registry

end ScriptEngine
