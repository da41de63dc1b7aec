import ScriptEngine.Proofs.Engine.Conservative
import ScriptEngine.Proofs.Registry.Together

/-!
# The order of extensions

Extensions that register opcodes in ranges of their own only can be given in any order. Whether an engine is built depends on
which steps there are and not on their order: on whether the registration steps succeed together, on whether the handlers fit and
are for different opcodes, and on whether both are for the same opcodes. And since the tables of an engine are kept in the order
of opcodes, two engines built from the same extensions have the same tables, so that no lookup, no source and no script can tell
them apart.
-/

namespace ScriptEngine

/-- An extension registers opcodes only in ranges that it asked for earlier in its own registration pass. -/
def Extension.SelfContained {σ : Type} (x : Extension σ) : Prop := Registration.Owned [] x.registrations

instance {σ : Type} (x : Extension σ) : Decidable x.SelfContained := inferInstanceAs (Decidable (Registration.Owned _ _))

/-- The built-in instructions lie in ranges of their own. -/
theorem Builtin.selfContained_extension {σ : Type} [Host σ] : (Builtin.extension (σ := σ)).SelfContained := by
  have howned : Registration.Owned [] Builtin.registrations := by decide +kernel
  exact howned

/-! ## Assembling -/

namespace Assembly

variable {r r' : Registry}

/-- A line is assembled in the same way with a registry that gives the same answers. -/
theorem assembleLine_of_same_lookup (hsame : ∀ name, r.lookup name = r'.lookup name) (line : List Char) (s : Script) :
    assembleLine r line s = assembleLine r' line s := by
  simp only [assembleLine, hsame]

/-- A source is assembled in the same way with a registry that gives the same answers. -/
theorem assemble_of_same_lookup (hsame : ∀ name, r.lookup name = r'.lookup name) (source : String) :
    assemble r source = assemble r' source := by
  unfold assemble
  generalize Text.lines source.toList = lines
  generalize 1 = number
  generalize ({} : Script) = s
  induction lines generalizing number s with
  | nil => rfl
  | cons line lines ih => simp only [assembleLines, assembleLine_of_same_lookup hsame, ih]

end Assembly

namespace Engine

variable {σ : Type}

/-! ## Engines that cannot be told apart -/

/-- Two engines have the same tables and the same limit, and were granted the same ranges. The tables of names need only give the
same answers: they list their entries in the order of the registrations. -/
structure Alike (e e' : Engine σ) : Prop where
  names : ∀ name, e.registry.descriptors.get? name = e'.registry.descriptors.get? name
  mnemonics : e.registry.mnemonics = e'.registry.mnemonics
  ranges : e.registry.space.reservations.Perm e'.registry.space.reservations
  dispatch : e.dispatch = e'.dispatch
  stepLimit : e.stepLimit = e'.stepLimit

namespace Alike

variable {e e' : Engine σ}

/-- Engines that are alike find the same descriptor for a name. -/
theorem lookup (h : e.Alike e') (mnemonic : String) : e.registry.lookup mnemonic = e'.registry.lookup mnemonic := by
  simp only [Registry.lookup, Registry.find?, h.names]

/-- Engines that are alike find the same descriptor for an opcode. -/
theorem byOpcode? (h : e.Alike e') (op : Opcode) : e.registry.byOpcode? op = e'.registry.byOpcode? op := by
  simp only [Registry.byOpcode?, h.mnemonics, funext h.names]

/-- In engines that are alike an opcode has the same owner, whatever the order of the ranges is. -/
theorem owner? (h : e.Alike e') (hr : e.registry.Reachable) (hr' : e'.registry.Reachable) (op : Opcode) :
    e.registry.space.owner? op = e'.registry.space.owner? op := by
  refine Option.ext fun g => ?_
  rw [hr.wellFormed.space.owner?_eq_some_iff, hr'.wellFormed.space.owner?_eq_some_iff, h.ranges.mem_iff]

/-- A run does the same on engines that are alike. -/
theorem run (h : e.Alike e') (patience : Nat) (s : Script) (host : σ) : e.run patience s host = e'.run patience s host := by
  have hfrom : ∀ patience steps m, e.runFrom s patience steps m = e'.runFrom s patience steps m := by
    intro patience
    induction patience with
    | zero | succ patience ih =>
      intro steps m
      rw [runFrom.eq_def, runFrom.eq_def e', h.dispatch, h.stepLimit]
      cases m.due? s with
      | none => rfl
      | some word => cases haction : e'.dispatch.actionOf word <;> simp_all only
  simp only [Engine.run, h.stepLimit, hfrom]

end Alike

/-! ## Building in another order -/

section Permutations

variable {extensions extensions' : List (Extension σ)} (hperm : extensions.Perm extensions')

include hperm

/-- Registration steps of self-contained extensions that succeed together do so in any order of the extensions. -/
theorem together_of_perm (hself : ∀ x ∈ extensions, x.SelfContained)
    (h : Registry.Together {} (extensions.flatMap (·.registrations))) :
    Registry.Together {} (extensions'.flatMap (·.registrations)) := by
  have hsteps := hperm.flatMap_right (·.registrations)
  have hself' : ∀ x ∈ extensions', Registration.Owned [] x.registrations := fun x hx => hself x (hperm.mem_iff.mpr hx)
  refine ⟨?_, Registration.owned_flatMap hself', ?_, ?_⟩
  · intro s hs
    exact h.feasible s (hsteps.mem_iff.mpr hs)
  · have hranges := (hsteps.filterMap Registration.range?).append_left ({} : Registry).space.reservations
    exact (hranges.pairwise_iff fun hapart hover => hapart hover.symm).mp h.apart
  · have hdescriptors := (hsteps.filterMap Registration.descriptor?).append_left ({} : Registry).all
    exact (hdescriptors.pairwise_iff Descriptor.Distinct.symm).mp h.distinct

/-- The registry of self-contained extensions has the same descriptors, mnemonics and ranges in any order of the extensions. -/
theorem exists_registryOf_of_perm (hself : ∀ x ∈ extensions, x.SelfContained) {r : Registry} (h : registryOf extensions = .ok r) :
    ∃ r', registryOf extensions' = .ok r' ∧ (∀ name, r.descriptors.get? name = r'.descriptors.get? name) ∧
      r.mnemonics = r'.mnemonics ∧ r.space.reservations.Perm r'.space.reservations := by
  have hload := registryOf_eq_ok_iff.mp h
  have htogether := Registry.Reachable.empty.exists_load_iff.mp ⟨r, hload⟩
  obtain ⟨r', hload'⟩ := Registry.Reachable.empty.exists_load_iff.mpr (together_of_perm hperm hself htogether)
  have h' := registryOf_eq_ok_iff.mpr hload'
  have hi := (reachable_of_registryOf h).indexed
  have hi' := (reachable_of_registryOf h').indexed
  have hsteps := hperm.flatMap_right (·.registrations)
  have hall (d : Descriptor) : d ∈ r.all ↔ d ∈ r'.all := by
    rw [Registry.mem_all_of_load hload, Registry.mem_all_of_load hload', (hsteps.filterMap _).mem_iff]
  refine ⟨r', h', ?_, hi.ordered.ext hi'.ordered ?_, ?_⟩
  · intro name
    refine Option.ext fun d => ?_
    rw [hi.get?_eq_some_iff, hi'.get?_eq_some_iff, hall d]
  · intro op
    refine Option.ext fun name => ?_
    simp only [hi.mnemonic_eq_some_iff, hi'.mnemonic_eq_some_iff, hall]
  · rw [Registry.reservations_of_load .empty hload, Registry.reservations_of_load .empty hload']
    exact (hsteps.filterMap _).append_left _

/-- The dispatch table of some extensions is the same in any order of the extensions. -/
theorem dispatchOf_of_perm {d : Dispatch σ} (h : dispatchOf extensions = .ok d) : dispatchOf extensions' = .ok d := by
  have hload := dispatchOf_eq_ok_iff.mp h
  have hhandlers := hperm.flatMap_right (·.handlers)
  obtain ⟨hfits, hdistinct, hfree⟩ := Dispatch.exists_load_iff.mp ⟨d, hload⟩
  have hloaded : ∃ d', Dispatch.load {} (extensions'.flatMap (·.handlers)) = (d', none) := by
    refine Dispatch.exists_load_iff.mpr ⟨?_, ((hhandlers.map _).nodup_iff).mp hdistinct, ?_⟩
    · intro x hx
      exact hfits x (hhandlers.mem_iff.mpr hx)
    · intro x hx
      exact hfree x (hhandlers.mem_iff.mpr hx)
  obtain ⟨d', hload'⟩ := hloaded
  have h' := dispatchOf_eq_ok_iff.mpr hload'
  have hw : d.WellFormed := wellFormed_of_passes Dispatch.wellFormed_empty ((dispatchOf_eq_foldlM extensions).symm.trans h)
  have hw' : d'.WellFormed := wellFormed_of_passes Dispatch.wellFormed_empty ((dispatchOf_eq_foldlM extensions').symm.trans h')
  have hsame : d.handlers = d'.handlers := by
    refine hw.ordered.ext hw'.ordered fun op => Option.ext fun handler => ?_
    refine (Dispatch.handler?_of_load hload).trans (Iff.trans ?_ (Dispatch.handler?_of_load hload').symm)
    rw [hhandlers.mem_iff]
  cases d
  cases d'
  cases hsame
  exact h'

end Permutations

variable [Host σ] {extensions extensions' : List (Extension σ)} {limit : Nat} {e : Engine σ}

/-- If an engine is built from self-contained extensions, one is built from them in any order, and the two are alike. -/
theorem exists_build_of_perm (hself : ∀ x ∈ extensions, x.SelfContained) (hperm : extensions.Perm extensions')
    (h : build extensions limit = .ok e) : ∃ e', build extensions' limit = .ok e' ∧ e.Alike e' := by
  have hperm := hperm.cons Builtin.extension
  have hself : ∀ x ∈ Builtin.extension :: extensions, x.SelfContained :=
    List.forall_mem_cons.mpr ⟨Builtin.selfContained_extension, hself⟩
  obtain ⟨hregistry, hdispatch, hsame, hlimit⟩ := build_eq_ok_iff.mp h
  rw [← registryOf_eq_foldlM] at hregistry
  rw [← dispatchOf_eq_foldlM] at hdispatch
  obtain ⟨r', hregistry', hnames, hmnemonics, hranges⟩ := exists_registryOf_of_perm hperm hself hregistry
  have hdispatch' := dispatchOf_of_perm hperm hdispatch
  have halike : e.Alike ⟨r', e.dispatch, limit⟩ := ⟨hnames, hmnemonics, hranges, rfl, hlimit⟩
  refine ⟨_, ?_, halike⟩
  rw [registryOf_eq_foldlM] at hregistry'
  rw [dispatchOf_eq_foldlM] at hdispatch'
  refine build_eq_ok_iff.mpr ⟨hregistry', hdispatch', ?_, rfl⟩
  intro op
  rw [← hsame op, ← halike.byOpcode? op]

/-- The order of extensions that register opcodes in ranges of their own only does not matter. An engine is built from them in one
order exactly when one is built in any other, and the two engines then have the same descriptor for every name and for every
opcode and the same owner of every opcode; they assemble every source to the same result, and run every script on every host to
the same end. -/
theorem build_in_any_order (hself : ∀ x ∈ extensions, x.SelfContained) (hperm : extensions.Perm extensions') (limit : Nat) :
    ((∃ e, build extensions limit = .ok e) ↔ ∃ e', build extensions' limit = .ok e') ∧
      ∀ e e', build extensions limit = .ok e → build extensions' limit = .ok e' →
        (∀ mnemonic, e.registry.lookup mnemonic = e'.registry.lookup mnemonic) ∧
        (∀ op, e.registry.byOpcode? op = e'.registry.byOpcode? op) ∧
        (∀ op, e.registry.space.owner? op = e'.registry.space.owner? op) ∧
        (∀ source, Assembly.assemble e.registry source = Assembly.assemble e'.registry source) ∧
        ∀ patience s host, e.run patience s host = e'.run patience s host := by
  have hself' : ∀ x ∈ extensions', x.SelfContained := fun x hx => hself x (hperm.mem_iff.mpr hx)
  refine ⟨⟨?_, ?_⟩, ?_⟩
  · rintro ⟨e, he⟩
    obtain ⟨e', he', -⟩ := exists_build_of_perm hself hperm he
    exact ⟨e', he'⟩
  · rintro ⟨e', he'⟩
    obtain ⟨e, he, -⟩ := exists_build_of_perm hself' hperm.symm he'
    exact ⟨e, he⟩
  · intro e e' he he'
    obtain ⟨e₁, he₁, halike⟩ := exists_build_of_perm hself hperm he
    obtain rfl : e₁ = e' := Except.ok.inj (he₁.symm.trans he')
    refine ⟨halike.lookup, halike.byOpcode?, halike.owner? (reachable_of_build he) (reachable_of_build he'), ?_, halike.run⟩
    exact Assembly.assemble_of_same_lookup halike.lookup

/-- The bell and the clock can be given in either order. -/
theorem bell_and_clock_in_either_order :
    ∃ e e', build [bell, clock] 5 = .ok e ∧ build [clock, bell] 5 = .ok e' ∧
      (∀ source, Assembly.assemble e.registry source = Assembly.assemble e'.registry source) ∧
      ∀ patience s host, e.run patience s host = e'.run patience s host := by
  have hbuilt : (build [bell, clock] 5).toOption.isSome = true := by decide +kernel
  have hself : ∀ x ∈ [bell, clock], x.SelfContained := by
    simp only [List.forall_mem_cons]
    decide
  obtain ⟨e, he⟩ := Option.isSome_iff_exists.mp hbuilt
  have he := eq_ok_of_toOption he
  obtain ⟨hiff, hsame⟩ := build_in_any_order hself (List.Perm.swap clock bell []) 5
  obtain ⟨e', he'⟩ := hiff.mp ⟨e, he⟩
  obtain ⟨-, -, -, hassemble, hrun⟩ := hsame e e' he he'
  exact ⟨e, e', he, he', hassemble, hrun⟩

end Engine

end ScriptEngine
