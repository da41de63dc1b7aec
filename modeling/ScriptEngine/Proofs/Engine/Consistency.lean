import ScriptEngine.Engine.Basic
import ScriptEngine.Proofs.Registry.Growth

/-!
# Engines that could be built

What is known of an engine because it was built: its registry was reached by steps from the empty one, and every instruction of
the registry has a handler.
-/

namespace ScriptEngine.Engine

variable {σ : Type}

/-- A registry is made of some extensions when all their steps succeed. -/
theorem registryOf_eq_ok_iff {extensions : List (Extension σ)} {r : Registry} :
    registryOf extensions = .ok r ↔ Registry.load {} (extensions.flatMap (·.registrations)) = (r, none) := by
  unfold registryOf
  split <;>
  · rename_i hload
    simp [hload]

/-- A dispatch table is made of some extensions when all their handlers can be installed. -/
theorem dispatchOf_eq_ok_iff {extensions : List (Extension σ)} {d : Dispatch σ} :
    dispatchOf extensions = .ok d ↔ Dispatch.load {} (extensions.flatMap (·.handlers)) = (d, none) := by
  unfold dispatchOf
  split <;>
  · rename_i hload
    simp [hload]

/-- The registry of some extensions is reached by their steps. -/
theorem reachable_of_registryOf {extensions : List (Extension σ)} {r : Registry} (h : registryOf extensions = .ok r) :
    r.Reachable := by
  have hr := Registry.Reachable.empty.load (extensions.flatMap (·.registrations))
  rwa [registryOf_eq_ok_iff.mp h] at hr

/-- A registry and a dispatch table that belong together have a handler for every registered instruction. -/
theorem contains_of_mismatch? {r : Registry} {d : Dispatch σ} (h : mismatch? r d = none) :
    ∀ i ∈ r.all, d.contains i.opcode = true := by
  unfold mismatch? at h
  split at h
  · cases h
  rename_i hfind
  intro i hi
  have hcontains := List.find?_eq_none.mp hfind i hi
  rwa [Bool.not_eq_true, Bool.not_eq_false'] at hcontains

variable [Host σ] {extensions : List (Extension σ)} {limit : Nat} {e : Engine σ}

/-- The parts of an engine that was built: the registry and the dispatch table of all its extensions, which belong together. -/
theorem build_eq_ok (h : build extensions limit = .ok e) :
    registryOf (Builtin.extension :: extensions) = .ok e.registry ∧
      dispatchOf (Builtin.extension :: extensions) = .ok e.dispatch ∧
      mismatch? e.registry e.dispatch = none ∧ e.stepLimit = limit := by
  obtain ⟨r, hregistry, h⟩ := bind_eq_ok_iff.mp h
  obtain ⟨d, hdispatch, h⟩ := bind_eq_ok_iff.mp h
  split at h
  · cases h
  rename_i hmismatch
  cases h
  exact ⟨hregistry, hdispatch, hmismatch, rfl⟩

/-- The limit of an engine is the one that it was built with. -/
theorem stepLimit_of_build (h : build extensions limit = .ok e) : e.stepLimit = limit := (build_eq_ok h).2.2.2

/-- The registry of an engine that was built can be reached. -/
theorem reachable_of_build (h : build extensions limit = .ok e) : e.registry.Reachable :=
  reachable_of_registryOf (build_eq_ok h).1

/-- In an engine that was built every registered opcode has a handler. -/
theorem handler_of_build (h : build extensions limit = .ok e) {d : Descriptor} (hd : d ∈ e.registry.all) :
    ∃ handler, e.dispatch.handler? d.opcode = some handler :=
  Option.isSome_iff_exists.mp (contains_of_mismatch? (build_eq_ok h).2.2.1 d hd)

end ScriptEngine.Engine
