import ScriptEngine.Host.Replay
import ScriptEngine.Proofs.Assembly.Tokens
import ScriptEngine.Proofs.Engine.Consistency
import ScriptEngine.Proofs.Registry.Correspondence
import ScriptEngine.Session.Standard

/-!
# Mnemonics of the standard engine

Steps register no names but their own, in lower case. The names of a registry can therefore be read off the steps that filled it.
Those of the standard engine consist of small letters, so that a source line can hold each of them as a word without quotes.
-/

namespace ScriptEngine

/-! ## Names of small letters -/

/-- A word of the letters from `a` to `z`, at least one. -/
def IsSmall (name : String) : Prop := name.toList ≠ [] ∧ ∀ c ∈ name.toList, 'a' ≤ c ∧ c ≤ 'z'

-- The letters of the name are looked at, and not all characters there are.
instance (name : String) : Decidable (IsSmall name) :=
  haveI := List.decidableBAll (fun c => 'a' ≤ c ∧ c ≤ 'z') name.toList
  inferInstanceAs (Decidable (_ ∧ _))

/-- A name of small letters is its own lower case. -/
theorem IsSmall.fold_eq {name : String} (h : IsSmall name) : Text.fold name = name := by
  have hchar : ∀ c ∈ name.toList, Text.foldChar c = id c := by
    intro c hc
    have hlow : 97 ≤ c.toNat := (h.2 c hc).1
    refine if_neg fun hupper => ?_
    have hhigh : c.toNat ≤ 90 := hupper.2
    omega
  rw [Text.fold, List.map_congr_left hchar, List.map_id, String.ofList_toList]

/-- A name of small letters is a word that a source line can hold without quotes. -/
theorem IsSmall.plainWord {name : String} (h : IsSmall name) : Assembly.PlainWord name.toList := by
  refine ⟨h.1, fun c hc => ?_⟩
  have hlow : 97 ≤ c.toNat := (h.2 c hc).1
  refine Assembly.plainChar_of_toNat (Nat.le_trans (by decide) hlow) (h.2 c hc).2 ?_
  rintro rfl
  exact absurd hlow (by decide)

namespace Registry

/-- Every mnemonic is a word that a source line can hold without quotes. -/
def PlainNames (r : Registry) : Prop := ∀ d ∈ r.all, Assembly.PlainWord d.mnemonic.toList

end Registry

/-! ## The standard engine -/

namespace Engine

/-- The steps that fill the registry of the standard engine. -/
def standardRegistrations : List Registration :=
  (Builtin.extension :: standardExtensions (σ := Replay)).flatMap (·.registrations)

/-- The names of the standard engine consist of small letters. -/
theorem isSmall_of_mem_standardRegistrations :
    ∀ name ∈ standardRegistrations.filterMap Registration.mnemonic?, IsSmall name := by
  decide +kernel

/-- No step of the standard engine fails. -/
theorem error_of_load_standardRegistrations : (Registry.load {} standardRegistrations).2 = none := by
  decide +kernel

/-- All steps of the standard engine succeed. -/
theorem exists_load_standardRegistrations : ∃ r, Registry.load {} standardRegistrations = (r, none) :=
  exists_eq_of_snd_eq error_of_load_standardRegistrations

/-- The registry that the steps of the standard engine lead to has mnemonics that a source line can hold without quotes. -/
theorem plainNames_of_load {r : Registry} (h : Registry.load {} standardRegistrations = (r, none)) : r.PlainNames := by
  intro d hd
  rcases (Registry.mem_all_of_load h).mp hd with hd | hd
  · cases hd
  · obtain ⟨s, hs, hd⟩ := List.mem_filterMap.mp hd
    obtain ⟨name, hstep, hname⟩ := Registration.mnemonic_of_descriptor? hd
    have hsmall := isSmall_of_mem_standardRegistrations name (List.mem_filterMap.mpr ⟨s, hs, hstep⟩)
    rw [hname, hsmall.fold_eq]
    exact hsmall.plainWord

variable {σ : Type} [Host σ]

/-- Extensions register the same instructions whichever host they are for. -/
theorem registrations_of_standard :
    (Builtin.extension :: standardExtensions (σ := σ)).flatMap (·.registrations) = standardRegistrations := by
  simp only [standardRegistrations, standardExtensions, List.flatMap_cons, List.flatMap_nil]
  rfl

/-- The registry of the standard engine is the same whichever host and limit the engine is for. -/
theorem exists_standard_registry : ∃ r : Registry, r.Reachable ∧ r.PlainNames ∧
    ∀ {σ : Type} [Host σ], registryOf (Builtin.extension :: standardExtensions (σ := σ)) = .ok r ∧
      ∀ (limit : Nat) (e : Engine σ), standard limit = .ok e → e.registry = r := by
  obtain ⟨r, hload⟩ := exists_load_standardRegistrations
  have hr := Registry.Reachable.empty.load standardRegistrations
  rw [hload] at hr
  refine ⟨r, hr, plainNames_of_load hload, ?_⟩
  intro σ _
  have hregistry : registryOf (Builtin.extension :: standardExtensions (σ := σ)) = .ok r := by
    rw [registryOf, registrations_of_standard, hload]
  refine ⟨hregistry, ?_⟩
  intro limit e he
  exact Except.ok.inj ((build_eq_ok he).1.symm.trans hregistry)

end Engine

end ScriptEngine
