import ScriptEngine.Host.Replay
import ScriptEngine.Proofs.Assembly.Code
import ScriptEngine.Proofs.Assembly.Grammar
import ScriptEngine.Proofs.Engine.Building
import ScriptEngine.Proofs.Engine.Runs

/-!
# Adding extensions is conservative

An engine with further extensions knows all that the engine without them knows, and does the same with it: its passes go on where
the passes of the other one ended, and no step takes away what an earlier one has put there. A source that assembles without the
further extensions therefore assembles to the same script with them, and a run comes to the same end unless it ends at an opcode
that had no handler.
-/

namespace ScriptEngine

/-! ## Assembling -/

namespace Assembly

variable {r r' : Registry}

/-- A line that assembles does so in the same way with a registry that knows more names. -/
theorem assembleLine_of_knows_more (hmore : ∀ name d, r.lookup name = .ok d → r'.lookup name = .ok d)
    {line : List Char} {s s' : Script} (h : assembleLine r line s = .ok s') : assembleLine r' line s = .ok s' := by
  cases htokens : tokens line with
  | error unfinished =>
    rw [assembleLine, htokens] at h
    cases h
  | ok statement =>
    cases statement with
    | nil =>
      rw [assembleLine, htokens] at h ⊢
      exact h
    | cons name operands => exact assembleLine_of_lookup htokens htokens (hmore _) h

/-- Lines that assemble do so in the same way with a registry that knows more names. -/
theorem assembleLines_of_knows_more (hmore : ∀ name d, r.lookup name = .ok d → r'.lookup name = .ok d)
    {lines : List (List Char)} {number : Nat} {s s' : Script} (h : assembleLines r number s lines = .ok s') :
    assembleLines r' number s lines = .ok s' := by
  refine assembleLines_of_forall₂ (R := Eq) ?_ (List.forall₂_refl lines) h
  rintro line _ s s' rfl
  exact assembleLine_of_knows_more hmore

end Assembly

/-! ## Running -/

/-- A word that does not lack its handler means the same with more handlers. -/
theorem Dispatch.Extends.actionOf {σ : Type} {d d' : Dispatch σ} (hext : d.Extends d') {word : UInt32}
    (h : ∀ op, d.actionOf word ≠ .error (.unimplemented op)) : d'.actionOf word = d.actionOf word := by
  unfold Dispatch.actionOf Dispatch.action at h ⊢
  cases hdecode : Instruction.decode? word with
  | none => rfl
  | some i =>
    simp only [hdecode] at h ⊢
    cases hhandler : d.handler? i.opcode with
    | none =>
      rw [hhandler] at h
      exact absurd rfl (h i.opcode)
    | some handler => rw [hext i.opcode handler hhandler]

namespace Engine

section Runs

variable {σ : Type} {e e' : Engine σ} {s : Script} {m m' : Machine σ}

/-- A step that does not lack its handler is the same with more handlers. -/
theorem step?_of_extends (hext : e.dispatch.Extends e'.dispatch)
    (h : ∀ op, e.step? s m ≠ some (.error (.unimplemented op))) : e'.step? s m = e.step? s m := by
  unfold step? at h ⊢
  cases hdue : m.due? s with
  | none => rfl
  | some word =>
    have hmeant : ∀ op, e.dispatch.actionOf word ≠ .error (.unimplemented op) := by
      intro op hlacks
      apply h op
      rw [hdue, Option.map_some, Dispatch.execute, hlacks]
      rfl
    rw [Option.map_some, Option.map_some, Dispatch.execute, hext.actionOf hmeant, ← Dispatch.execute]

/-- Steps that can be taken lead to the same state with more handlers. -/
theorem after?_of_extends (hext : e.dispatch.Extends e'.dispatch) {n : Nat} (h : e.after? s n m = some m') :
    e'.after? s n m = some m' := by
  induction n generalizing m with
  | zero => exact h
  | succ n ih =>
    obtain ⟨m₁, hstep, h⟩ := after?_succ_eq_some_iff.mp h
    have hsame : e'.step? s m = e.step? s m := by
      apply step?_of_extends hext
      intro op hlacks
      rw [hstep] at hlacks
      cases hlacks
    exact after?_succ_eq_some_iff.mpr ⟨m₁, hsame.trans hstep, ih h⟩

/-- A run that stops does so in the same way with more handlers, unless it stops at an opcode that had none. -/
theorem Stops.of_extends (hext : e.dispatch.Extends e'.dispatch) (hlimit : e'.stepLimit = e.stepLimit) {n : Nat}
    {f : Finish σ} (h : e.Stops s n m f) (hf : ∀ pc op, f.result ≠ .error ⟨pc, .unimplemented op⟩) :
    e'.Stops s n m f := by
  cases h with
  | finished hdue hn => exact .finished hdue (hlimit ▸ hn)
  | failed fault hstep hn =>
    have hsame : e'.step? s m = e.step? s m := by
      apply step?_of_extends hext
      intro op hlacks
      rw [hstep] at hlacks
      cases hlacks
      exact hf m.pc op rfl
    exact .failed fault (hsame.trans hstep) (hlimit ▸ hn)
  | limited hdue hne hn =>
    rw [← hlimit] at hne hn ⊢
    exact .limited hdue hne hn

/-- A run comes to the same end with more handlers, unless it ends at an opcode that had none. -/
theorem run_of_extends (hext : e.dispatch.Extends e'.dispatch) (hlimit : e'.stepLimit = e.stepLimit) {patience : Nat}
    {host : σ} {f : Finish σ} (h : e.run patience s host = some f)
    (hf : ∀ pc op, f.result ≠ .error ⟨pc, .unimplemented op⟩) : e'.run patience s host = some f := by
  obtain ⟨n, m, hafter, hstop, hn⟩ := run_eq_some_iff.mp h
  refine run_eq_some_iff.mpr ⟨n, m, after?_of_extends hext hafter, hstop.of_extends hext hlimit hf, ?_⟩
  rwa [hlimit]

end Runs

/-! ## Building -/

section Building

variable {σ : Type} {extensions more : List (Extension σ)}

/-- Registration passes lose nothing that is registered. -/
theorem extends_of_registrationPasses {r r' : Registry} (h : extensions.foldlM registrationPass r = .ok r') :
    r.Extends r' :=
  registrationPasses_keep (fun _ _ _ hr hstep => hr.trans (Registry.growth_of_step hstep).extends)
    (Registry.Extends.refl r) h

/-- Installation passes displace no handler. -/
theorem extends_of_installationPasses {d d' : Dispatch σ} (h : extensions.foldlM installationPass d = .ok d') :
    d.Extends d' :=
  installationPasses_keep (fun _ _ _ _ hd hinstall => hd.trans (Dispatch.extends_of_install hinstall))
    (Dispatch.Extends.refl d) h

variable [Host σ] {limit : Nat} {e e' : Engine σ}

/-- An engine with further extensions keeps the instructions and the handlers of the engine without them. -/
theorem extends_of_build_append (he : build extensions limit = .ok e) (he' : build (extensions ++ more) limit = .ok e') :
    e.registry.Extends e'.registry ∧ e.dispatch.Extends e'.dispatch := by
  obtain ⟨hr, hd, -, -⟩ := build_eq_ok_iff.mp he
  obtain ⟨hr', hd', -, -⟩ := build_eq_ok_iff.mp he'
  rw [← List.cons_append, List.foldlM_append, hr] at hr'
  rw [← List.cons_append, List.foldlM_append, hd] at hd'
  exact ⟨extends_of_registrationPasses hr', extends_of_installationPasses hd'⟩

/-- Further extensions change nothing that was there before: every name and every opcode keeps its descriptor, every opcode keeps
its handler, every source that assembles still assembles to the same script, and every run comes to the same end with the same
host, unless it ended at an opcode that had no handler. -/
theorem build_append_conservative (he : build extensions limit = .ok e)
    (he' : build (extensions ++ more) limit = .ok e') :
    (∀ mnemonic d, e.registry.lookup mnemonic = .ok d → e'.registry.lookup mnemonic = .ok d) ∧
      (∀ op d, e.registry.byOpcode? op = some d → e'.registry.byOpcode? op = some d) ∧
      (∀ op h, e.dispatch.handler? op = some h → e'.dispatch.handler? op = some h) ∧
      (∀ source s, Assembly.assemble e.registry source = .ok s → Assembly.assemble e'.registry source = .ok s) ∧
      ∀ patience s host f, e.run patience s host = some f →
        (∀ pc op, f.result ≠ .error ⟨pc, .unimplemented op⟩) → e'.run patience s host = some f := by
  obtain ⟨hregistry, hdispatch⟩ := extends_of_build_append he he'
  have hi := (reachable_of_build he).indexed
  have hi' := (reachable_of_build he').indexed
  have hlookup : ∀ mnemonic d, e.registry.lookup mnemonic = .ok d → e'.registry.lookup mnemonic = .ok d :=
    fun _ _ => hregistry.lookup hi hi'
  have hlimit : e'.stepLimit = e.stepLimit := by
    rw [stepLimit_of_build he, stepLimit_of_build he']
  refine ⟨hlookup, fun _ _ => hregistry.byOpcode? hi hi', hdispatch, ?_, ?_⟩
  · intro source s hs
    exact Assembly.assembleLines_of_knows_more hlookup hs
  · intro patience s host f hrun hf
    exact run_of_extends hdispatch hlimit hrun hf

end Building

/-- An extension with one instruction, which takes no argument. -/
def bell : Extension Replay where
  name := "bell"
  registrations := [.reserve ⟨"bell", .five, 0x2000000, 1, .extension⟩, .instruction "Ring" "" ⟨.five, 0x2000000⟩]
  handlers := [(⟨.five, 0x2000000⟩, .nullary fun _ m => m.pushInt 1)]

/-- An extension with one function, which takes two arguments. -/
def clock : Extension Replay where
  name := "clock"
  registrations := [.reserve ⟨"clock", .one, 4, 2, .core⟩, .function "Tick" 's' "l/x" ⟨.one, 5⟩]
  handlers := [(⟨.one, 5⟩, .binary fun hours minutes _ m => (m.push (.ofNat hours)).push (.ofNat minutes))]

/-- A script that rings the bell is assembled and run with the clock added as it is without. -/
theorem bell_rings_beside_clock :
    ∃ e e', build [bell] 5 = .ok e ∧ build ([bell] ++ [clock]) 5 = .ok e' ∧
      ∃ s f, Assembly.assemble e.registry "ring ; once\nreturn" = .ok s ∧ e.run 0 s {} = some f ∧
        f.result = .ok ⟨2, true⟩ ∧ Assembly.assemble e'.registry "ring ; once\nreturn" = .ok s ∧
        e'.run 0 s {} = some f := by
  have hend : ((build [bell] 5).toOption.bind fun e =>
      (Assembly.assemble e.registry "ring ; once\nreturn").toOption.bind fun s =>
        (e.run 0 s {}).map (·.result)) = some (.ok ⟨2, true⟩) := by
    decide +kernel
  have hmore : (build ([bell] ++ [clock]) 5).toOption.isSome = true := by decide +kernel
  obtain ⟨e, he, hend⟩ := Option.bind_eq_some_iff.mp hend
  obtain ⟨s, hs, hend⟩ := Option.bind_eq_some_iff.mp hend
  obtain ⟨f, hrun, hf⟩ := Option.map_eq_some_iff.mp hend
  obtain ⟨e', he'⟩ := Option.isSome_iff_exists.mp hmore
  have he := eq_ok_of_toOption he
  have he' := eq_ok_of_toOption he'
  have hs := eq_ok_of_toOption hs
  obtain ⟨-, -, -, hassemble, hkeeps⟩ := build_append_conservative he he'
  have hno : ∀ pc op, f.result ≠ .error ⟨pc, .unimplemented op⟩ := by
    intro pc op
    rw [hf]
    exact nofun
  exact ⟨e, e', he, he', s, f, hs, hrun, hf, hassemble _ s hs, hkeeps 0 s {} f hrun hno⟩

end Engine

end ScriptEngine
