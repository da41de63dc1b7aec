import ScriptEngine.Host.Replay
import ScriptEngine.Proofs.Assembly.Code
import ScriptEngine.Proofs.Engine.Consistency
import ScriptEngine.Proofs.Engine.Runs

/-!
# Assembled scripts do not fault

A script that was assembled with the registry of an engine runs on that engine without a fault: it can only be stopped by the
limit. Every word of its code decodes to a registered opcode, and every registered opcode has a handler. Where the address goes,
and what a handler does to the machine, is of no importance, since the code is not changed by a run.
-/

namespace ScriptEngine.Engine

variable {σ : Type}

/-- A script of which every word has a meaning can only be stopped by the limit. -/
theorem fault_of_meaningful {e : Engine σ} {s : Script}
    (hs : ∀ word ∈ s.code.toList, ∃ act, e.dispatch.actionOf word = .ok act) {patience : Nat} {host : σ} {f : Finish σ}
    {abort : Abort} (hrun : e.run patience s host = some f) (hf : f.result = .error abort) :
    e.stepLimit ≠ 0 ∧ abort.fault = .stepLimit e.stepLimit := by
  obtain ⟨n, m, -, hstop, -⟩ := run_eq_some_iff.mp hrun
  cases hstop with
  | finished _ _ => cases hf
  | failed fault hstep _ =>
    obtain ⟨word, hdue, hact⟩ := step?_eq_error_iff.mp hstep
    obtain ⟨act, hok⟩ := hs word (mem_code_of_due? hdue)
    rw [hok] at hact
    cases hact
  | limited _ hne _ =>
    cases hf
    exact ⟨hne, rfl⟩

variable [Host σ]

/-- Every word of a script that was assembled with the registry of an engine has a meaning in that engine. -/
theorem actionOf_of_assemble {extensions : List (Extension σ)} {limit : Nat} {e : Engine σ}
    (he : build extensions limit = .ok e) {source : String} {s : Script}
    (hs : Assembly.assemble e.registry source = .ok s) :
    ∀ word ∈ s.code.toList, ∃ act, e.dispatch.actionOf word = .ok act := by
  intro word hword
  obtain ⟨d, hd, i, hdecode, hop⟩ := Assembly.registered_of_assemble (reachable_of_build he) hs word hword
  obtain ⟨handler, hhandler⟩ := handler_of_build he hd
  rw [← hop] at hhandler
  exact ⟨_, actionOf_eq_ok_iff.mpr ⟨i, handler, hdecode, hhandler, rfl⟩⟩

/-- A script that was assembled with the registry of an engine is stopped by nothing but the limit when it runs on that engine.
Under a limit the run comes to its end. -/
theorem assembled_run_stopped_only_by_limit {extensions : List (Extension σ)} {limit : Nat} {e : Engine σ}
    (he : build extensions limit = .ok e) {source : String} {s : Script}
    (hs : Assembly.assemble e.registry source = .ok s) (patience : Nat) (host : σ) :
    (limit ≠ 0 → ∃ f, e.run patience s host = some f) ∧
      ∀ f abort, e.run patience s host = some f → f.result = .error abort →
        limit ≠ 0 ∧ abort.fault = .stepLimit limit := by
  obtain ⟨-, -, -, rfl⟩ := build_eq_ok he
  refine ⟨run_isSome patience s host, ?_⟩
  intro f abort hrun hf
  exact fault_of_meaningful (actionOf_of_assemble he hs) hrun hf

/-- An extension with one instruction, which starts the script all over again. -/
def again : Extension Replay where
  name := "again"
  registrations := [.reserve ⟨"again", .five, 0x2000000, 1, .extension⟩, .instruction "Again" "" ⟨.five, 0x2000000⟩]
  handlers := [(⟨.five, 0x2000000⟩, .nullary fun _ m => m.goto 0)]

/-- A script that never comes to its end is stopped by the limit. -/
theorem again_run_stopped_by_limit :
    ∃ e, build [again] 3 = .ok e ∧ ∃ s, Assembly.assemble e.registry "pushint 7\nagain" = .ok s ∧
      ∃ f abort, e.run 0 s {} = some f ∧ f.result = .error abort ∧ abort.fault = .stepLimit 3 := by
  have hend : ((build [again] 3).toOption.bind fun e =>
      (Assembly.assemble e.registry "pushint 7\nagain").toOption.bind fun s =>
        (e.run 0 s {}).map (·.result)) = some (.error ⟨1, .stepLimit 3⟩) := by
    decide +kernel
  cases he : build [again] 3 with
  | error err =>
    rw [he] at hend
    cases hend
  | ok e =>
    rw [he] at hend
    cases hs : Assembly.assemble e.registry "pushint 7\nagain" with
    | error err =>
      simp only [Except.toOption, Option.bind_some, hs, Option.bind_none] at hend
      cases hend
    | ok s =>
      simp only [Except.toOption, Option.bind_some, hs] at hend
      obtain ⟨f, hrun, hf⟩ := Option.map_eq_some_iff.mp hend
      exact ⟨e, rfl, s, hs, f, _, hrun, hf, ((assembled_run_stopped_only_by_limit he hs 0 {}).2 f _ hrun hf).2⟩

end ScriptEngine.Engine
