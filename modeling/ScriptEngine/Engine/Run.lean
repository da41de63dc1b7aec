import ScriptEngine.Engine.Basic
import ScriptEngine.Script.Basic

/-!
# Running a script

A run executes the word at the current address until the script returns or the address is outside the code. A fault aborts the
run: what the script did to its host before the failing word stays done, and the failing word itself leaves no trace.

Under a step limit a run always comes to its end. Without one it may go on for ever, so a caller says for how many words it is
prepared to wait.
-/

namespace ScriptEngine

/-- How a run ended without a fault: how many words were executed, and whether the script returned or ran past its code. -/
structure Outcome where
  steps : Nat
  halted : Bool
  deriving DecidableEq, Repr

/-- The end of a run: an outcome or a fault, and the host. -/
structure Finish (σ : Type) where
  result : Except Abort Outcome
  host : σ

namespace Machine

variable {σ : Type}

/-- The word that is due: the one at the current address, unless the script has returned or the address is outside the code. -/
def due? (m : Machine σ) (s : Script) : Option UInt32 := if m.halted then none else s.code[m.pc]?

/-- The state in which the word that is due is executed: the address has moved past it. -/
def next (m : Machine σ) : Machine σ := { m with pc := m.pc + 1 }

end Machine

namespace Engine

variable {σ : Type}

/-- One step without regard to a limit: the address moves past the word that is due, and the word is executed. There is no step
if no word is due. -/
def step? (e : Engine σ) (s : Script) (m : Machine σ) : Option (Except Fault (Machine σ)) :=
  (m.due? s).map fun word => e.dispatch.execute word s.literals m.next

/-- A run after `steps` words, for at most `patience` more. The limit is checked when another word is due. -/
def runFrom (e : Engine σ) (s : Script) (patience steps : Nat) (m : Machine σ) : Option (Finish σ) :=
  match m.due? s with
  | none => some ⟨.ok ⟨steps, m.halted⟩, m.host⟩
  | some word =>
    if e.stepLimit ≠ 0 ∧ e.stepLimit ≤ steps then some ⟨.error ⟨m.pc, .stepLimit e.stepLimit⟩, m.host⟩
    else
      match e.dispatch.actionOf word, patience with
      | .error fault, _ => some ⟨.error ⟨m.pc, fault⟩, m.host⟩
      | .ok _, 0 => none
      | .ok act, patience + 1 => e.runFrom s patience (steps + 1) (act s.literals m.next)

/-- A run of a script on a host. Under a step limit the limit itself bounds the run; otherwise there is no result if the script
goes on for more than `patience` words. -/
def run (e : Engine σ) (patience : Nat) (s : Script) (host : σ) : Option (Finish σ) :=
  e.runFrom s (if e.stepLimit = 0 then patience else e.stepLimit) 0 (.start host)

end Engine

end ScriptEngine
