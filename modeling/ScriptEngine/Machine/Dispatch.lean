import ScriptEngine.Machine.Fault
import ScriptEngine.Machine.Handler
import ScriptEngine.Setup
import ScriptEngine.Word.Instruction
import ScriptEngine.Word.OpcodeTable

/-!
# Dispatch

The dispatch table says which handler an opcode has. Handlers are installed while an engine is put together; a word is executed
by decoding it and applying the handler of its opcode.
-/

namespace ScriptEngine

/-- The handlers of the installed opcodes. -/
structure Dispatch (σ : Type) where
  handlers : OpcodeTable (Handler σ) := {}
  deriving Inhabited

namespace Dispatch

variable {σ : Type}

/-- The handler of an opcode. -/
def handler? (d : Dispatch σ) (op : Opcode) : Option (Handler σ) := d.handlers.get? op

/-- An opcode has a handler. -/
def contains (d : Dispatch σ) (op : Opcode) : Bool := d.handlers.contains op

/-- The installed opcodes, in order. -/
def opcodes (d : Dispatch σ) : List Opcode := d.handlers.opcodes

/-- How many opcodes have a handler. -/
def size (d : Dispatch σ) : Nat := d.handlers.size

/-- Gives an opcode its handler: the opcode must fit its segment, the handler must take as many arguments as the words of the
segment carry, and the opcode must have no handler yet. The first of these that fails is the error. -/
def installInPlace (op : Opcode) (h : Handler σ) : Setup (Dispatch σ) Unit := do
  if ¬ op.Fits then throw (.outOfSegment op.segment op.code)
  if h.arity ≠ op.segment.arity then throw (.arityMismatch op h.arity)
  if (← get).contains op then throw (.alreadyInstalled op)
  modify fun d => ⟨d.handlers.insert op h⟩

/-- The table after installing a handler, unless it is refused. -/
def install (d : Dispatch σ) (op : Opcode) (h : Handler σ) : Except SetupError (Dispatch σ) := (installInPlace op h).outcome d

/-- The table after an attempt to install a handler, whether it is refused or not. -/
def attempt (d : Dispatch σ) (x : Opcode × Handler σ) : Dispatch σ := (installInPlace x.1 x.2).after d

/-- Installs handlers in order up to the first that is refused. Those installed before it stay. -/
def load (d : Dispatch σ) : List (Opcode × Handler σ) → Dispatch σ × Option SetupError
  | [] => (d, none)
  | (op, h) :: rest =>
    match (installInPlace op h).on d with
    | (.error e, d) => (d, some e)
    | (.ok _, d) => d.load rest

/-- What an instruction does: its handler, given its arguments. -/
def action (d : Dispatch σ) (i : Instruction) : Except Fault (Literals → Machine σ → Machine σ) :=
  match d.handler? i.opcode with
  | none => .error (.unimplemented i.opcode)
  | some h => .ok (h.apply i.arg0 i.arg1)

/-- What a word does. This is settled before the machine is touched, so a word that has no meaning leaves no trace. -/
def actionOf (d : Dispatch σ) (word : UInt32) : Except Fault (Literals → Machine σ → Machine σ) :=
  match Instruction.decode? word with
  | none => .error (.invalidWord word)
  | some i => d.action i

/-- Applies the handler of an instruction's opcode, once. -/
def perform (d : Dispatch σ) (i : Instruction) (l : Literals) (m : Machine σ) : Except Fault (Machine σ) :=
  (d.action i).map fun act => act l m

/-- Executes a word. -/
def execute (d : Dispatch σ) (word : UInt32) (l : Literals) (m : Machine σ) : Except Fault (Machine σ) :=
  (d.actionOf word).map fun act => act l m

end Dispatch

end ScriptEngine
