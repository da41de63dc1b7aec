import ScriptEngine.Text.Numeral
import ScriptEngine.Word.Opcode

/-!
# Faults

A fault ends one run of a script. The engine reports it together with the address of the word at which the run stopped.
-/

namespace ScriptEngine

/-- Why a word could not be executed. -/
inductive Fault where
  /-- The opcode has no handler. -/
  | unimplemented (opcode : Opcode)
  /-- The selector of the word is not assigned. -/
  | invalidWord (word : UInt32)
  /-- The run has executed as many words as it may. -/
  | stepLimit (limit : Nat)
  deriving DecidableEq, Repr

/-- A run that was ended by a fault. -/
structure Abort where
  pc : Nat
  fault : Fault
  deriving DecidableEq, Repr

namespace Fault

/-- The text of a fault. -/
def message : Fault → String
  | unimplemented opcode => s!"no handler installed for {opcode.text}"
  | invalidWord word => s!"invalid instruction word 0x{Text.hexPadded 8 word.toNat}"
  | stepLimit limit => s!"step limit of {limit} instructions exceeded"

end Fault

namespace Abort

/-- The text of an aborted run. -/
def message (a : Abort) : String := s!"script aborted at pc={a.pc}: {a.fault.message}"

end Abort

end ScriptEngine
