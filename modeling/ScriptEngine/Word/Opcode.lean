import ScriptEngine.Word.Segment
import ScriptEngine.Text.Numeral

/-!
# Opcodes

An opcode is a segment together with a value in the segment's opcode field. The value is any natural number: whether it fits
the field is a question that registering and installing ask (`Opcode.Fits`). Opcodes are ordered by segment, then by value.
-/

namespace ScriptEngine

/-- One kind of instruction: its segment and its value in the segment's opcode field. -/
structure Opcode where
  segment : Segment
  code : Nat
  deriving DecidableEq, Repr, Inhabited

namespace Opcode

/-- The value lies within the opcode field of the segment. -/
def Fits (op : Opcode) : Prop := op.code < op.segment.opcodeLimit

instance (op : Opcode) : Decidable op.Fits := inferInstanceAs (Decidable (_ < _))

/-- The order of opcodes: by segment, and within a segment by value. -/
def Before (a b : Opcode) : Prop :=
  a.segment.number < b.segment.number ∨ a.segment.number = b.segment.number ∧ a.code < b.code

instance (a b : Opcode) : Decidable (a.Before b) := inferInstanceAs (Decidable (_ ∨ _))

/-- No opcode comes before itself. -/
theorem not_before_self (op : Opcode) : ¬ op.Before op := by
  unfold Before
  omega

/-- The region of its segment that an opcode lies in. -/
def region (op : Opcode) : Region := op.segment.regionOf op.code

/-- How messages and listings name an opcode. -/
def text (op : Opcode) : String := s!"{op.segment.name} opcode 0x{Text.hex op.code}"

end Opcode

end ScriptEngine
