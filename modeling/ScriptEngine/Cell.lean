import ScriptEngine.Number.Binary32
import ScriptEngine.Text.Numeral

/-!
# Cells

A cell is one slot of the operand stack. Integers and floats share the slot: the same 32 bits are read as a signed integer or as
a binary32 number, and the code that put a value there knows which one it is.
-/

namespace ScriptEngine

/-- One slot of the operand stack. -/
structure Cell where
  bits : UInt32
  deriving DecidableEq, Repr, Inhabited

namespace Cell

/-- The cell that both readings take for zero. -/
def zero : Cell := ⟨0⟩

/-- A cell that holds an integer. -/
def ofInt (n : Int32) : Cell := ⟨n.toUInt32⟩

/-- A cell that holds a float. -/
def ofFloat (x : Binary32) : Cell := ⟨x.bits⟩

/-- A cell that holds a truth value: one or zero. -/
def ofBool (b : Bool) : Cell := ⟨if b then 1 else 0⟩

/-- A cell that holds the low 32 bits of a natural number. -/
def ofNat (n : Nat) : Cell := ⟨UInt32.ofNat n⟩

/-- The cell read as a signed integer. -/
def int (c : Cell) : Int32 := c.bits.toInt32

/-- The cell read as a float. -/
def float (c : Cell) : Binary32 := ⟨c.bits⟩

/-- The cell read as a position in a list; a negative integer is no position. -/
def index? (c : Cell) : Option Nat :=
  if 0 ≤ c.int.toInt then some c.int.toInt.toNat else none

/-- How a cell is shown in diagnostics. -/
def text (c : Cell) : String := s!"Data(0x{Text.hexPadded 8 c.bits.toNat})"

end Cell

end ScriptEngine
