import ScriptEngine.Cell

/-!
# Arithmetic on cells

The four operations and the six comparisons, on integers and on floats. Integer arithmetic wraps around at 32 bits; division
truncates toward zero, and division by zero gives zero, for floats as for integers. A comparison gives one or zero.
-/

namespace ScriptEngine

/-- The operations with two operands. -/
inductive Arith where
  | add | sub | mul | div
  deriving DecidableEq, Repr, Inhabited

/-- The comparisons. -/
inductive Comparison where
  | equal | nonEqual | less | lessOrEqual | greater | greaterOrEqual
  deriving DecidableEq, Repr, Inhabited

namespace Arith

/-- The operations in the order of their opcodes. -/
def all : List Arith := [add, sub, mul, div]

/-- The part of a mnemonic that names the operation. -/
def name : Arith → String
  | add => "add"
  | sub => "sub"
  | mul => "mul"
  | div => "div"

/-- An operation on integers. -/
def onInts (op : Arith) (l r : Int32) : Int32 :=
  match op with
  | add => l + r
  | sub => l - r
  | mul => l * r
  | div => if r = 0 then 0 else l / r

/-- An operation on floats. Either zero counts as a divisor of zero. -/
def onFloats (op : Arith) (l r : Binary32) : Binary32 :=
  match op with
  | add => l.add r
  | sub => l.sub r
  | mul => l.mul r
  | div => if r.isZero then .zero else l.div r

end Arith

namespace Comparison

/-- The comparisons in the order of their opcodes. -/
def all : List Comparison := [equal, nonEqual, less, lessOrEqual, greater, greaterOrEqual]

/-- The part of a mnemonic that names the comparison. -/
def name : Comparison → String
  | equal => "equal"
  | nonEqual => "nonequal"
  | less => "less"
  | lessOrEqual => "lessorequal"
  | greater => "greater"
  | greaterOrEqual => "greaterorequal"

/-- A comparison of integers. -/
def onInts (c : Comparison) (l r : Int32) : Bool :=
  match c with
  | equal => l == r
  | nonEqual => l != r
  | less => decide (l < r)
  | lessOrEqual => decide (l ≤ r)
  | greater => decide (r < l)
  | greaterOrEqual => decide (r ≤ l)

/-- A comparison of floats. A NaN is unequal to everything, itself included, and every other comparison with it is false. -/
def onFloats (c : Comparison) (l r : Binary32) : Bool :=
  match c with
  | equal => l.equal r
  | nonEqual => !l.equal r
  | less => l.less r
  | lessOrEqual => l.lessOrEqual r
  | greater => r.less l
  | greaterOrEqual => r.lessOrEqual l

end Comparison

end ScriptEngine
