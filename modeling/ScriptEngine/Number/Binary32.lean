import ScriptEngine.Number.Power

/-!
# Single-precision numbers

A number in the IEEE 754 format binary32 is its bit pattern, and equality is equality of bit patterns: the two zeros differ, and
a NaN equals itself. Numbers are moved, stored and compared for identity as bits, so nothing is lost on the way; arithmetic and
numerical comparison go through `Float32`.
-/

namespace ScriptEngine

/-- A binary32 number, as its 32 bits. -/
structure Binary32 where
  bits : UInt32
  deriving DecidableEq, Repr, Inhabited

namespace Binary32

/-- Positive zero. -/
def zero : Binary32 := ⟨0⟩

/-- Positive infinity. -/
def infinity : Binary32 := ⟨0x7f800000⟩

/-- The quiet NaN with no payload and a positive sign. -/
def nan : Binary32 := ⟨0x7fc00000⟩

/-- The number as a value to calculate with. -/
def value (x : Binary32) : Float32 := Float32.ofBits x.bits

/-- The number of a calculated value. -/
def ofValue (v : Float32) : Binary32 := ⟨v.toBits⟩

/-- The same number with the opposite sign. Only the sign bit changes, also for zeros and NaNs. -/
def negate (x : Binary32) : Binary32 := ⟨x.bits ^^^ 0x80000000⟩

/-- The sum, rounded to nearest. -/
def add (x y : Binary32) : Binary32 := ofValue (x.value + y.value)

/-- The difference, rounded to nearest. -/
def sub (x y : Binary32) : Binary32 := ofValue (x.value - y.value)

/-- The product, rounded to nearest. -/
def mul (x y : Binary32) : Binary32 := ofValue (x.value * y.value)

/-- The quotient, rounded to nearest. -/
def div (x y : Binary32) : Binary32 := ofValue (x.value / y.value)

/-- One of the two zeros. -/
def isZero (x : Binary32) : Bool := x.bits &&& 0x7fffffff == 0

/-- Numerical equality: the zeros are equal, and a NaN equals nothing. -/
def equal (x y : Binary32) : Bool := x.value == y.value

/-- Numerical order; false when a NaN takes part. -/
def less (x y : Binary32) : Bool := decide (x.value < y.value)

/-- Numerical order or equality; false when a NaN takes part. -/
def lessOrEqual (x y : Binary32) : Bool := decide (x.value ≤ y.value)

/-- The nearest number to an integer. -/
def ofInt (n : Int32) : Binary32 := ofValue n.toFloat32

/-- The integer part. A number out of range gives the nearest end of the range, and a NaN gives zero. -/
def toInt (x : Binary32) : Int32 := x.value.toInt32

end Binary32

end ScriptEngine
