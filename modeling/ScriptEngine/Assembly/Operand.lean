import ScriptEngine.Number.DecimalText
import ScriptEngine.Script.Literals

/-!
# Operands

An operand is written in one of four ways: an integer stands for itself; a text between double quotes, a float after `#` and an
integer after `@` stand for a literal, and the operand's value is the position of that literal in its pool.

An integer is written in decimal or, after `0x`, in hexadecimal digits, with at most one minus sign in front and a magnitude
below `2 ^ 63`.
-/

namespace ScriptEngine.Assembly

/-- An operand as written. -/
inductive Operand where
  | number (n : Int)
  | text (s : String)
  | float (x : Binary32)
  | int (n : Int32)
  deriving DecidableEq, Repr

/-- The digits of an integer, in the base that they are written in. -/
def magnitude? : List Char → Option Nat
  | '0' :: 'x' :: cs => Text.digits? 16 cs
  | '0' :: 'X' :: cs => Text.digits? 16 cs
  | cs => Text.digits? 10 cs

/-- The integer that a text writes. -/
def integer? (cs : List Char) : Option Int :=
  let (negative, digits) :=
    match cs with
    | '-' :: ds => (true, ds)
    | ds => (false, ds)
  match magnitude? digits with
  | some n => if n < 2 ^ 63 then some (if negative then -(n : Int) else n) else none
  | none => none

/-- The integer literal that a text writes: an integer of 32 bits with sign. -/
def int32? (cs : List Char) : Option Int32 :=
  match integer? cs with
  | some n => if -2 ^ 31 ≤ n ∧ n < 2 ^ 31 then some (Int32.ofInt n) else none
  | none => none

namespace Operand

/-- The operand that a token writes. -/
def ofToken? : List Char → Option Operand
  | '"' :: cs => if cs.getLast? = some '"' then some (.text (String.ofList cs.dropLast)) else none
  | '#' :: cs => (Binary32.ofText? cs).map .float
  | '@' :: cs => (int32? cs).map .int
  | cs => (integer? cs).map .number

/-- The value of an operand, and the literals with the operand's literal among them. -/
def resolve (l : Literals) : Operand → Int × Literals
  | number n => (n, l)
  | text s => let (i, l) := l.addString s; (i, l)
  | float x => let (i, l) := l.addFloat x; (i, l)
  | int n => let (i, l) := l.addInt n; (i, l)

end Operand

end ScriptEngine.Assembly
