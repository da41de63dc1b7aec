import ScriptEngine.Number.Nearest
import ScriptEngine.Text.Case
import ScriptEngine.Text.Numeral

/-!
# Reading binary32 numbers from decimal texts

A number is written as an optional sign, then decimal digits with at most one point among or around them, then optionally `e`
and a signed exponent; at least one digit stands before the exponent. `inf`, `infinity` and `nan`, in any case, are numbers too.
The value is the binary32 number nearest to what is written.
-/

namespace ScriptEngine

/-- A decimal number as written: all digits of the mantissa as one natural number, how many there are, and the power of ten. -/
structure DecimalText where
  digits : List Char
  exponent : Int
  deriving DecidableEq, Repr

namespace DecimalText

/-- An exponent's digits. The sum stops growing once it has passed `2 ^ 16`, where it decides alone. -/
def magnitude (cs : List Char) : Nat :=
  cs.foldl (fun n c => if n < 0x10000 then 10 * n + (c.toNat - '0'.toNat) else n) 0

/-- The exponent part of a number, after the mantissa. -/
def exponent? : List Char → Option Int
  | [] => some 0
  | e :: cs =>
    if e = 'e' ∨ e = 'E' then
      let (negative, ds) :=
        match cs with
        | '-' :: ds => (true, ds)
        | '+' :: ds => (false, ds)
        | ds => (false, ds)
      if ds.isEmpty ∨ ¬ ds.all Char.isDigit then none
      else if negative then some (-(magnitude ds : Int)) else some (magnitude ds)
    else none

/-- A number without its sign. -/
def ofChars? (cs : List Char) : Option DecimalText :=
  let whole := cs.takeWhile Char.isDigit
  let rest := cs.dropWhile Char.isDigit
  let (fraction, tail) :=
    match rest with
    | '.' :: r => (r.takeWhile Char.isDigit, r.dropWhile Char.isDigit)
    | r => ([], r)
  if whole.isEmpty ∧ fraction.isEmpty then none
  else (exponent? tail).map fun e => ⟨whole ++ fraction, e - fraction.length⟩

/-- The nearest number. With `d` significant digits the value is at least `10 ^ (d - 1 + exponent)` and below
`10 ^ (d + exponent)`, so the exponents at which it must be infinite or zero are settled without writing out the power. -/
def toBinary32 (t : DecimalText) : Binary32 :=
  let significant := t.digits.dropWhile (· == '0')
  let mantissa := significant.foldl (fun n c => 10 * n + (c.toNat - '0'.toNat)) 0
  let top := (significant.length : Int) + t.exponent
  if mantissa = 0 ∨ top < -45 then .zero
  else if 39 < top then .infinity
  else if 0 ≤ t.exponent then .nearest (mantissa * 10 ^ t.exponent.toNat) 1
  else .nearest mantissa (10 ^ (-t.exponent).toNat)

end DecimalText

namespace Binary32

/-- A number without its sign, or the name of a value that has no digits. -/
def ofUnsigned? (cs : List Char) : Option Binary32 :=
  let name := cs.map Text.foldChar
  if name = "inf".toList ∨ name = "infinity".toList then some infinity
  else if name = "nan".toList then some nan
  else (DecimalText.ofChars? cs).map DecimalText.toBinary32

/-- The number that a text writes, if it writes one. -/
def ofText? : List Char → Option Binary32
  | '-' :: cs => (ofUnsigned? cs).map negate
  | '+' :: cs => ofUnsigned? cs
  | cs => ofUnsigned? cs

end Binary32

end ScriptEngine
