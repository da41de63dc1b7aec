import ScriptEngine.Number.Power

/-!
# Numerals

The texts of natural numbers in base sixteen, padding to a width, and the reading of digit strings. Decimal texts are those of
`Nat.repr` and `Int.repr`.
-/

namespace ScriptEngine.Text

/-- A number in base sixteen, in lower case and without leading zeros. -/
def hex (n : Nat) : String := String.ofList (Nat.toDigits 16 n)

/-- A text brought to at least `width` characters by filling up on the left. -/
def padLeft (width : Nat) (fill : Char) (s : String) : String :=
  String.ofList (List.replicate (width - s.length) fill ++ s.toList)

/-- A text brought to at least `width` characters by filling up on the right. -/
def padRight (width : Nat) (fill : Char) (s : String) : String :=
  String.ofList (s.toList ++ List.replicate (width - s.length) fill)

/-- A number in base sixteen, with zeros in front up to `width` digits. -/
def hexPadded (width n : Nat) : String := padLeft width '0' (hex n)

/-- The value of a digit: decimal digits, and the letters `a` to `f` in either case. -/
def digit? (c : Char) : Option Nat :=
  if '0' ≤ c ∧ c ≤ '9' then some (c.toNat - '0'.toNat)
  else if 'a' ≤ c ∧ c ≤ 'f' then some (c.toNat - 'a'.toNat + 10)
  else if 'A' ≤ c ∧ c ≤ 'F' then some (c.toNat - 'A'.toNat + 10)
  else none

/-- The value of a digit of the given base, at most sixteen. -/
def digitIn? (base : Nat) (c : Char) : Option Nat :=
  match digit? c with
  | some d => if d < base then some d else none
  | none => none

/-- The number that a digit string writes after digits worth `acc` have been read; nothing if a character is no digit of the
base. -/
def digitsFrom? (base acc : Nat) : List Char → Option Nat
  | [] => some acc
  | c :: cs => do digitsFrom? base (acc * base + (← digitIn? base c)) cs

/-- The number that a digit string of at least one digit writes. -/
def digits? (base : Nat) (cs : List Char) : Option Nat :=
  if cs.isEmpty then none else digitsFrom? base 0 cs

end ScriptEngine.Text
