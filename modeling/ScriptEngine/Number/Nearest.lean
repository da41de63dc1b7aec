import ScriptEngine.Number.Binary32

/-!
# The nearest binary32 number

Rounding of an exact non-negative ratio to the nearest binary32 number, a tie going to the even neighbour, by arithmetic on
natural numbers.
-/

namespace ScriptEngine

/-- The quotient rounded to the nearest natural number; a tie goes to the even one. -/
def roundedQuotient (num den : Nat) : Nat :=
  let q := num / den
  let twice := 2 * (num % den)
  if den < twice ∨ den = twice ∧ q % 2 = 1 then q + 1 else q

/-- The greatest integer `e` with `2 ^ e ≤ num / den`, for positive arguments. -/
def binaryExponent (num den : Nat) : Int :=
  let e := (Nat.log2 num : Int) - Nat.log2 den
  let fits := if 0 ≤ e then den * 2 ^ e.toNat ≤ num else den ≤ num * 2 ^ (-e).toNat
  if fits then e else e - 1

namespace Binary32

/-- The number nearest to `num / den`. The last binary place is the one that leaves 24 significant bits, but none below
`2 ^ -149`; counted in units of that place, the bit pattern of a finite number is the number of units plus `2 ^ 23` for each
place above the lowest. A carry out of the 24 bits lands in the next exponent, and what reaches the pattern of infinity is
infinity. -/
def nearest (num den : Nat) : Binary32 :=
  if num = 0 then zero
  else
    let place := max (binaryExponent num den - 23) (-149)
    let units :=
      if 0 ≤ place then roundedQuotient num (den * 2 ^ place.toNat)
      else roundedQuotient (num * 2 ^ (-place).toNat) den
    let pattern := (place + 149).toNat * 2 ^ 23 + units
    if pattern < infinity.bits.toNat then ⟨UInt32.ofNat pattern⟩ else infinity

end Binary32

end ScriptEngine
