import ScriptEngine.Text.Numeral

/-!
# Decimal numerals

The decimal text of a number consists of digits and is read back as the number. Digits are read from the left, and what has been
read so far is the number that the digits read so far write.
-/

namespace ScriptEngine.Text

/-- A decimal digit has a value in base ten. -/
theorem digitIn?_ten_of_isDigit {c : Char} (h : c.isDigit = true) : digitIn? 10 c = some (c.toNat - '0'.toNat) := by
  obtain ⟨hlow, hhigh⟩ := Char.isDigit_iff_toNat.mp h
  have hdigit : digit? c = some (c.toNat - '0'.toNat) := if_pos ⟨hlow, hhigh⟩
  have hlow : 48 ≤ c.toNat := hlow
  have hhigh : c.toNat ≤ 57 := hhigh
  have hlt : c.toNat - '0'.toNat < 10 := by
    have hzero : '0'.toNat = 48 := rfl
    omega
  rw [digitIn?, hdigit]
  exact if_pos hlt

/-- Decimal digits are read one after the other. -/
theorem digitsFrom?_ten_of_isDigit {cs : List Char} (h : ∀ c ∈ cs, c.isDigit = true) (acc : Nat) :
    digitsFrom? 10 acc cs = some (Nat.ofDigitChars 10 cs acc) := by
  induction cs generalizing acc with
  | nil => rfl
  | cons c cs ih =>
    have hc := digitIn?_ten_of_isDigit (h c List.mem_cons_self)
    rw [digitsFrom?, hc, Nat.ofDigitChars_cons, Nat.mul_comm 10 acc]
    exact ih (fun c' hc' => h c' (List.mem_cons_of_mem c hc')) _

/-- The characters of a decimal text are digits. -/
theorem isDigit_of_mem_decimal {n : Nat} {c : Char} (h : c ∈ Nat.toDigits 10 n) : c.isDigit = true :=
  Nat.isDigit_of_mem_toDigits (by decide) (by decide) h

/-- The decimal text of a number is read back. -/
theorem digits?_decimal (n : Nat) : digits? 10 (Nat.toDigits 10 n) = some n := by
  have hne : (Nat.toDigits 10 n).isEmpty = false := List.isEmpty_eq_false_iff.mpr Nat.toDigits_ne_nil
  rw [digits?, hne, digitsFrom?_ten_of_isDigit fun _ => isDigit_of_mem_decimal, Nat.ofDigitChars_ten_toDigits]
  rfl

/-- The decimal text of a number that is not zero does not begin with a zero. -/
theorem head?_decimal_ne {n : Nat} (h : 0 < n) : (Nat.toDigits 10 n).head? ≠ some '0' := by
  induction n using Nat.strongRecOn with
  | ind n ih =>
    by_cases hlt : n < 10
    · rw [Nat.toDigits_of_lt_base hlt, List.head?_cons, ne_eq, Option.some.injEq, Nat.digitChar_eq_zero]
      omega
    · have hfirst := ih (n / 10) (by omega) (by omega)
      rw [Nat.toDigits_of_base_le (by decide) (Nat.le_of_not_lt hlt)]
      cases hdigits : Nat.toDigits 10 (n / 10) with
      | nil => exact absurd hdigits Nat.toDigits_ne_nil
      | cons d ds => rwa [hdigits] at hfirst

end ScriptEngine.Text
