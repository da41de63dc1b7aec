import Mathlib.Data.Nat.Digits.Defs
import ScriptEngine.Text.Numeral

/-!
# Digits

A digit of a base has a value below the base. Up to base sixteen it is written as a decimal digit or as one of the letters `a` to
`f`, and a letter may be a capital one. These are the characters that are read as digits, and digits in a row are read as the number
that they write by position (`digits?_eq_some_iff`).
-/

namespace ScriptEngine.Text

/-- A digit of a base, and whether it is written as a capital if it is a letter. -/
structure Digit (base : Nat) where
  value : Fin base
  capital : Bool := false

namespace Digit

variable {base : Nat}

/-- The character of a digit. -/
def char (d : Digit base) : Char := if d.capital then d.value.val.digitChar.toUpper else d.value.val.digitChar

/-- The number that digits write: the last one counts ones, and each other one counts `base` times as much as the next. -/
def number (ds : List (Digit base)) : Nat := Nat.ofDigits base (ds.map fun d => d.value.val).reverse

/-- Zeros in front do not change the number. -/
theorem number_replicate_append {zero : Digit base} (h : zero.value.val = 0) (k : Nat) (ds : List (Digit base)) :
    number (List.replicate k zero ++ ds) = number ds := by
  rw [number, List.map_append, List.map_replicate, h, List.reverse_append, List.reverse_replicate,
    Nat.ofDigits_append_replicate_zero, number]

end Digit

/-! ## Characters -/

/-- The character of a digit is read as its value. -/
theorem digit?_char (d : Digit 16) : digit? d.char = some d.value.val := by
  obtain ⟨⟨v, hv⟩, capital⟩ := d
  have hall : ∀ v < 16, digit? v.digitChar.toUpper = some v ∧ digit? v.digitChar = some v := by decide
  cases capital with
  | true => exact (hall v hv).1
  | false => exact (hall v hv).2

/-- The character of a digit is an ASCII one. -/
theorem Digit.char_ascii {base : Nat} (hbase : base ≤ 16) (d : Digit base) : d.char.toNat < 128 := by
  obtain ⟨⟨v, hv⟩, capital⟩ := d
  have hall : ∀ v < 16, v.digitChar.toUpper.toNat < 128 ∧ v.digitChar.toNat < 128 := by decide
  cases capital with
  | true => exact (hall v (Nat.lt_of_lt_of_le hv hbase)).1
  | false => exact (hall v (Nat.lt_of_lt_of_le hv hbase)).2

/-- The character of a decimal digit is one of the ten. -/
theorem Digit.isDigit_char (d : Digit 10) : d.char.isDigit = true := by
  obtain ⟨⟨v, hv⟩, capital⟩ := d
  have hall : ∀ v < 10, v.digitChar.toUpper.isDigit = true ∧ v.digitChar.isDigit = true := by decide
  cases capital with
  | true => exact (hall v hv).1
  | false => exact (hall v hv).2

/-- A character that is read as a digit is the character of one. -/
theorem exists_char_of_digit? {c : Char} {v : Nat} (h : digit? c = some v) : ∃ d : Digit 16, d.char = c ∧ d.value.val = v := by
  have hdecimal : ∀ v < 10, v.digitChar.toNat = v + 48 := by decide
  have hsmall : ∀ v < 6, (v + 10).digitChar.toNat = v + 97 := by decide
  have hcapital : ∀ v < 6, (v + 10).digitChar.toUpper.toNat = v + 65 := by decide
  unfold digit? at h
  split at h
  · rename_i hrange
    obtain ⟨hlow, hhigh⟩ : 48 ≤ c.toNat ∧ c.toNat ≤ 57 := hrange
    cases h
    refine ⟨⟨⟨c.toNat - 48, by omega⟩, false⟩, Char.toNat_inj.mp ?_, rfl⟩
    exact (hdecimal (c.toNat - 48) (by omega)).trans (by omega)
  split at h
  · rename_i hrange
    obtain ⟨hlow, hhigh⟩ : 97 ≤ c.toNat ∧ c.toNat ≤ 102 := hrange
    cases h
    refine ⟨⟨⟨c.toNat - 97 + 10, by omega⟩, false⟩, Char.toNat_inj.mp ?_, rfl⟩
    exact (hsmall (c.toNat - 97) (by omega)).trans (by omega)
  split at h
  · rename_i hrange
    obtain ⟨hlow, hhigh⟩ : 65 ≤ c.toNat ∧ c.toNat ≤ 70 := hrange
    cases h
    refine ⟨⟨⟨c.toNat - 65 + 10, by omega⟩, true⟩, Char.toNat_inj.mp ?_, rfl⟩
    exact (hcapital (c.toNat - 65) (by omega)).trans (by omega)
  · cases h

section Base

variable {base : Nat} (hbase : base ≤ 16)

include hbase

/-- The characters that are read as digits of a base are those of its digits. -/
theorem digitIn?_eq_some_iff {c : Char} {v : Nat} : digitIn? base c = some v ↔ ∃ d : Digit base, d.char = c ∧ d.value.val = v := by
  unfold digitIn?
  constructor
  · intro h
    split at h
    · rename_i v' hv'
      split at h
      · rename_i hlt
        cases h
        obtain ⟨d, hchar, rfl⟩ := exists_char_of_digit? hv'
        exact ⟨⟨⟨d.value.val, hlt⟩, d.capital⟩, hchar, rfl⟩
      · cases h
    · cases h
  · rintro ⟨d, rfl, rfl⟩
    have hread : digit? d.char = some d.value.val := digit?_char ⟨d.value.castLE hbase, d.capital⟩
    rw [hread]
    exact if_pos d.value.isLt

/-! ## Rows of digits -/

/-- Digits are read one after the other. The number of those in front is the number read so far; they are listed from the last one
to the first. -/
theorem digitsFrom?_eq_some_iff {front : List Nat} {cs : List Char} {v : Nat} :
    digitsFrom? base (Nat.ofDigits base front) cs = some v ↔
      ∃ ds : List (Digit base), ds.map Digit.char = cs ∧
        Nat.ofDigits base ((ds.map fun d => d.value.val).reverse ++ front) = v := by
  induction cs generalizing front with
  | nil =>
    rw [digitsFrom?, Option.some.injEq]
    constructor
    · intro h
      exact ⟨[], rfl, h⟩
    · rintro ⟨ds, hds, h⟩
      obtain rfl := List.map_eq_nil_iff.mp hds
      exact h
  | cons c cs ih =>
    have hnext (w : Nat) : Nat.ofDigits base front * base + w = Nat.ofDigits base (w :: front) := by
      rw [Nat.ofDigits_cons, Nat.mul_comm, Nat.add_comm]
    rw [digitsFrom?]
    constructor
    · intro h
      obtain ⟨w, hw, h⟩ := Option.bind_eq_some_iff.mp h
      obtain ⟨d, rfl, rfl⟩ := (digitIn?_eq_some_iff hbase).mp hw
      rw [hnext] at h
      obtain ⟨ds, rfl, hv⟩ := ih.mp h
      exact ⟨d :: ds, rfl, by simpa using hv⟩
    · rintro ⟨ds, hds, hv⟩
      obtain ⟨d, ds, rfl, rfl, rfl⟩ := List.map_eq_cons_iff.mp hds
      refine Option.bind_eq_some_iff.mpr ⟨_, (digitIn?_eq_some_iff hbase).mpr ⟨d, rfl, rfl⟩, ?_⟩
      rw [hnext]
      exact ih.mpr ⟨ds, rfl, by simpa using hv⟩

/-- One or more digits are read as the number that they write, and nothing else is read. -/
theorem digits?_eq_some_iff {cs : List Char} {v : Nat} :
    digits? base cs = some v ↔ ∃ ds : List (Digit base), ds ≠ [] ∧ ds.map Digit.char = cs ∧ Digit.number ds = v := by
  have hread : digitsFrom? base (Nat.ofDigits base []) cs = some v ↔ _ := digitsFrom?_eq_some_iff hbase
  simp only [Nat.ofDigits_nil, List.append_nil] at hread
  cases cs with
  | nil =>
    constructor
    · intro h
      cases h
    · rintro ⟨ds, hne, hds, -⟩
      exact absurd (List.map_eq_nil_iff.mp hds) hne
  | cons c cs =>
    have hsome : digits? base (c :: cs) = digitsFrom? base 0 (c :: cs) := rfl
    rw [hsome, hread]
    constructor
    · rintro ⟨ds, hds, hv⟩
      refine ⟨ds, ?_, hds, hv⟩
      rintro rfl
      cases hds
    · rintro ⟨ds, -, hds, hv⟩
      exact ⟨ds, hds, hv⟩

/-- Characters that are read as a number are ASCII ones. -/
theorem ascii_of_digits? {cs : List Char} {v : Nat} (h : digits? base cs = some v) : ∀ c ∈ cs, c.toNat < 128 := by
  obtain ⟨ds, -, rfl, -⟩ := (digits?_eq_some_iff hbase).mp h
  intro c hc
  obtain ⟨d, -, rfl⟩ := List.mem_map.mp hc
  exact d.char_ascii hbase

end Base

/-- Characters that are read as a decimal number are decimal digits. -/
theorem isDigit_of_digits? {cs : List Char} {v : Nat} (h : digits? 10 cs = some v) : ∀ c ∈ cs, c.isDigit = true := by
  obtain ⟨ds, -, rfl, -⟩ := (digits?_eq_some_iff (by decide)).mp h
  intro c hc
  obtain ⟨d, -, rfl⟩ := List.mem_map.mp hc
  exact d.isDigit_char

end ScriptEngine.Text
