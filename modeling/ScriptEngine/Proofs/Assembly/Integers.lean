import ScriptEngine.Assembly.Operand
import ScriptEngine.Proofs.Text.Digits
import ScriptEngine.Proofs.Text.Numeral

/-!
# The texts of integers

An integer is written with at most one minus sign, the mark of its base and one or more digits (`Numeral`). It is read from these
texts alone, and only if its magnitude is below `2 ^ 63`, with or without the sign. What is read is the integer written, so zeros
in front of the digits play no part.

The ways of writing are told apart by characters that are no decimal digits: a minus sign and the letter of a mark.
-/

namespace ScriptEngine.Assembly

/-! ## The grammar -/

/-- The base of an integer, and how it is marked. -/
inductive Radix where
  | decimal
  | hexadecimal (capital : Bool)
  deriving DecidableEq, Repr

namespace Radix

/-- How many times as much a digit counts as the next one. -/
def base : Radix → Nat
  | decimal => 10
  | hexadecimal _ => 16

/-- Every base is one that digits are read in. -/
theorem base_bounds (radix : Radix) : 0 < radix.base ∧ radix.base ≤ 16 := by
  cases radix with
  | decimal => decide
  | hexadecimal => exact ⟨Nat.zero_lt_succ 15, Nat.le_refl 16⟩

/-- What stands in front of the digits. -/
def mark : Radix → List Char
  | decimal => []
  | hexadecimal false => ['0', 'x']
  | hexadecimal true => ['0', 'X']

end Radix

/-- What stands in front of the mark. -/
def sign (negative : Bool) : List Char := if negative then ['-'] else []

/-- The integer of a sign and a magnitude. -/
def signed (negative : Bool) (magnitude : Nat) : Int := if negative then -magnitude else magnitude

/-- An integer as written. -/
structure Numeral where
  negative : Bool
  radix : Radix
  digits : List (Text.Digit radix.base)
  digits_ne_nil : digits ≠ []

namespace Numeral

/-- The characters of an integer. -/
def text (m : Numeral) : List Char := sign m.negative ++ (m.radix.mark ++ m.digits.map Text.Digit.char)

/-- The number that the digits write. -/
def magnitude (m : Numeral) : Nat := Text.Digit.number m.digits

/-- The integer written. -/
def value (m : Numeral) : Int := signed m.negative m.magnitude

/-- A digit that counts nothing. -/
def zero (m : Numeral) : Text.Digit m.radix.base where
  value := ⟨0, m.radix.base_bounds.1⟩

/-- The same integer with more zeros in front of its digits. -/
def withZeros (m : Numeral) (k : Nat) : Numeral where
  negative := m.negative
  radix := m.radix
  digits := List.replicate k m.zero ++ m.digits
  digits_ne_nil := List.append_ne_nil_of_right_ne_nil _ m.digits_ne_nil

/-- Zeros in front do not change the magnitude. -/
theorem magnitude_withZeros (m : Numeral) (k : Nat) : (m.withZeros k).magnitude = m.magnitude :=
  Text.Digit.number_replicate_append rfl k m.digits

end Numeral

/-! ## Digits and their mark -/

/-- A text with a letter behind a zero is not decimal. -/
theorem magnitude?_of_decimal {cs : List Char} {v : Nat} (h : Text.digits? 10 cs = some v) : magnitude? cs = some v := by
  unfold magnitude?
  split
  · cases h
  · cases h
  · exact h

/-- The digits of an integer are read in the base that is marked. -/
theorem magnitude?_eq_some_iff {cs : List Char} {v : Nat} :
    magnitude? cs = some v ↔
      ∃ (radix : Radix) (ds : List (Text.Digit radix.base)), ds ≠ [] ∧ radix.mark ++ ds.map Text.Digit.char = cs ∧
        Text.Digit.number ds = v := by
  have hread (radix : Radix) {cs : List Char} :
      Text.digits? radix.base cs = some v ↔ ∃ ds : List (Text.Digit radix.base), ds ≠ [] ∧ ds.map Text.Digit.char = cs ∧
        Text.Digit.number ds = v := Text.digits?_eq_some_iff radix.base_bounds.2
  constructor
  · intro h
    unfold magnitude? at h
    split at h
    · obtain ⟨ds, hne, rfl, hv⟩ := (hread (.hexadecimal false)).mp h
      exact ⟨.hexadecimal false, ds, hne, rfl, hv⟩
    · obtain ⟨ds, hne, rfl, hv⟩ := (hread (.hexadecimal true)).mp h
      exact ⟨.hexadecimal true, ds, hne, rfl, hv⟩
    · obtain ⟨ds, hne, rfl, hv⟩ := (hread .decimal).mp h
      exact ⟨.decimal, ds, hne, rfl, hv⟩
  · rintro ⟨radix, ds, hne, rfl, hv⟩
    have hdigits := (hread radix).mpr ⟨ds, hne, rfl, hv⟩
    cases radix with
    | decimal => exact magnitude?_of_decimal hdigits
    | hexadecimal capital => cases capital <;> exact hdigits

/-! ## The sign -/

/-- A minus sign is no digit. -/
theorem magnitude?_minus (cs : List Char) : magnitude? ('-' :: cs) = none := rfl

/-- An integer is read from its sign and its magnitude. -/
theorem integer?_of_magnitude (negative : Bool) {cs : List Char} {v : Nat} (h : magnitude? cs = some v) :
    integer? (sign negative ++ cs) = if v < 2 ^ 63 then some (signed negative v) else none := by
  cases negative with
  | true =>
    rw [sign, if_pos rfl, List.singleton_append]
    unfold integer?
    split
    rename_i negative digits hsign
    cases hsign
    rw [h]
    rfl
  | false =>
    -- The digits do not begin with a minus sign, so none is taken off.
    rw [sign, if_neg Bool.false_ne_true, List.nil_append]
    unfold integer?
    split
    rename_i negative digits hsign
    split at hsign
    · cases (magnitude?_minus _).symm.trans h
    · cases hsign
      rw [h]
      rfl

/-- An integer is read exactly from a sign and a magnitude that is not too large. -/
theorem integer?_eq_some_iff_magnitude {cs : List Char} {n : Int} :
    integer? cs = some n ↔
      ∃ negative digits v, sign negative ++ digits = cs ∧ magnitude? digits = some v ∧ v < 2 ^ 63 ∧ signed negative v = n := by
  constructor
  · intro h
    unfold integer? at h
    split at h
    rename_i negative digits hsign
    have hcs : sign negative ++ digits = cs := by
      split at hsign <;> cases hsign <;> rfl
    split at h
    · rename_i v hv
      split at h
      · rename_i hlt
        cases h
        exact ⟨negative, digits, v, hcs, hv, hlt, rfl⟩
      · cases h
    · cases h
  · rintro ⟨negative, digits, v, rfl, hv, hlt, rfl⟩
    rw [integer?_of_magnitude negative hv, if_pos hlt]

/-! ## Integers -/

/-- An integer as written is read as the integer written if its magnitude is not too large. -/
theorem integer?_text (m : Numeral) : integer? m.text = if m.magnitude < 2 ^ 63 then some m.value else none :=
  integer?_of_magnitude m.negative (magnitude?_eq_some_iff.mpr ⟨m.radix, m.digits, m.digits_ne_nil, rfl, rfl⟩)

/-- An integer is read from its texts alone. -/
theorem integer?_eq_some_iff {cs : List Char} {n : Int} :
    integer? cs = some n ↔ ∃ m : Numeral, m.text = cs ∧ m.magnitude < 2 ^ 63 ∧ m.value = n := by
  constructor
  · intro h
    obtain ⟨negative, rest, v, rfl, hv, hlt, rfl⟩ := integer?_eq_some_iff_magnitude.mp h
    obtain ⟨radix, ds, hne, rfl, rfl⟩ := magnitude?_eq_some_iff.mp hv
    exact ⟨⟨negative, radix, ds, hne⟩, rfl, hlt, rfl⟩
  · rintro ⟨m, rfl, hlt, rfl⟩
    rw [integer?_text, if_pos hlt]

/-- The decimal text of a number writes it. -/
theorem magnitude?_decimal (v : Nat) : magnitude? (Nat.toDigits 10 v) = some v := magnitude?_of_decimal (Text.digits?_decimal v)

/-- The decimal text of an integer is read back if its magnitude is not too large. -/
theorem integer?_toString (n : Int) : integer? (toString n).toList = if n.natAbs < 2 ^ 63 then some n else none := by
  cases n with
  | ofNat v =>
    have htext : (toString (Int.ofNat v)).toList = sign false ++ Nat.toDigits 10 v := Nat.toList_repr
    rw [htext, integer?_of_magnitude false (magnitude?_decimal v)]
    rfl
  | negSucc v =>
    have htext : (toString (Int.negSucc v)).toList = sign true ++ Nat.toDigits 10 (v + 1) := by
      change ("-" ++ (v + 1).repr).toList = _
      rw [String.toList_append, Nat.toList_repr]
      rfl
    rw [htext, integer?_of_magnitude true (magnitude?_decimal (v + 1))]
    rfl

/-! ## Integer literals -/

/-- An integer literal is an integer of 32 bits with sign. -/
theorem int32?_eq_some_iff {cs : List Char} {m : Int32} : int32? cs = some m ↔ integer? cs = some m.toInt := by
  unfold int32?
  constructor
  · intro h
    split at h
    · rename_i n hn
      split at h
      · rename_i hrange
        cases h
        rw [hn, Int32.toInt_ofInt_of_le hrange.1 hrange.2]
      · cases h
    · cases h
  · intro h
    rw [h]
    have hrange : -2 ^ 31 ≤ m.toInt ∧ m.toInt < 2 ^ 31 := ⟨m.le_toInt, m.toInt_lt⟩
    exact (if_pos hrange).trans (congrArg some (Int32.ofInt_toInt m))

/-- Behind an `@` an integer is accepted if it has 32 bits with sign. -/
theorem ofToken?_at_eq_some_iff {cs : List Char} {o : Operand} :
    Operand.ofToken? ('@' :: cs) = some o ↔
      ∃ n m, integer? cs = some n ∧ -2 ^ 31 ≤ n ∧ n ≤ 2 ^ 31 - 1 ∧ Int32.toInt m = n ∧ o = .int m := by
  have hat : Operand.ofToken? ('@' :: cs) = (int32? cs).map .int := rfl
  rw [hat, Option.map_eq_some_iff]
  constructor
  · rintro ⟨m, hm, rfl⟩
    have hlow := m.le_toInt
    have hhigh := m.toInt_lt
    exact ⟨m.toInt, m, int32?_eq_some_iff.mp hm, hlow, Int.le_sub_one_of_lt hhigh, rfl, rfl⟩
  · rintro ⟨_, m, hn, -, -, rfl, rfl⟩
    exact ⟨m, int32?_eq_some_iff.mpr hn, rfl⟩

/-- Which texts are integers, and which ones. An integer is read from a text exactly when the text is an optional minus sign, the
mark of a base and one or more digits of the base, and the magnitude is at most `2 ^ 63 - 1`; then it is the integer written.
Zeros in front of the digits change nothing, not even whether the text is accepted. In particular an integer is read back from its
decimal text if its magnitude allows that. Behind an `@` exactly the integers of 32 bits with sign are accepted. -/
theorem integers_have_grammar :
    (∀ cs n, integer? cs = some n ↔ ∃ m : Numeral, m.text = cs ∧ m.magnitude ≤ 2 ^ 63 - 1 ∧ m.value = n) ∧
      (∀ (m : Numeral) (k : Nat), integer? (m.withZeros k).text = integer? m.text) ∧
      (∀ n : Int, integer? (toString n).toList = if n.natAbs ≤ 2 ^ 63 - 1 then some n else none) ∧
      ∀ cs o, Operand.ofToken? ('@' :: cs) = some o ↔
        ∃ n m, integer? cs = some n ∧ -2 ^ 31 ≤ n ∧ n ≤ 2 ^ 31 - 1 ∧ Int32.toInt m = n ∧ o = .int m := by
  have hbound (v : Nat) : v ≤ 2 ^ 63 - 1 ↔ v < 2 ^ 63 := Nat.le_sub_one_iff_lt (by decide)
  simp only [hbound]
  refine ⟨fun cs n => integer?_eq_some_iff, ?_, integer?_toString, fun cs o => ofToken?_at_eq_some_iff⟩
  intro m k
  rw [integer?_text, integer?_text, m.magnitude_withZeros, Numeral.value, m.magnitude_withZeros]
  rfl

end ScriptEngine.Assembly
