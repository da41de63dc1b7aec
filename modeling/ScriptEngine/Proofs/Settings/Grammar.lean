import ScriptEngine.Proofs.Text.Numeral
import ScriptEngine.Settings.Value

/-!
# Texts of values

The JSON texts of a value that have no blanks (`Value.Denotes`). A string can be written in many ways, since every character may be
escaped; everything else has one text. The compact text of a value is one of the texts that denote it.
-/

namespace ScriptEngine.Value

/-- The escapes of one letter, with the characters that they stand for. -/
def shortEscapes : List (Char × Char) :=
  [('"', '"'), ('\\', '\\'), ('/', '/'), ('b', '\x08'), ('f', '\x0c'), ('n', '\n'), ('r', '\r'), ('t', '\t')]

/-- What stands in a string for a character: the character itself, unless it is a control character, a quote or a backslash, an
escape of one letter, or the number of the character in four hexadecimal digits. -/
inductive DenotesChar : List Char → Char → Prop where
  | plain {c : Char} : c ≠ '"' → c ≠ '\\' → ¬ c < ' ' → DenotesChar [c] c
  | short {e c : Char} : (e, c) ∈ shortEscapes → DenotesChar ['\\', e] c
  | number {h₀ h₁ h₂ h₃ c : Char} : Text.digits? 16 [h₀, h₁, h₂, h₃] = some c.toNat → DenotesChar ['\\', 'u', h₀, h₁, h₂, h₃] c

/-- What stands between the quotes of a string. -/
inductive DenotesChars : List Char → List Char → Prop where
  | nil : DenotesChars [] []
  | cons {w ws : List Char} {c : Char} {cs : List Char} : DenotesChar w c → DenotesChars ws cs → DenotesChars (w ++ ws) (c :: cs)

/-- A string between its quotes. -/
inductive DenotesString : List Char → String → Prop where
  | quoted {ws : List Char} {s : String} : DenotesChars ws s.toList → DenotesString ('"' :: ws ++ ['"']) s

mutual

/-- The texts of a value. A natural number is written in decimal digits, and a zero stands in front of them only for zero itself. -/
inductive Denotes : List Char → Value → Prop where
  | null : Denotes "null".toList .null
  | natural {ds : List Char} {n : Nat} : Text.digits? 10 ds = some n → (ds.head? = some '0' → ds.length = 1) →
      Denotes ds (.natural n)
  | text {ws : List Char} {s : String} : DenotesString ws s → Denotes ws (.text s)
  | empty : Denotes ['\x7b', '\x7d'] (.object [])
  | object {ws : List Char} {fields : List (String × Value)} : DenotesFields ws fields →
      Denotes ('\x7b' :: ws ++ ['\x7d']) (.object fields)

/-- The texts of fields, of which there is at least one. -/
inductive DenotesFields : List Char → List (String × Value) → Prop where
  | last {ns ws : List Char} {name : String} {v : Value} : DenotesString ns name → Denotes ws v →
      DenotesFields (ns ++ ':' :: ws) [(name, v)]
  | cons {ns ws more : List Char} {name : String} {v : Value} {fields : List (String × Value)} : DenotesString ns name →
      Denotes ws v → DenotesFields more fields → DenotesFields (ns ++ ':' :: (ws ++ ',' :: more)) ((name, v) :: fields)

end

/-! ## Compact texts -/

/-- The number of a control character is written in four digits. -/
theorem digits?_of_control : ∀ n < 32, (Text.hexPadded 4 n).toList = ['0', '0', (n / 16).digitChar, (n % 16).digitChar] ∧
    Text.digits? 16 ['0', '0', (n / 16).digitChar, (n % 16).digitChar] = some n := by
  decide

/-- What is written for a character stands for it. -/
theorem denotes_writtenChar (c : Char) : DenotesChar (writtenChar c) c := by
  by_cases hshort : c ∈ ['"', '\\', '\x08', '\x0c', '\n', '\r', '\t']
  · simp only [List.mem_cons, List.not_mem_nil, or_false] at hshort
    rcases hshort with rfl | rfl | rfl | rfl | rfl | rfl | rfl <;> exact .short (by decide)
  · simp only [List.mem_cons, List.not_mem_nil, or_false, not_or] at hshort
    obtain ⟨hquote, hescape, hback, hfeed, hline, hreturn, htab⟩ := hshort
    by_cases hcontrol : c < ' '
    · obtain ⟨hdigits, hnumber⟩ := digits?_of_control c.toNat hcontrol
      have hwritten : writtenChar c = ['\\', 'u', '0', '0', (c.toNat / 16).digitChar, (c.toNat % 16).digitChar] := by
        simp [writtenChar, *]
      rw [hwritten]
      exact .number hnumber
    · have hwritten : writtenChar c = [c] := by
        simp [writtenChar, *]
      rw [hwritten]
      exact .plain hquote hescape hcontrol

/-- What is written for a string denotes it. -/
theorem denotes_writtenString (s : String) : DenotesString (writtenString s) s := by
  have hchars : ∀ cs, DenotesChars (cs.flatMap writtenChar) cs := by
    intro cs
    induction cs with
    | nil => exact .nil
    | cons c cs ih => exact .cons (denotes_writtenChar c) ih
  exact .quoted (hchars s.toList)

/-- The decimal text of a number denotes it. -/
theorem denotes_decimal (n : Nat) : Denotes (Nat.toDigits 10 n) (.natural n) := by
  refine .natural (Text.digits?_decimal n) fun hzero => ?_
  cases n with
  | zero => rfl
  | succ n => exact absurd hzero (Text.head?_decimal_ne n.succ_pos)

mutual

/-- What is written for a value denotes it. -/
theorem denotes_written : ∀ v : Value, Denotes v.written v
  | .null => .null
  | .natural n => denotes_decimal n
  | .text s => .text (denotes_writtenString s)
  | .object [] => .empty
  | .object (field :: fields) => .object (denotes_writtenFields (field :: fields) (List.cons_ne_nil field fields))

/-- What is written for fields denotes them. -/
theorem denotes_writtenFields : ∀ fields : List (String × Value), fields ≠ [] → DenotesFields (writtenFields fields) fields
  | [], hne => absurd rfl hne
  | [(name, v)], _ => .last (denotes_writtenString name) (denotes_written v)
  | (name, v) :: field :: fields, _ =>
    have hmore := denotes_writtenFields (field :: fields) (List.cons_ne_nil field fields)
    .cons (denotes_writtenString name) (denotes_written v) hmore

end

/-- The compact text of a value denotes it. -/
theorem denotes_compact (v : Value) : Denotes v.compact.toList v := by
  rw [compact, String.toList_ofList]
  exact v.denotes_written

end ScriptEngine.Value
