import ScriptEngine.Proofs.Settings.Strings

/-!
# Reading values of JSON documents

A text is read as a value if the reader finds the value in it wherever the text stands, and goes on behind it (`Reads`). Only a
number could be continued by what follows. Every text that denotes a value is read, and what it is read as means that value
(`Means`): strings and numbers are still kept as they were written.

A value needs no more fuel than it has bytes: every call consumes a byte before it makes another one, or hands over to one that
does.
-/

namespace ScriptEngine.Json

/-- What stands here does not continue a number. -/
def Delimited (rest : List UInt8) : Prop :=
  ∀ b ∈ rest.head?, isDigit b = false ∧ b ≠ ascii '.' ∧ b ≠ ascii 'e' ∧ b ≠ ascii 'E'

/-- A text is read as a value, whatever follows that does not continue it. -/
def Reads (text : List UInt8) (v : Json) : Prop :=
  ∀ fuel rest, text.length ≤ fuel + 1 → Delimited rest → value (fuel + 1) (text ++ rest) = some (v, rest)

/-- A document that consists of a text for a value has that value. -/
theorem Reads.ofBytes? {text : List UInt8} {v : Json} (h : Reads text v) : ofBytes? text = some v := by
  have hvalue : value (2 * text.length + 2) text = some (v, []) := by
    have hread := h (2 * text.length + 1) [] (by omega) (by simp [Delimited])
    rwa [List.append_nil] at hread
  rw [Json.ofBytes?, hvalue]
  rfl

/-- There are no blanks to be skipped before another byte. -/
theorem skipBlanks_cons {b : UInt8} (h : isBlank b = false) (bs : List UInt8) : skipBlanks (b :: bs) = b :: bs := by
  rw [skipBlanks, List.dropWhile_cons_of_neg (by simp [h])]

/-! ## Values without parts -/

/-- The word for no value is read as such. -/
theorem reads_null : Reads (encoded "null".toList) .null := by
  intro fuel rest _ _
  rfl

/-- A string is read as its pieces. -/
theorem ReadsString.reads {text : List UInt8} {ps : List JsonPiece} (h : ReadsString text ps) : Reads text (.string ps) := by
  obtain ⟨inner, rfl, hinner⟩ := h
  intro fuel rest _ _
  rw [List.cons_append, value, skipBlanks_cons rfl]
  simp only [if_true, hinner]
  rfl

/-! ## Numbers -/

/-- A digit is no other byte than a digit. -/
theorem ne_of_isDigit {b b' : UInt8} (h : isDigit b = true) (h' : isDigit b' = false) : b ≠ b' := by
  rintro rfl
  rw [h] at h'
  cases h'

/-- A part of a number that is not there is not read. -/
theorem numberPart_of_delimited {mark : UInt8 → Bool} (signs : Bool) {rest : List UInt8} (h : ∀ b ∈ rest.head?, mark b = false) :
    numberPart mark signs rest = some ([], rest) := by
  cases rest with
  | nil => rfl
  | cons b rest =>
    rw [numberPart.eq_def]
    simp only [h b rfl, Bool.false_eq_true, if_false]

section Digits

variable {d : UInt8} {ds : List UInt8} (hdigits : ∀ b ∈ d :: ds, isDigit b = true)

include hdigits

/-- The digits in front of what does not continue them are all that there are. -/
theorem digits?_append {rest : List UInt8} (h : Delimited rest) : digits? (d :: ds ++ rest) = some (d :: ds, rest) := by
  have hend : rest.takeWhile isDigit = [] ∧ rest.dropWhile isDigit = rest := by
    cases rest with
    | nil => exact ⟨rfl, rfl⟩
    | cons b rest =>
      have hb : ¬ isDigit b = true := by simp [(h b rfl).1]
      exact ⟨List.takeWhile_cons_of_neg hb, List.dropWhile_cons_of_neg hb⟩
  simp only [digits?, List.takeWhile_append_of_pos hdigits, List.dropWhile_append_of_pos hdigits, hend, List.append_nil]
  rfl

/-- Digits without a zero in front are a number of their own. -/
theorem number?_append (hzero : d = ascii '0' → ds = []) {rest : List UInt8} (h : Delimited rest) :
    number? (d :: ds ++ rest) = some (d :: ds, rest) := by
  have hsign : d ≠ ascii '-' := ne_of_isDigit (hdigits d List.mem_cons_self) rfl
  have hfront : ¬ ((d :: ds).head? = some (ascii '0') ∧ (d :: ds).length ≠ 1) := by
    rintro ⟨hd, hlength⟩
    rw [hzero (Option.some.inj hd)] at hlength
    exact hlength rfl
  have hpoint : ∀ b ∈ rest.head?, (b == ascii '.') = false := fun b hb => by simp [(h b hb).2.1]
  have hexponent : ∀ b ∈ rest.head?, (b == ascii 'e' || b == ascii 'E') = false := fun b hb => by simp [(h b hb).2.2]
  have hwhole := digits?_append hdigits h
  rw [List.cons_append] at hwhole ⊢
  rw [number?.eq_def]
  simp only [hsign, if_false, hwhole, Option.bind_eq_bind, Option.bind_some, hfront, numberPart_of_delimited _ hpoint,
    numberPart_of_delimited _ hexponent, List.nil_append, List.append_nil]
  rfl

/-- Digits without a zero in front are read as a number. -/
theorem reads_digits (hzero : d = ascii '0' → ds = []) : Reads (d :: ds) (.number (d :: ds)) := by
  intro fuel rest _ hrest
  have hne : ∀ b, isDigit b = false → d ≠ b := fun b => ne_of_isDigit (hdigits d List.mem_cons_self)
  have hblank : isBlank d = false := by
    simp only [isBlank, Bool.or_eq_false_iff, beq_eq_false_iff_ne]
    exact ⟨⟨⟨hne _ rfl, hne _ rfl⟩, hne _ rfl⟩, hne _ rfl⟩
  have hnumber := number?_append hdigits hzero hrest
  rw [List.cons_append] at hnumber ⊢
  rw [value, skipBlanks_cons hblank]
  simp only [hne (ascii '"') rfl, hne (ascii '[') rfl, hne (ascii '\x7b') rfl, hne (ascii 't') rfl, hne (ascii 'f') rfl,
    hne (ascii 'n') rfl, if_false, hnumber]
  rfl

end Digits

/-! ## Objects -/

/-- A text is read as fields, of which there is at least one, up to the closing brace. -/
def ReadsFields (text : List UInt8) (fs : List (List JsonPiece × Json)) : Prop :=
  (∃ more, text = ascii '"' :: more) ∧
    ∀ fuel rest, text.length ≤ fuel → fields fuel (text ++ ascii '\x7d' :: rest) = some (fs, rest)

/-- The name of a field, the colon and the value are read, and it depends on what stands behind the value how reading goes on. -/
theorem fields_field {name text : List UInt8} {ps : List JsonPiece} {v : Json} (hname : ReadsString name ps) (h : Reads text v)
    {fuel : Nat} (hfuel : text.length ≤ fuel + 1) {b : UInt8} {rest : List UInt8} (hblank : isBlank b = false)
    (hrest : Delimited (b :: rest)) :
    fields (fuel + 2) (name ++ ascii ':' :: (text ++ b :: rest)) =
      if b = ascii ',' then (fields (fuel + 1) rest).map fun more => ((ps, v) :: more.1, more.2)
      else if b = ascii '\x7d' then some ([(ps, v)], rest)
      else none := by
  obtain ⟨inner, rfl, hinner⟩ := hname
  have hquote : ∀ bs, after? "\"" (ascii '"' :: bs) = some bs := fun _ => rfl
  have hcolon : ∀ bs, after? ":" (ascii ':' :: bs) = some bs := fun _ => rfl
  rw [List.cons_append, fields, skipBlanks_cons rfl, hquote]
  simp only [Option.bind_eq_bind, Option.bind_some, hinner, skipBlanks_cons (b := ascii ':') rfl, hcolon,
    h fuel (b :: rest) hfuel hrest, skipBlanks_cons hblank]

/-- A comma and a closing brace do not continue a number. -/
theorem delimited_of_end {b : UInt8} (h : b = ascii ',' ∨ b = ascii '\x7d') (rest : List UInt8) : Delimited (b :: rest) := by
  rintro _ ⟨⟩
  rcases h with rfl | rfl <;> decide

/-- One field is read as such. -/
theorem readsFields_last {name text : List UInt8} {ps : List JsonPiece} {v : Json} (hname : ReadsString name ps)
    (h : Reads text v) : ReadsFields (name ++ ascii ':' :: text) [(ps, v)] := by
  obtain ⟨inner, hquote⟩ := hname.exists_eq_cons
  refine ⟨⟨_, by rw [hquote, List.cons_append]⟩, fun fuel rest hfuel => ?_⟩
  have hlength : 0 < name.length := by
    rw [hquote]
    exact Nat.succ_pos _
  simp only [List.length_append, List.length_cons] at hfuel
  obtain ⟨fuel, rfl⟩ : ∃ k, fuel = k + 2 := ⟨fuel - 2, by omega⟩
  rw [List.append_assoc, List.cons_append]
  exact fields_field hname h (by omega) rfl (delimited_of_end (Or.inr rfl) rest)

/-- A field, a comma and fields are read as fields. -/
theorem readsFields_cons {name text more : List UInt8} {ps : List JsonPiece} {v : Json} {fs : List (List JsonPiece × Json)}
    (hname : ReadsString name ps) (h : Reads text v) (hmore : ReadsFields more fs) :
    ReadsFields (name ++ ascii ':' :: (text ++ ascii ',' :: more)) ((ps, v) :: fs) := by
  obtain ⟨inner, hquote⟩ := hname.exists_eq_cons
  refine ⟨⟨_, by rw [hquote, List.cons_append]⟩, fun fuel rest hfuel => ?_⟩
  have hlength : 0 < name.length := by
    rw [hquote]
    exact Nat.succ_pos _
  simp only [List.length_append, List.length_cons] at hfuel
  obtain ⟨fuel, rfl⟩ : ∃ k, fuel = k + 2 := ⟨fuel - 2, by omega⟩
  rw [List.append_assoc, List.cons_append, List.append_assoc, List.cons_append,
    fields_field hname h (by omega) rfl (delimited_of_end (Or.inl rfl) _), hmore.2 (fuel + 1) rest (by omega)]
  rfl

/-- Fields between braces are read as an object. -/
theorem ReadsFields.reads_object {text : List UInt8} {fs : List (List JsonPiece × Json)} (h : ReadsFields text fs) :
    Reads (ascii '\x7b' :: text ++ [ascii '\x7d']) (.object fs) := by
  obtain ⟨⟨more, rfl⟩, hread⟩ := h
  intro fuel rest hfuel _
  have hlength : (ascii '"' :: more).length ≤ fuel := by
    simp only [List.length_append, List.length_cons] at hfuel ⊢
    omega
  have hfields := hread fuel rest hlength
  rw [List.cons_append] at hfields
  rw [List.append_assoc, List.cons_append, List.singleton_append, value, skipBlanks_cons rfl, List.cons_append]
  simp only [skipBlanks_cons (b := ascii '"') rfl, hfields]
  rfl

/-- No fields between braces are read as an object. -/
theorem reads_empty : Reads [ascii '\x7b', ascii '\x7d'] (.object []) := by
  intro fuel rest _ _
  rfl

/-! ## Texts that denote values -/

mutual

/-- What was read means a value. -/
inductive Means : Json → Value → Prop where
  | null : Means .null .null
  | natural {ds : List UInt8} {n : Nat} : natural? ds = some n → Means (.number ds) (.natural n)
  | text {ps : List JsonPiece} {s : String} : text? ps = some s → Means (.string ps) (.text s)
  | object {fs : List (List JsonPiece × Json)} {fields : List (String × Value)} : FieldsMean fs fields →
      Means (.object fs) (.object fields)

/-- Fields that were read mean fields. -/
inductive FieldsMean : List (List JsonPiece × Json) → List (String × Value) → Prop where
  | nil : FieldsMean [] []
  | cons {ps : List JsonPiece} {name : String} {j : Json} {v : Value} {fs : List (List JsonPiece × Json)}
      {fields : List (String × Value)} : text? ps = some name → Means j v → FieldsMean fs fields →
      FieldsMean ((ps, j) :: fs) ((name, v) :: fields)

end

/-- A text that denotes a number is read as what is written. -/
theorem exists_reads_natural {cs : List Char} {n : Nat} (hnumber : Text.digits? 10 cs = some n)
    (hzero : cs.head? = some '0' → cs.length = 1) : ∃ j, Reads (encoded cs) j ∧ Means j (.natural n) := by
  have hascii := Text.ascii_of_digits? (by decide) hnumber
  have hnatural : natural? (cs.map ascii) = some n := (congrArg (Text.digits? 10) (chars_of_ascii hascii)).trans hnumber
  have hdigits : ∀ b ∈ cs.map ascii, isDigit b = true := by
    intro b hb
    obtain ⟨c, hc, rfl⟩ := List.mem_map.mp hb
    obtain ⟨hlow, hhigh⟩ := Char.isDigit_iff_toNat.mp (Text.isDigit_of_digits? hnumber c hc)
    rw [isDigit, Bool.and_eq_true, decide_eq_true_iff, decide_eq_true_iff, UInt8.le_iff_toNat_le, UInt8.le_iff_toNat_le,
      toNat_ascii (hascii c hc)]
    exact ⟨hlow, hhigh⟩
  rw [encoded_of_ascii hascii]
  cases cs with
  | nil => cases hnumber
  | cons c cs =>
    refine ⟨.number ((c :: cs).map ascii), reads_digits hdigits fun hc => ?_, .natural hnatural⟩
    have hc : c = '0' := by
      have hbyte := congrArg UInt8.toNat hc
      rw [toNat_ascii (hascii c List.mem_cons_self)] at hbyte
      exact Char.toNat_inj.mp hbyte
    have hlength := hzero (congrArg some hc)
    rw [List.length_cons, Nat.add_eq_right, List.length_eq_zero_iff] at hlength
    rw [hlength, List.map_nil]

mutual

/-- A text that denotes a value is read as something that means the value. -/
theorem exists_reads {ws : List Char} {v : Value} : Value.Denotes ws v → ∃ j, Reads (encoded ws) j ∧ Means j v
  | .null => ⟨.null, reads_null, .null⟩
  | .natural hnumber hzero => exists_reads_natural hnumber hzero
  | .text hstring => by
    obtain ⟨ps, hreads, htext⟩ := exists_readsString hstring
    exact ⟨.string ps, hreads.reads, .text htext⟩
  | .empty => ⟨.object [], reads_empty, .object .nil⟩
  | .object hfields => by
    obtain ⟨fs, hreads, hmeans⟩ := exists_readsFields hfields
    refine ⟨.object fs, ?_, .object hmeans⟩
    rw [List.cons_append, encoded_cons (by decide), encoded_append]
    exact hreads.reads_object

/-- A text that denotes fields is read as fields that mean them. -/
theorem exists_readsFields {ws : List Char} {fields : List (String × Value)} :
    Value.DenotesFields ws fields → ∃ fs, ReadsFields (encoded ws) fs ∧ FieldsMean fs fields
  | .last hname hvalue => by
    obtain ⟨ps, hname, htext⟩ := exists_readsString hname
    obtain ⟨j, hvalue, hmeans⟩ := exists_reads hvalue
    refine ⟨[(ps, j)], ?_, .cons htext hmeans .nil⟩
    rw [encoded_append, encoded_cons (by decide)]
    exact readsFields_last hname hvalue
  | .cons hname hvalue hmore => by
    obtain ⟨ps, hname, htext⟩ := exists_readsString hname
    obtain ⟨j, hvalue, hmeans⟩ := exists_reads hvalue
    obtain ⟨fs, hmore, hfields⟩ := exists_readsFields hmore
    refine ⟨(ps, j) :: fs, ?_, .cons htext hmeans hfields⟩
    rw [encoded_append, encoded_cons (by decide), encoded_append, encoded_cons (by decide)]
    exact readsFields_cons hname hvalue hmore

end

end ScriptEngine.Json
