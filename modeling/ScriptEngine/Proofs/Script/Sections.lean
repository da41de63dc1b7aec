import ScriptEngine.Proofs.Text.Utf8
import ScriptEngine.Script.Container

/-!
# The sections of a container

Words and strings read back from the bytes that were written for them, whatever follows these bytes. A string ends at its first
NUL, so it is read back only if it holds none: in UTF-8 a byte is zero exactly where a NUL is encoded.
-/

namespace ScriptEngine

namespace Container

/-! ## Words -/

/-- Four bytes of a word make the word. -/
theorem wordOfBytes_bytes (w : UInt32) :
    wordOfBytes (UInt8.ofNat w.toNat) (UInt8.ofNat (w.toNat / 2 ^ 8)) (UInt8.ofNat (w.toNat / 2 ^ 16))
      (UInt8.ofNat (w.toNat / 2 ^ 24)) = w := by
  have hw := w.toNat_lt
  apply UInt32.toNat_inj.mp
  simp only [wordOfBytes, UInt8.toNat_ofNat', UInt32.toNat_ofNat']
  omega

/-- The bytes of the word that four bytes make are these. -/
theorem wordBytes_wordOfBytes (b0 b1 b2 b3 : UInt8) : wordBytes (wordOfBytes b0 b1 b2 b3) = [b0, b1, b2, b3] := by
  have h0 := b0.toNat_lt
  have h1 := b1.toNat_lt
  have h2 := b2.toNat_lt
  have h3 := b3.toNat_lt
  have hfits : b0.toNat + b1.toNat * 2 ^ 8 + b2.toNat * 2 ^ 16 + b3.toNat * 2 ^ 24 < 2 ^ 32 := by omega
  have hword : (wordOfBytes b0 b1 b2 b3).toNat = b0.toNat + b1.toNat * 2 ^ 8 + b2.toNat * 2 ^ 16 + b3.toNat * 2 ^ 24 :=
    UInt32.toNat_ofNat_of_lt' hfits
  have hbyte (b : UInt8) {n : Nat} (h : n % 2 ^ 8 = b.toNat) : UInt8.ofNat n = b :=
    UInt8.toNat_inj.mp (UInt8.toNat_ofNat'.trans h)
  rw [wordBytes, hword, hbyte b0 (by omega), hbyte b1 (by omega), hbyte b2 (by omega), hbyte b3 (by omega)]

/-- Every word takes four bytes. -/
theorem length_flatMap_wordBytes (ws : List UInt32) : (ws.flatMap wordBytes).length = ws.length * 4 := by
  induction ws with
  | nil => rfl
  | cons w ws ih =>
    rw [List.flatMap_cons, List.length_append, ih, List.length_cons]
    simp only [wordBytes, List.length_cons, List.length_nil]
    omega

/-- Words are read back, up to the bytes that follow them. -/
theorem takeWords_flatMap_append (ws : List UInt32) (rest : List UInt8) :
    takeWords ws.length (ws.flatMap wordBytes ++ rest) = (ws, rest) := by
  induction ws with
  | nil => simp [takeWords]
  | cons w ws ih =>
    have hbytes : (w :: ws).flatMap wordBytes ++ rest =
        UInt8.ofNat w.toNat :: UInt8.ofNat (w.toNat / 2 ^ 8) :: UInt8.ofNat (w.toNat / 2 ^ 16) ::
          UInt8.ofNat (w.toNat / 2 ^ 24) :: (ws.flatMap wordBytes ++ rest) := rfl
    rw [hbytes, List.length_cons, takeWords, ih, wordOfBytes_bytes]

/-- A section of words is read back. -/
theorem wordsOf_flatMap_append (part : Section) {ws : List UInt32} {count : Nat} (h : count = ws.length)
    (rest : List UInt8) : wordsOf part count (ws.flatMap wordBytes ++ rest) = .ok (ws, rest) := by
  have hlong : ¬ (ws.flatMap wordBytes ++ rest).length < count * 4 := by
    rw [List.length_append, length_flatMap_wordBytes]
    omega
  rw [wordsOf, if_neg hlong, h, takeWords_flatMap_append]

/-! ## Texts -/

/-- Rounding up to a multiple of four adds less than four. -/
theorem padded_bounds (n : Nat) : n ≤ padded n ∧ padded n < n + 4 := by
  unfold padded
  omega

/-- The text of a string takes as many bytes as the string says. -/
theorem length_textBytes (s : String) : (textBytes s).length = s.utf8ByteSize := by
  rw [textBytes, String.toUTF8_eq_toByteArray, Array.length_toList, ← String.size_toByteArray]
  rfl

/-- A string is read back from its text. -/
theorem fromUTF8?_textBytes (s : String) : String.fromUTF8? ⟨(textBytes s).toArray⟩ = some s := by
  have hbytes : (⟨(textBytes s).toArray⟩ : ByteArray) = s.toUTF8 := by
    rw [textBytes, Array.toArray_toList]
  rw [hbytes, String.fromUTF8?, String.toUTF8_eq_toByteArray, dif_pos s.isValidUTF8]
  rfl

/-- The text of a string is the encodings of its characters. -/
theorem textBytes_eq_flatMap (s : String) : textBytes s = s.toList.flatMap String.utf8EncodeChar := by
  rw [textBytes, String.toUTF8_eq_toByteArray, ← String.utf8Encode_toList, List.utf8Encode, List.data_toByteArray]

/-- Only the encoding of a NUL has a zero in it. -/
theorem zero_mem_utf8EncodeChar (c : Char) : 0 ∈ String.utf8EncodeChar c ↔ c = '\x00' := by
  constructor
  · intro h
    by_cases hascii : c.toNat < 128
    · rw [Text.utf8EncodeChar_of_ascii hascii] at h
      have hbyte : 0 = c.toNat % 256 := by
        have hbyte := congrArg UInt8.toNat (List.mem_singleton.mp h)
        rwa [UInt8.toNat_ofNat'] at hbyte
      have hzero : c.toNat = 0 := by omega
      exact Char.toNat_inj.mp hzero
    · have hhigh : 128 ≤ (0 : UInt8).toNat := Text.le_of_mem_utf8EncodeChar (Nat.le_of_not_lt hascii) h
      exact absurd hhigh (by decide)
  · rintro rfl
    decide

/-- The text of a string has a zero in it exactly when the string has a NUL. -/
theorem zero_mem_textBytes (s : String) : 0 ∈ textBytes s ↔ '\x00' ∈ s.toList := by
  rw [textBytes_eq_flatMap, List.mem_flatMap]
  constructor
  · rintro ⟨c, hc, h⟩
    rwa [(zero_mem_utf8EncodeChar c).mp h] at hc
  · intro h
    exact ⟨_, h, (zero_mem_utf8EncodeChar _).mpr rfl⟩

/-! ## Strings -/

/-- What is read from bytes that are not all read yet. -/
theorem stringsFrom_of_ne_nil (index : Nat) {bytes : List UInt8} (h : bytes ≠ []) :
    stringsFrom index bytes =
      if (bytes.takeWhile (· != 0)).length = bytes.length then .error (.unterminatedString index)
      else
        match String.fromUTF8? ⟨(bytes.takeWhile (· != 0)).toArray⟩ with
        | none => .error (.invalidString index)
        | some s =>
          (s :: ·) <$> stringsFrom (index + 1) (bytes.drop (padded ((bytes.takeWhile (· != 0)).length + 1))) := by
  cases bytes with
  | nil => exact absurd rfl h
  | cons b bs => exact stringsFrom.eq_2 index b bs

/-- A text without a zero ends where the first zero stands. -/
theorem takeWhile_text {text : List UInt8} (h : 0 ∉ text) (rest : List UInt8) :
    (text ++ 0 :: rest).takeWhile (· != 0) = text := by
  have htext : ∀ b ∈ text, (b != 0) = true := by
    intro b hb
    exact bne_iff_ne.mpr (ne_of_mem_of_not_mem hb h)
  rw [List.takeWhile_append_of_pos htext, List.takeWhile_cons_of_neg (by decide), List.append_nil]

/-- Bytes without a zero have no end of a string in them. -/
theorem stringsFrom_of_no_zero (index : Nat) {bytes : List UInt8} (hne : bytes ≠ []) (h : 0 ∉ bytes) :
    stringsFrom index bytes = .error (.unterminatedString index) := by
  have hall : bytes.takeWhile (· != 0) = bytes := by
    have hkept : ∀ b ∈ bytes, (b != 0) = true := fun b hb => bne_iff_ne.mpr (ne_of_mem_of_not_mem hb h)
    rw [← List.append_nil bytes]
    exact List.takeWhile_append_of_pos hkept
  rw [stringsFrom_of_ne_nil index hne, hall, if_pos rfl]

/-- Behind the padding of a text lie the bytes that are left of those behind its NUL. -/
theorem drop_padded (text more : List UInt8) :
    (text ++ 0 :: more).drop (padded (text.length + 1)) = more.drop (padded (text.length + 1) - (text.length + 1)) := by
  have hlong := (padded_bounds (text.length + 1)).1
  have hpast : padded (text.length + 1) - text.length = padded (text.length + 1) - (text.length + 1) + 1 := by omega
  rw [List.drop_append, List.drop_eq_nil_of_le (by omega), List.nil_append, hpast, List.drop_succ_cons]

/-- Up to a zero bytes are read as the text of a string, and reading goes on where the padding ends. -/
theorem stringsFrom_append_zero (index : Nat) {text : List UInt8} (h : 0 ∉ text) (more : List UInt8) :
    stringsFrom index (text ++ 0 :: more) =
      match String.fromUTF8? ⟨text.toArray⟩ with
      | none => .error (.invalidString index)
      | some s => (s :: ·) <$> stringsFrom (index + 1) (more.drop (padded (text.length + 1) - (text.length + 1))) := by
  have hne : text ++ 0 :: more ≠ [] := by simp
  have hend : ¬ text.length = (text ++ 0 :: more).length := by
    rw [List.length_append, List.length_cons]
    omega
  rw [stringsFrom_of_ne_nil index hne, takeWhile_text h, if_neg hend, drop_padded]

/-- A string is read from its text and a NUL, and reading goes on where its padding ends. -/
theorem stringsFrom_text {s : String} (hs : '\x00' ∉ s.toList) (index : Nat) (more : List UInt8) :
    stringsFrom index (textBytes s ++ 0 :: more) =
      (s :: ·) <$> stringsFrom (index + 1) (more.drop (padded (s.utf8ByteSize + 1) - (s.utf8ByteSize + 1))) := by
  rw [stringsFrom_append_zero index (mt (zero_mem_textBytes s).mp hs), fromUTF8?_textBytes, length_textBytes]

/-- A string is read from its text, a NUL and padding of any value, and reading goes on behind these. -/
theorem stringsFrom_text_append {s : String} (hs : '\x00' ∉ s.toList) {padding : List UInt8}
    (hpad : s.utf8ByteSize + 1 + padding.length = padded (s.utf8ByteSize + 1)) (index : Nat) (rest : List UInt8) :
    stringsFrom index (textBytes s ++ 0 :: (padding ++ rest)) = (s :: ·) <$> stringsFrom (index + 1) rest := by
  rw [stringsFrom_text hs, List.drop_left' (by omega)]

/-- What is written for a string is its text, a NUL and the padding up to the next multiple of four. -/
theorem stringBytes_eq (s : String) :
    stringBytes s = textBytes s ++ 0 :: List.replicate (padded (s.utf8ByteSize + 1) - (s.utf8ByteSize + 1)) 0 := by
  have hsize := (padded_bounds (s.utf8ByteSize + 1)).1
  have hcount : padded (s.utf8ByteSize + 1) - s.utf8ByteSize = padded (s.utf8ByteSize + 1) - (s.utf8ByteSize + 1) + 1 := by
    omega
  simp only [stringBytes, length_textBytes]
  rw [hcount, List.replicate_succ]

/-- A string takes its length, the NUL and the padding. -/
theorem length_stringBytes (s : String) : (stringBytes s).length = padded (s.utf8ByteSize + 1) := by
  have hsize := (padded_bounds (s.utf8ByteSize + 1)).1
  rw [stringBytes_eq, List.length_append, List.length_cons, List.length_replicate, length_textBytes]
  omega

/-- The string section is as long as the header says. -/
theorem length_stringSection (strings : List String) : (stringSection strings).length = stringSectionSize strings := by
  rw [stringSection, List.length_flatMap, stringSectionSize]
  congr 1
  exact List.map_congr_left fun s _ => length_stringBytes s

/-- Strings without a NUL are read back. -/
theorem stringsFrom_stringSection (index : Nat) {strings : List String} (h : ∀ s ∈ strings, '\x00' ∉ s.toList) :
    stringsFrom index (stringSection strings) = .ok strings := by
  induction strings generalizing index with
  | nil => rw [stringSection, List.flatMap_nil, stringsFrom]
  | cons s strings ih =>
    have hs : '\x00' ∉ s.toList := h s List.mem_cons_self
    have hsize := (padded_bounds (s.utf8ByteSize + 1)).1
    have hpad : s.utf8ByteSize + 1 +
        (List.replicate (padded (s.utf8ByteSize + 1) - (s.utf8ByteSize + 1)) (0 : UInt8)).length =
          padded (s.utf8ByteSize + 1) := by
      rw [List.length_replicate]
      omega
    have hbytes : stringSection (s :: strings) = textBytes s ++
        0 :: (List.replicate (padded (s.utf8ByteSize + 1) - (s.utf8ByteSize + 1)) 0 ++ stringSection strings) := by
      rw [stringSection, List.flatMap_cons, stringBytes_eq, List.append_assoc, List.cons_append]
      rfl
    rw [hbytes, stringsFrom_text_append hs hpad, ih (index + 1) fun t ht => h t (List.mem_cons_of_mem _ ht)]
    rfl

/-- The position reported is the one of the first string with a NUL. -/
theorem nulPosition?_eq_some_iff {strings : List String} {index : Nat} :
    nulPosition? strings = some index ↔
      (∃ s, strings[index]? = some s ∧ '\x00' ∈ s.toList) ∧ ∀ i s, i < index → strings[i]? = some s → '\x00' ∉ s.toList := by
  rw [nulPosition?, List.findIdx?_eq_some_iff_getElem]
  constructor
  · rintro ⟨hi, hs, hbefore⟩
    refine ⟨⟨_, List.getElem?_eq_getElem hi, List.contains_iff_mem.mp hs⟩, ?_⟩
    intro i s hlt hget hnul
    obtain ⟨_, rfl⟩ := List.getElem?_eq_some_iff.mp hget
    exact hbefore i hlt (List.contains_iff_mem.mpr hnul)
  · rintro ⟨⟨s, hget, hs⟩, hbefore⟩
    obtain ⟨hi, rfl⟩ := List.getElem?_eq_some_iff.mp hget
    refine ⟨hi, List.contains_iff_mem.mpr hs, ?_⟩
    intro i hlt hnul
    exact hbefore i _ hlt (List.getElem?_eq_getElem (by omega)) (List.contains_iff_mem.mp hnul)

/-- No position is reported exactly when no string has a NUL. -/
theorem nulPosition?_eq_none_iff {strings : List String} :
    nulPosition? strings = none ↔ ∀ s ∈ strings, '\x00' ∉ s.toList := by
  rw [nulPosition?, List.findIdx?_eq_none_iff]
  constructor
  · intro h s hs hnul
    exact Bool.false_ne_true ((h s hs).symm.trans (List.contains_iff_mem.mpr hnul))
  · intro h s hs
    exact Bool.eq_false_iff.mpr fun hnul => h s hs (List.contains_iff_mem.mp hnul)

end Container

end ScriptEngine
