import ScriptEngine.Proofs.Script.Sections

/-!
# Scripts are read back from their containers

A script that a container can hold is read back from it, bit for bit. Only a NUL in a string is refused when a script is
written, and then nothing is written at all.
-/

namespace ScriptEngine

open Container

namespace Script

/-- Each number of the header of a container fits in its word. -/
structure CountsFit (s : Script) : Prop where
  code : s.code.size < 2 ^ 32
  ints : s.literals.ints.length < 2 ^ 32
  floats : s.literals.floats.length < 2 ^ 32
  strings : stringSectionSize s.literals.strings < 2 ^ 32

/-- What a container can hold: each number of the header fits in its word, and no string has a NUL. -/
structure Storable (s : Script) : Prop extends CountsFit s where
  nulFree : ∀ t ∈ s.literals.strings, '\x00' ∉ t.toList

/-- The bytes of a container. -/
theorem toBytes_eq (s : Script) :
    s.toBytes =
      match nulPosition? s.literals.strings with
      | some index => .error (.nulInString index)
      | none => .ok (s.words.flatMap wordBytes ++ stringSection s.literals.strings) := by
  unfold toBytes writeTo
  cases nulPosition? s.literals.strings <;> rfl

/-- What is read when every section is complete. -/
theorem ofBytes_of_sections {bytes r0 r1 r2 r3 : List UInt8} {counts code ints floats : List UInt32} {size : Nat}
    (hheader : wordsOf .header 4 bytes = .ok (counts, r0))
    (hcode : wordsOf .code (counts.getD 0 0).toNat r0 = .ok (code, r1))
    (hints : wordsOf .ints (counts.getD 1 0).toNat r1 = .ok (ints, r2))
    (hfloats : wordsOf .floats (counts.getD 2 0).toNat r2 = .ok (floats, r3))
    (hsize : (counts.getD 3 0).toNat = size) (hlong : size ≤ r3.length) :
    ofBytes bytes =
      (fun strings =>
        { code := code.toArray, literals := { ints := ints.map (·.toInt32), floats := floats.map (⟨·⟩), strings } }) <$>
          stringsFrom 0 (r3.take size) := by
  simp only [ofBytes, bind, Except.bind, hheader, hcode, hints, hfloats, hsize, if_neg (Nat.not_lt.mpr hlong)]
  cases stringsFrom 0 (r3.take size) <;> rfl

/-- A script is read back from its container, whatever follows it. -/
theorem ofBytes_append {s : Script} (hs : s.Storable) (rest : List UInt8) :
    ofBytes (s.words.flatMap wordBytes ++ stringSection s.literals.strings ++ rest) = .ok s := by
  have hbytes : s.words.flatMap wordBytes ++ stringSection s.literals.strings ++ rest =
      s.header.flatMap wordBytes ++ (s.code.toList.flatMap wordBytes ++
        ((s.literals.ints.map (·.toUInt32)).flatMap wordBytes ++ ((s.literals.floats.map (·.bits)).flatMap wordBytes ++
          (stringSection s.literals.strings ++ rest)))) := by
    simp only [words, List.flatMap_append, List.append_assoc]
  have hheader : 4 = s.header.length := rfl
  have hcode : (s.header.getD 0 0).toNat = s.code.toList.length := by
    simpa [header] using UInt32.toNat_ofNat_of_lt' hs.code
  have hints : (s.header.getD 1 0).toNat = (s.literals.ints.map (·.toUInt32)).length := by
    simpa [header] using UInt32.toNat_ofNat_of_lt' hs.ints
  have hfloats : (s.header.getD 2 0).toNat = (s.literals.floats.map (·.bits)).length := by
    simpa [header] using UInt32.toNat_ofNat_of_lt' hs.floats
  have hsize : (s.header.getD 3 0).toNat = (stringSection s.literals.strings).length := by
    simpa [header, length_stringSection] using UInt32.toNat_ofNat_of_lt' hs.strings
  have hlong : (stringSection s.literals.strings).length ≤ (stringSection s.literals.strings ++ rest).length := by
    rw [List.length_append]
    omega
  have hstrings : stringsFrom 0 ((stringSection s.literals.strings ++ rest).take (stringSection s.literals.strings).length) =
      .ok s.literals.strings := by
    rw [List.take_left' rfl, stringsFrom_stringSection 0 hs.nulFree]
  rw [hbytes, ofBytes_of_sections (wordsOf_flatMap_append .header hheader _) (wordsOf_flatMap_append .code hcode _)
    (wordsOf_flatMap_append .ints hints _) (wordsOf_flatMap_append .floats hfloats _) hsize hlong, hstrings]
  simp only [List.map_map, Function.comp_def, Int32.toInt32_toUInt32, List.map_id_fun', id_eq]
  rfl

/-- A script that was stored has no NUL in a string, and its container consists of its words and its strings. -/
theorem toBytes_eq_ok_iff {s : Script} {bytes : List UInt8} :
    s.toBytes = .ok bytes ↔
      (∀ t ∈ s.literals.strings, '\x00' ∉ t.toList) ∧ s.words.flatMap wordBytes ++ stringSection s.literals.strings = bytes := by
  rw [toBytes_eq, ← nulPosition?_eq_none_iff]
  cases nulPosition? s.literals.strings <;> simp

/-- A script that was stored is one that a container can hold, if the numbers of the header fit. -/
theorem CountsFit.storable {s : Script} (h : s.CountsFit) {bytes : List UInt8} (hbytes : s.toBytes = .ok bytes) : s.Storable :=
  ⟨h, (toBytes_eq_ok_iff.mp hbytes).1⟩

/-- What was stored is read back, whatever follows it. -/
theorem CountsFit.ofBytes_append {s : Script} (h : s.CountsFit) {bytes : List UInt8} (hbytes : s.toBytes = .ok bytes)
    (rest : List UInt8) : ofBytes (bytes ++ rest) = .ok s := by
  rw [← (toBytes_eq_ok_iff.mp hbytes).2]
  exact Script.ofBytes_append (h.storable hbytes) rest

/-- What was stored is read back. -/
theorem CountsFit.ofBytes_of_toBytes {s : Script} (h : s.CountsFit) {bytes : List UInt8} (hbytes : s.toBytes = .ok bytes) :
    ofBytes bytes = .ok s := by
  simpa using h.ofBytes_append hbytes []

/-- A script with a NUL in a string is not stored. -/
theorem toBytes_of_nul {s : Script} {t : String} (ht : t ∈ s.literals.strings) (hnul : '\x00' ∈ t.toList) :
    ∃ err, s.toBytes = .error err := by
  cases hbytes : s.toBytes with
  | error err => exact ⟨err, rfl⟩
  | ok bytes => exact absurd hnul ((toBytes_eq_ok_iff.mp hbytes).1 t ht)

/-- The length of a container. -/
theorem length_layout (s : Script) :
    (s.words.flatMap wordBytes ++ stringSection s.literals.strings).length =
      16 + 4 * (s.code.size + s.literals.ints.length + s.literals.floats.length) +
        stringSectionSize s.literals.strings := by
  have hheader : s.header.length = 4 := rfl
  rw [List.length_append, length_flatMap_wordBytes, length_stringSection, words]
  simp only [List.length_append, List.length_map, Array.length_toList, hheader]
  omega

/-- A script that a container can hold is stored and read back, bit for bit. A script with a NUL in a string is refused at the
first such string, and nothing of it is written. -/
theorem container_round_trip (s : Script) :
    (s.Storable → ∃ bytes, s.toBytes = .ok bytes ∧
      bytes.length = 16 + 4 * (s.code.size + s.literals.ints.length + s.literals.floats.length) +
        stringSectionSize s.literals.strings ∧
      ofBytes bytes = .ok s) ∧
    ((∃ t ∈ s.literals.strings, '\x00' ∈ t.toList) → ∃ i t, s.literals.strings[i]? = some t ∧ '\x00' ∈ t.toList ∧
      (∀ j u, j < i → s.literals.strings[j]? = some u → '\x00' ∉ u.toList) ∧
      s.toBytes = .error (.nulInString i) ∧ ∀ written, s.writeTo written = (.error (.nulInString i), written)) := by
  constructor
  · intro hs
    have hnul : nulPosition? s.literals.strings = none := nulPosition?_eq_none_iff.mpr hs.nulFree
    refine ⟨s.words.flatMap wordBytes ++ stringSection s.literals.strings, ?_, s.length_layout, ?_⟩
    · rw [toBytes_eq, hnul]
    · have hread := ofBytes_append hs []
      rwa [List.append_nil] at hread
  · rintro ⟨u, hu, hnul⟩
    cases hposition : nulPosition? s.literals.strings with
    | none => exact absurd hnul (nulPosition?_eq_none_iff.mp hposition u hu)
    | some i =>
      obtain ⟨⟨t, hget, ht⟩, hfirst⟩ := nulPosition?_eq_some_iff.mp hposition
      refine ⟨i, t, hget, ht, hfirst, ?_, ?_⟩
      · rw [toBytes_eq, hposition]
      · intro written
        rw [writeTo, hposition]

/-- A script with a NaN, a negative zero and strings that are empty, alike and not in ASCII. -/
def mixed : Script where
  code := #[0x40000000, 0xffffffff]
  literals := { ints := [-1, 7], floats := [⟨0x7fc00001⟩, ⟨0x80000000⟩], strings := ["", "né", "né", "日本語"] }

/-- A script with two strings that hold a NUL. -/
def severed : Script where
  literals := { strings := ["whole", "a\x00b", "\x00"] }

/-- The first script is stored in 64 bytes, and the second one is refused. -/
theorem container_round_trip_mixed :
    mixed.Storable ∧ (∃ bytes, mixed.toBytes = .ok bytes ∧ bytes.length = 64 ∧ ofBytes bytes = .ok mixed) ∧
      ∃ i, severed.toBytes = .error (.nulInString i) ∧ ∀ written, severed.writeTo written = (.error (.nulInString i), written) := by
  have hmixed : mixed.Storable :=
    { nulFree := by decide, code := by decide, ints := by decide, floats := by decide, strings := by decide }
  obtain ⟨i, -, -, -, -, hrefused⟩ := (container_round_trip severed).2 ⟨"a\x00b", by decide, by decide⟩
  exact ⟨hmixed, (container_round_trip mixed).1 hmixed, i, hrefused⟩

end Script

end ScriptEngine
