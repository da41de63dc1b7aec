import ScriptEngine.Proofs.Script.Reading

/-!
# The normal form of a container

Reading is laxer than storing: padding may have any value, the last string may lack padding, and anything may follow. Reading a
container and storing what was read makes it normal. It stays as it is exactly when it is free of all three, and this can be seen on
the chunks that the string section splits into, each of them by itself (`Splits.stringSection_eq_iff`).
-/

namespace ScriptEngine

namespace Container

/-! ## Chunks -/

/-- A chunk is what is written for its text if its padding is complete and consists of zeros. -/
theorem Chunk.stringBytes_text_iff (c : Chunk) : stringBytes c.text = c.bytes ↔ c.Full ∧ ∀ b ∈ c.padding, b = 0 := by
  rw [stringBytes_eq, bytes, List.append_cancel_left_eq, List.cons_inj_right, eq_comm, List.eq_replicate_iff, full_iff]

/-- A full chunk is as long as what is written for its text. -/
theorem Chunk.Full.length_stringBytes {c : Chunk} (h : c.Full) : (stringBytes c.text).length = c.bytes.length := by
  have hfits := c.fits
  rw [Container.length_stringBytes, c.length_bytes, c.full_iff.mp h]
  omega

/-- Behind the first of several chunks there are the others. -/
theorem Splits.tail {bytes : List UInt8} {c d : Chunk} {chunks : List Chunk} (h : Splits bytes (c :: d :: chunks)) :
    c.Full ∧ ∃ rest, Splits rest (d :: chunks) ∧ c.bytes ++ rest = bytes := by
  obtain ⟨hfull, rfl⟩ := h
  rw [List.dropLast_cons_cons] at hfull
  obtain ⟨hc, hrest⟩ := List.forall_mem_cons.mp hfull
  exact ⟨hc, _, ⟨hrest, rfl⟩, List.flatMap_cons.symm⟩

/-- What is written for the texts of some chunks is as long as they are when the last one is filled up. -/
theorem Splits.stringSectionSize_eq {bytes : List UInt8} {chunks : List Chunk} (h : Splits bytes chunks) :
    stringSectionSize (chunks.map (·.text)) = padded bytes.length := by
  induction chunks generalizing bytes with
  | nil =>
    obtain rfl := h.bytes_eq
    rfl
  | cons c chunks ih =>
    have hfits := c.fits
    have hlength := c.length_bytes
    cases chunks with
    | nil =>
      obtain rfl := h.bytes_eq
      rw [List.flatMap_singleton, hlength]
      change padded (c.text.utf8ByteSize + 1) + 0 = _
      unfold padded at hfits ⊢
      omega
    | cons d chunks =>
      obtain ⟨hfull, rest, hrest, rfl⟩ := h.tail
      have hcomplete : 4 ∣ c.bytes.length := hfull
      rw [List.length_append]
      change padded (c.text.utf8ByteSize + 1) + stringSectionSize ((d :: chunks).map (·.text)) = _
      rw [ih hrest]
      unfold padded at hfits ⊢
      omega

/-- The chunks are what is written for their texts exactly when all padding consists of zeros and the last one is full, too. -/
theorem Splits.stringSection_eq_iff {bytes : List UInt8} {chunks : List Chunk} (h : Splits bytes chunks) :
    stringSection (chunks.map (·.text)) = bytes ↔
      (∀ c ∈ chunks, ∀ b ∈ c.padding, b = 0) ∧ ∀ c ∈ chunks.getLast?, c.Full := by
  induction chunks generalizing bytes with
  | nil =>
    obtain rfl := h.bytes_eq
    simp [stringSection]
  | cons c chunks ih =>
    cases chunks with
    | nil =>
      obtain rfl := h.bytes_eq
      simp [stringSection, c.stringBytes_text_iff, and_comm]
    | cons d chunks =>
      obtain ⟨hfull, rest, hrest, rfl⟩ := h.tail
      have hsection : stringSection ((c :: d :: chunks).map (·.text)) =
          stringBytes c.text ++ stringSection ((d :: chunks).map (·.text)) := List.flatMap_cons
      have hparts : stringBytes c.text ++ stringSection ((d :: chunks).map (·.text)) = c.bytes ++ rest ↔
          stringBytes c.text = c.bytes ∧ stringSection ((d :: chunks).map (·.text)) = rest := by
        constructor
        · intro heq
          exact List.append_inj heq hfull.length_stringBytes
        · rintro ⟨hc, hothers⟩
          rw [hc, hothers]
      rw [hsection, hparts, List.forall_mem_cons, c.stringBytes_text_iff, ih hrest, List.getLast?_cons_cons]
      simp only [hfull, true_and, and_assoc]

/-! ## Containers -/

/-- A container has the form in which a script is stored: its string section, which splits into some chunks, has zeros for padding
and is filled up, and nothing follows it. -/
structure Normal (bytes : List UInt8) (chunks : List Chunk) : Prop where
  zeros : ∀ c ∈ chunks, ∀ b ∈ c.padding, b = 0
  lastFull : ∀ c ∈ chunks.getLast?, c.Full
  ends : bytes.length = Section.strings.stop (announced bytes)

/-- The header consists of the numbers that it announces. -/
theorem wordsIn_header {bytes : List UInt8} (h : 16 ≤ bytes.length) :
    wordsIn (bytes.take 16) = [UInt32.ofNat (countAt bytes 0), UInt32.ofNat (countAt bytes 1), UInt32.ofNat (countAt bytes 2),
      UInt32.ofNat (countAt bytes 3)] := by
  have hlength : (wordsIn (bytes.take 16)).length = 4 := length_wordsIn (List.length_take_of_le h)
  match hwords : wordsIn (bytes.take 16), hlength with
  | [w0, w1, w2, w3], _ => simp [countAt, hwords]

end Container

namespace Script

open Container

variable {bytes : List UInt8} {strings : List String}

/-- As many words are read as the header announces. -/
theorem counts_scriptIn (strings : List String) (h : Complete bytes) :
    (scriptIn bytes strings).code.size = countAt bytes 0 ∧ (scriptIn bytes strings).literals.ints.length = countAt bytes 1 ∧
      (scriptIn bytes strings).literals.floats.length = countAt bytes 2 := by
  refine ⟨length_wordsIn (length_partBytes h .code), ?_, ?_⟩
  · exact (List.length_map _).trans (length_wordsIn (length_partBytes h .ints))
  · exact (List.length_map _).trans (length_wordsIn (length_partBytes h .floats))

/-- Words are stored as they were read. -/
theorem words_scriptIn (h : Complete bytes) :
    (scriptIn bytes strings).words.flatMap wordBytes =
      (scriptIn bytes strings).header.flatMap wordBytes ++
        (partBytes bytes .code ++ (partBytes bytes .ints ++ partBytes bytes .floats)) := by
  simp only [words, scriptIn, List.map_map, Function.comp_def, UInt32.toUInt32_toInt32, List.map_id_fun', id_eq,
    List.flatMap_append, List.append_assoc, flatMap_wordBytes_wordsIn (length_partBytes h .code),
    flatMap_wordBytes_wordsIn (length_partBytes h .ints), flatMap_wordBytes_wordsIn (length_partBytes h .floats)]

/-- The header is stored as it was read if the string section keeps its length. -/
theorem header_scriptIn (h : Complete bytes)
    (hstrings : stringSectionSize strings = countAt bytes 3) :
    (scriptIn bytes strings).header.flatMap wordBytes = partBytes bytes .header := by
  have hheader : 16 ≤ bytes.length := h.stop_le .header
  obtain ⟨hcode, hints, hfloats⟩ := counts_scriptIn strings h
  have hlength : (bytes.take 16).length = 4 * 4 := List.length_take_of_le hheader
  have hsection : stringSectionSize (scriptIn bytes strings).literals.strings = countAt bytes 3 := hstrings
  rw [header, hcode, hints, hfloats, hsection, ← wordsIn_header hheader, flatMap_wordBytes_wordsIn hlength]
  rfl

variable {chunks : List Chunk}

/-- The strings that are read take as many bytes as the header announces, up to the padding of the last one. -/
theorem stringSectionSize_scriptIn (h : Complete bytes) (hsplits : Splits (partBytes bytes .strings) chunks) :
    stringSectionSize (chunks.map (·.text)) = padded (countAt bytes 3) := by
  rw [hsplits.stringSectionSize_eq, length_partBytes h .strings]
  rfl

/-- What was read of a container that is shorter than 4 GiB can be stored again. -/
theorem countsFit_scriptIn (hbytes : bytes.length < 2 ^ 32) (h : Complete bytes)
    (hsplits : Splits (partBytes bytes .strings) chunks) : (scriptIn bytes (chunks.map (·.text))).CountsFit := by
  obtain ⟨hcode, hints, hfloats⟩ := counts_scriptIn (chunks.map (·.text)) h
  have hstrings := stringSectionSize_scriptIn h hsplits
  have hpadded := (padded_bounds (countAt bytes 3)).2
  rw [complete_iff] at h
  refine ⟨?_, ?_, ?_, ?_⟩
  · omega
  · omega
  · omega
  · change stringSectionSize (chunks.map (·.text)) < 2 ^ 32
    omega

/-- What was read of a container is stored as the same bytes exactly when the container is in normal form. -/
theorem toBytes_scriptIn_iff (hbytes : bytes.length < 2 ^ 32) (h : Complete bytes)
    (hsplits : Splits (partBytes bytes .strings) chunks) :
    (scriptIn bytes (chunks.map (·.text))).toBytes = .ok bytes ↔ Normal bytes chunks := by
  constructor
  · intro hstored
    have hfit := countsFit_scriptIn hbytes h hsplits
    have hsection := (hfit.partBytes_strings hstored).symm
    obtain ⟨hzeros, hlast⟩ := hsplits.stringSection_eq_iff.mp hsection
    refine ⟨hzeros, hlast, ?_⟩
    rw [hfit.announced_eq hstored, stop_partSize hstored]
  · rintro ⟨hzeros, hlast, hends⟩
    have hsection : stringSection (chunks.map (·.text)) = partBytes bytes .strings :=
      hsplits.stringSection_eq_iff.mpr ⟨hzeros, hlast⟩
    have hsize : stringSectionSize (chunks.map (·.text)) = countAt bytes 3 := by
      rw [← length_stringSection, hsection, length_partBytes h .strings]
      rfl
    have hrest : bytes.drop (Section.strings.stop (announced bytes)) = [] := List.drop_eq_nil_of_le (Nat.le_of_eq hends)
    have hparts := parts_append bytes
    rw [hrest, List.append_nil] at hparts
    refine toBytes_eq_ok_iff.mpr ⟨List.forall_mem_map.mpr fun c _ => c.nulFree, ?_⟩
    rw [words_scriptIn h, header_scriptIn h hsize]
    change _ ++ stringSection (chunks.map (·.text)) = bytes
    simp only [hsection, List.append_assoc, hparts]

/-- Storing what was read makes a container normal. Whatever a container shorter than 4 GiB looks like, what was read of it can be
stored again and is read back from there, and storing it once more changes nothing. The bytes are those of the container itself
exactly when it is in normal form. -/
theorem storing_what_was_read {s : Script} (hbytes : bytes.length < 2 ^ 32) (hread : ofBytes bytes = .ok s) :
    ∃ normal, s.toBytes = .ok normal ∧ ofBytes normal = .ok s ∧ ofBytes normal >>= toBytes = .ok normal ∧
      (∃ chunks, Splits (partBytes bytes .strings) chunks) ∧
      ∀ chunks, Splits (partBytes bytes .strings) chunks → (normal = bytes ↔ Normal bytes chunks) := by
  obtain ⟨h, chunks, hsplits, rfl⟩ := ofBytes_eq_ok_iff.mp hread
  obtain ⟨normal, hstored⟩ : ∃ normal, (scriptIn bytes (chunks.map (·.text))).toBytes = .ok normal :=
    ⟨_, toBytes_eq_ok_iff.mpr ⟨List.forall_mem_map.mpr fun c _ => c.nulFree, rfl⟩⟩
  have hback := (countsFit_scriptIn hbytes h hsplits).ofBytes_of_toBytes hstored
  refine ⟨normal, hstored, hback, ?_, ⟨chunks, hsplits⟩, ?_⟩
  · exact bind_eq_ok_iff.mpr ⟨_, hback, hstored⟩
  · intro others hothers
    have htexts : chunks.map (·.text) = others.map (·.text) :=
      Except.ok.inj ((hsplits.stringsFrom_eq 0).symm.trans (hothers.stringsFrom_eq 0))
    rw [← toBytes_scriptIn_iff hbytes h hothers, ← htexts, hstored, Except.ok.injEq]

/-- A container of two strings. The first one has padding that is not zero, the second one has none, and a byte follows. -/
def loose : List UInt8 := [0, 0, 0, 0, 0, 0, 0, 0, 0, 0, 0, 0, 6, 0, 0, 0, 97, 0, 1, 2, 98, 0, 9]

/-- The chunks that its string section splits into. -/
def looseChunks : List Chunk :=
  [⟨"a", [1, 2], by decide, by decide⟩, ⟨"b", [], by decide, by decide⟩]

/-- What was read of this container is stored as other bytes. -/
theorem storing_what_was_read_loose :
    loose.length < 2 ^ 32 ∧ ofBytes loose = .ok { literals := { strings := ["a", "b"] } } ∧
      ∃ normal, toBytes { literals := { strings := ["a", "b"] } } = .ok normal ∧
        ofBytes normal = .ok { literals := { strings := ["a", "b"] } } ∧ normal ≠ loose := by
  have hbytes : loose.length < 2 ^ 32 := by decide
  have hsplits : Splits (partBytes loose .strings) looseChunks := ⟨by decide, by decide⟩
  have hread : ofBytes loose = .ok { literals := { strings := ["a", "b"] } } :=
    ofBytes_eq_ok_iff.mpr ⟨by decide, looseChunks, hsplits, rfl⟩
  obtain ⟨normal, hstored, hback, -, -, hnormal⟩ := storing_what_was_read hbytes hread
  refine ⟨hbytes, hread, normal, hstored, hback, ?_⟩
  intro heq
  have hends := ((hnormal looseChunks hsplits).mp heq).ends
  exact absurd hends (by decide)

end Script

end ScriptEngine
