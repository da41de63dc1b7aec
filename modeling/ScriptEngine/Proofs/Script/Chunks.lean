import ScriptEngine.Proofs.Script.Sections

/-!
# String sections split into chunks

The grammar of a string section, and that reading accepts exactly this. A section is a sequence of chunks, one for each string: the
text, a NUL, and padding of any value up to a multiple of four bytes, of which the last chunk may lack some or all. Reading fails
at the first place where no chunk begins: there is no NUL in what is left, or the bytes before the NUL are not UTF-8.

Any bytes do the one or the other (`splits_or_breaks`), by induction on their length: a zero in them ends a text, and the padding
behind it is as long as the chunk has room for, or the bytes end there. Reading takes the chunks one by one.
-/

namespace ScriptEngine

namespace Container

/-- A string as it stands in a container: its text, a NUL, and padding of any value, up to a multiple of four bytes at most. -/
structure Chunk where
  text : String
  padding : List UInt8
  nulFree : '\x00' ∉ text.toList
  fits : text.utf8ByteSize + 1 + padding.length ≤ padded (text.utf8ByteSize + 1)

namespace Chunk

/-- The bytes of a chunk. -/
def bytes (c : Chunk) : List UInt8 := textBytes c.text ++ 0 :: c.padding

/-- The padding of a chunk is complete. -/
def Full (c : Chunk) : Prop := 4 ∣ c.bytes.length

instance (c : Chunk) : Decidable c.Full := inferInstanceAs (Decidable (4 ∣ _))

theorem length_bytes (c : Chunk) : c.bytes.length = c.text.utf8ByteSize + 1 + c.padding.length := by
  rw [bytes, List.length_append, List.length_cons, length_textBytes]
  omega

/-- The padding is complete when it has all the bytes that belong there. -/
theorem full_iff (c : Chunk) : c.Full ↔ c.padding.length = padded (c.text.utf8ByteSize + 1) - (c.text.utf8ByteSize + 1) := by
  have hfits := c.fits
  rw [Full, length_bytes]
  unfold padded at hfits ⊢
  omega

/-- The text before a zero begins a chunk, of which the padding is what follows the zero, as far as there is any. -/
theorem exists_chunk {s : String} (hs : '\x00' ∉ s.toList) (more : List UInt8) :
    ∃ c : Chunk, c.text = s ∧ (c.Full ∨ more.drop c.padding.length = []) ∧
      textBytes s ++ 0 :: more = c.bytes ++ more.drop c.padding.length := by
  let room := padded (s.utf8ByteSize + 1) - (s.utf8ByteSize + 1)
  have hlong := (padded_bounds (s.utf8ByteSize + 1)).1
  have hfits : s.utf8ByteSize + 1 + (more.take room).length ≤ padded (s.utf8ByteSize + 1) := by
    rw [List.length_take]
    omega
  have hrest : more.take room ++ more.drop (more.take room).length = more := by
    rw [List.length_take]
    rcases Nat.le_total room more.length with hroom | hroom
    · rw [Nat.min_eq_left hroom, List.take_append_drop]
    · rw [Nat.min_eq_right hroom, List.take_of_length_le hroom, List.drop_length, List.append_nil]
  refine ⟨⟨s, more.take room, hs, hfits⟩, rfl, ?_, ?_⟩
  · rw [full_iff, List.length_take]
    rcases Nat.le_total room more.length with hroom | hroom
    · exact Or.inl (Nat.min_eq_left hroom)
    · exact Or.inr (by rw [Nat.min_eq_right hroom, List.drop_length])
  · simp only [bytes, List.append_assoc, List.cons_append, hrest]

/-- A chunk is read, and reading goes on behind it, if its padding is complete or nothing is behind it. -/
theorem stringsFrom_append (c : Chunk) (index : Nat) {rest : List UInt8} (h : c.Full ∨ rest = []) :
    stringsFrom index (c.bytes ++ rest) = (c.text :: ·) <$> stringsFrom (index + 1) rest := by
  have hfits := c.fits
  have hbehind : (c.padding ++ rest).drop (padded (c.text.utf8ByteSize + 1) - (c.text.utf8ByteSize + 1)) = rest := by
    rcases h with hfull | rfl
    · exact List.drop_left' (c.full_iff.mp hfull)
    · rw [List.append_nil, List.drop_eq_nil_of_le (by omega)]
  rw [bytes, List.append_assoc, List.cons_append, stringsFrom_text c.nulFree, hbehind]

end Chunk

/-- Some bytes split into chunks, all full but perhaps the last one. -/
structure Splits (bytes : List UInt8) (chunks : List Chunk) : Prop where
  full : ∀ c ∈ chunks.dropLast, c.Full
  bytes_eq : chunks.flatMap Chunk.bytes = bytes

/-- Why no chunk begins with some bytes, as the error for a string at position `index`: they have no zero in them, or what stands
before the first zero is the text of no string. -/
inductive BadChunk (index : Nat) : List UInt8 → ContainerError → Prop where
  | unterminated {bytes : List UInt8} : bytes ≠ [] → 0 ∉ bytes → BadChunk index bytes (.unterminatedString index)
  | invalid {text more : List UInt8} : 0 ∉ text → (∀ s, textBytes s ≠ text) →
      BadChunk index (text ++ 0 :: more) (.invalidString index)

/-- Full chunks lead to a place in some bytes where no chunk begins. The first chunk is for the string at position `index`. -/
def Breaks (index : Nat) (bytes : List UInt8) (e : ContainerError) : Prop :=
  ∃ (chunks : List Chunk) (rest : List UInt8), (∀ c ∈ chunks, c.Full) ∧ chunks.flatMap Chunk.bytes ++ rest = bytes ∧
    BadChunk (index + chunks.length) rest e

/-! ## Chunk by chunk -/

theorem Splits.cons {bytes : List UInt8} {chunks : List Chunk} (h : Splits bytes chunks) {c : Chunk} (hc : c.Full) :
    Splits (c.bytes ++ bytes) (c :: chunks) := by
  obtain ⟨hfull, rfl⟩ := h
  refine ⟨?_, List.flatMap_cons⟩
  cases chunks with
  | nil => exact List.forall_mem_nil _
  | cons d chunks => exact List.forall_mem_cons.mpr ⟨hc, hfull⟩

theorem Breaks.here {index : Nat} {bytes : List UInt8} {e : ContainerError} (h : BadChunk index bytes e) :
    Breaks index bytes e :=
  ⟨[], bytes, List.forall_mem_nil _, rfl, h⟩

theorem Breaks.cons {index : Nat} {bytes : List UInt8} {e : ContainerError} (h : Breaks (index + 1) bytes e) {c : Chunk}
    (hc : c.Full) : Breaks index (c.bytes ++ bytes) e := by
  obtain ⟨chunks, rest, hfull, rfl, hbad⟩ := h
  refine ⟨c :: chunks, rest, List.forall_mem_cons.mpr ⟨hc, hfull⟩, ?_, ?_⟩
  · rw [List.flatMap_cons, List.append_assoc]
  · rwa [List.length_cons, Nat.add_comm chunks.length, ← Nat.add_assoc]

/-! ## What is read -/

/-- Bytes that are UTF-8 are the text of the string that they are read as. -/
theorem textBytes_of_fromUTF8? {text : List UInt8} {s : String} (h : String.fromUTF8? ⟨text.toArray⟩ = some s) :
    textBytes s = text := by
  unfold String.fromUTF8? at h
  split at h
  · cases h
    rfl
  · cases h

/-- Where no chunk begins, reading fails. -/
theorem BadChunk.stringsFrom_eq {index : Nat} {bytes : List UInt8} {e : ContainerError} (h : BadChunk index bytes e) :
    stringsFrom index bytes = .error e := by
  cases h with
  | unterminated hne hzero => exact stringsFrom_of_no_zero index hne hzero
  | @invalid text more hzero hnone =>
    rw [stringsFrom_append_zero index hzero]
    cases hutf8 : String.fromUTF8? ⟨text.toArray⟩ with
    | none => rfl
    | some s => exact absurd (textBytes_of_fromUTF8? hutf8) (hnone s)

/-- Full chunks are read one by one. -/
theorem stringsFrom_chunks {chunks : List Chunk} (h : ∀ c ∈ chunks, c.Full) (index : Nat) (rest : List UInt8) :
    stringsFrom index (chunks.flatMap Chunk.bytes ++ rest) =
      (chunks.map (·.text) ++ ·) <$> stringsFrom (index + chunks.length) rest := by
  induction chunks generalizing index with
  | nil => exact (id_map _).symm
  | cons c chunks ih =>
    rw [List.flatMap_cons, List.append_assoc, c.stringsFrom_append index (Or.inl (h c List.mem_cons_self)),
      ih (fun d hd => h d (List.mem_cons_of_mem c hd)), List.length_cons, Nat.add_assoc, Nat.add_comm 1]
    cases stringsFrom (index + (chunks.length + 1)) rest <;> rfl

/-- Bytes that split into chunks are read as the texts of these. -/
theorem Splits.stringsFrom_eq {bytes : List UInt8} {chunks : List Chunk} (h : Splits bytes chunks) (index : Nat) :
    stringsFrom index bytes = .ok (chunks.map (·.text)) := by
  obtain ⟨hfull, rfl⟩ := h
  rcases List.eq_nil_or_concat chunks with rfl | ⟨front, last, rfl⟩
  · rw [List.flatMap_nil, stringsFrom]
    rfl
  · rw [List.concat_eq_append, List.dropLast_concat] at hfull
    have hlast : last.bytes = last.bytes ++ [] := (List.append_nil _).symm
    rw [List.concat_eq_append, List.flatMap_append, List.flatMap_singleton, stringsFrom_chunks hfull, hlast,
      last.stringsFrom_append _ (Or.inr rfl), stringsFrom, List.map_append]
    rfl

/-- Where full chunks lead to a place where no chunk begins, reading fails. -/
theorem Breaks.stringsFrom_eq {index : Nat} {bytes : List UInt8} {e : ContainerError} (h : Breaks index bytes e) :
    stringsFrom index bytes = .error e := by
  obtain ⟨chunks, rest, hfull, rfl, hbad⟩ := h
  rw [stringsFrom_chunks hfull, hbad.stringsFrom_eq]
  rfl

/-- Any bytes split into chunks, or full chunks lead to a place where no chunk begins. -/
theorem splits_or_breaks (index : Nat) (bytes : List UInt8) :
    (∃ chunks, Splits bytes chunks) ∨ ∃ e, Breaks index bytes e := by
  induction hlength : bytes.length using Nat.strongRecOn generalizing index bytes with
  | ind n ih =>
    by_cases hne : bytes = []
    · exact Or.inl ⟨[], List.forall_mem_nil _, hne.symm⟩
    by_cases hzero : 0 ∈ bytes
    · obtain ⟨text, more, rfl, htext⟩ := List.eq_append_cons_of_mem hzero
      by_cases hutf8 : ∃ s, textBytes s = text
      · obtain ⟨s, rfl⟩ := hutf8
        obtain ⟨c, -, hlast, hbytes⟩ := Chunk.exists_chunk (mt (zero_mem_textBytes s).mpr htext) more
        rw [hbytes]
        rcases hlast with hfull | hlast
        · have hshorter : (more.drop c.padding.length).length < n := by
            rw [← hlength, List.length_append, List.length_cons, List.length_drop]
            omega
          rcases ih _ hshorter (index + 1) _ rfl with ⟨chunks, hsplits⟩ | ⟨e, hbreaks⟩
          · exact Or.inl ⟨c :: chunks, hsplits.cons hfull⟩
          · exact Or.inr ⟨e, hbreaks.cons hfull⟩
        · rw [hlast, List.append_nil]
          exact Or.inl ⟨[c], List.forall_mem_nil _, List.flatMap_singleton _ _⟩
      · exact Or.inr ⟨_, .here (.invalid htext (not_exists.mp hutf8))⟩
    · exact Or.inr ⟨_, .here (.unterminated hne hzero)⟩

/-- A string section is read exactly when it splits into chunks, and the strings are the texts of these. -/
theorem stringsFrom_eq_ok_iff {index : Nat} {bytes : List UInt8} {strings : List String} :
    stringsFrom index bytes = .ok strings ↔ ∃ chunks, Splits bytes chunks ∧ chunks.map (·.text) = strings := by
  constructor
  · intro h
    rcases splits_or_breaks index bytes with ⟨chunks, hsplits⟩ | ⟨e, hbreaks⟩
    · rw [hsplits.stringsFrom_eq] at h
      exact ⟨chunks, hsplits, Except.ok.inj h⟩
    · rw [hbreaks.stringsFrom_eq] at h
      cases h
  · rintro ⟨chunks, hsplits, rfl⟩
    exact hsplits.stringsFrom_eq index

/-- Reading a string section fails exactly when full chunks lead to a place where no chunk begins. -/
theorem stringsFrom_eq_error_iff {index : Nat} {bytes : List UInt8} {e : ContainerError} :
    stringsFrom index bytes = .error e ↔ Breaks index bytes e := by
  constructor
  · intro h
    rcases splits_or_breaks index bytes with ⟨chunks, hsplits⟩ | ⟨e', hbreaks⟩
    · rw [hsplits.stringsFrom_eq] at h
      cases h
    · rw [hbreaks.stringsFrom_eq] at h
      exact Except.error.inj h ▸ hbreaks
  · exact Breaks.stringsFrom_eq

end Container

end ScriptEngine
