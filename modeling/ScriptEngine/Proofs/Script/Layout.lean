import ScriptEngine.Proofs.Result
import ScriptEngine.Proofs.Script.RoundTrip

/-!
# The layout of a container

The four numbers of the header say how large each part of a container is, and so where it begins: behind the parts in front of it.
Where the words of a part are found and whether a part is complete can be told without reading the parts in front of it. Reading
comes to the same: it stops in the first part that is not complete (`ofBytes_of_cut`), and if all of them are, it finds each word at
its place and is left with the strings (`ofBytes_of_complete`).
-/

namespace ScriptEngine

/-! ## Parts -/

namespace Section

/-- The parts in front of a part. -/
def before : Section → List Section
  | header => []
  | code => [header]
  | ints => [header, code]
  | floats => [header, code, ints]
  | strings => [header, code, ints, floats]

/-- Where a part begins when the parts have some sizes. -/
def start (size : Section → Nat) : Section → Nat
  | header => 0
  | code => size header
  | ints => size header + size code
  | floats => size header + size code + size ints
  | strings => size header + size code + size ints + size floats

/-- Where a part ends. -/
def stop (size : Section → Nat) (part : Section) : Nat := part.start size + size part

/-- A container of some length is cut off in a part: this part is the first one that is not complete. -/
structure Cut (size : Section → Nat) (length : Nat) (part : Section) : Prop where
  complete : ∀ earlier ∈ part.before, earlier.stop size ≤ length
  short : length < part.stop size

variable {size : Section → Nat} {length : Nat} {part : Section}

/-- The part in which a container is cut off is reached. -/
theorem Cut.start_le (h : part.Cut size length) : part.start size ≤ length := by
  cases part with
  | header => exact Nat.zero_le _
  | code => simpa [start, stop] using h.complete header (by decide)
  | ints => simpa [start, stop] using h.complete code (by decide)
  | floats => simpa [start, stop] using h.complete ints (by decide)
  | strings => simpa [start, stop] using h.complete floats (by decide)

/-- A part ends where the last one does or before. -/
theorem stop_le (size : Section → Nat) (part : Section) : part.stop size ≤ strings.stop size := by
  cases part <;> simp only [stop, start] <;> omega

/-- A container is complete, or it is cut off in one of its parts. -/
theorem complete_or_cut (size : Section → Nat) (length : Nat) :
    strings.stop size ≤ length ∨ ∃ part : Section, part.Cut size length := by
  rcases Nat.lt_or_ge length (header.stop size) with hshort | hheader
  · exact Or.inr ⟨header, List.forall_mem_nil _, hshort⟩
  rcases Nat.lt_or_ge length (code.stop size) with hshort | hcode
  · exact Or.inr ⟨code, by simpa [before] using hheader, hshort⟩
  rcases Nat.lt_or_ge length (ints.stop size) with hshort | hints
  · exact Or.inr ⟨ints, by simpa [before] using ⟨hheader, hcode⟩, hshort⟩
  rcases Nat.lt_or_ge length (floats.stop size) with hshort | hfloats
  · exact Or.inr ⟨floats, by simpa [before] using ⟨hheader, hcode, hints⟩, hshort⟩
  rcases Nat.lt_or_ge length (strings.stop size) with hshort | hstrings
  · exact Or.inr ⟨strings, by simpa [before] using ⟨hheader, hcode, hints, hfloats⟩, hshort⟩
  · exact Or.inl hstrings

end Section

namespace Container

/-! ## Words -/

/-- The words that some bytes consist of. -/
def wordsIn : List UInt8 → List UInt32
  | b0 :: b1 :: b2 :: b3 :: rest => wordOfBytes b0 b1 b2 b3 :: wordsIn rest
  | _ => []

/-- As many words are taken as there are bytes for. -/
theorem takeWords_eq {count : Nat} {bytes : List UInt8} (h : 4 * count ≤ bytes.length) :
    takeWords count bytes = (wordsIn (bytes.take (4 * count)), bytes.drop (4 * count)) := by
  induction count generalizing bytes with
  | zero => cases bytes <;> rfl
  | succ count ih =>
    match bytes, h with
    | b0 :: b1 :: b2 :: b3 :: rest, h =>
      have hcount : 4 * count ≤ rest.length := by
        simp only [List.length_cons] at h
        omega
      rw [takeWords, ih hcount, Nat.mul_succ]
      rfl

/-- The words in the bytes of some words are these. -/
theorem wordsIn_flatMap_wordBytes (ws : List UInt32) : wordsIn (ws.flatMap wordBytes) = ws := by
  induction ws with
  | nil => rfl
  | cons w ws ih =>
    change wordOfBytes _ _ _ _ :: wordsIn (ws.flatMap wordBytes) = w :: ws
    rw [wordOfBytes_bytes, ih]

/-- The bytes of the words in some bytes are these, if there is nothing left over. -/
theorem flatMap_wordBytes_wordsIn {count : Nat} {bytes : List UInt8} (h : bytes.length = 4 * count) :
    (wordsIn bytes).flatMap wordBytes = bytes := by
  induction count generalizing bytes with
  | zero =>
    obtain rfl : bytes = [] := List.length_eq_zero_iff.mp h
    rfl
  | succ count ih =>
    match bytes, h with
    | b0 :: b1 :: b2 :: b3 :: rest, h =>
      have hcount : rest.length = 4 * count := by
        simp only [List.length_cons] at h
        omega
      rw [wordsIn, List.flatMap_cons, wordBytes_wordOfBytes, ih hcount]
      rfl

/-- Four bytes are for a word. -/
theorem length_wordsIn {count : Nat} {bytes : List UInt8} (h : bytes.length = 4 * count) : (wordsIn bytes).length = count := by
  have hlength := length_flatMap_wordBytes (wordsIn bytes)
  rw [flatMap_wordBytes_wordsIn h] at hlength
  omega

/-! ## Parts of a container -/

/-- The numbers that the header announces. -/
def countAt (bytes : List UInt8) (i : Nat) : Nat := ((wordsIn (bytes.take 16)).getD i 0).toNat

/-- The sizes of the parts that the header announces. -/
def announced (bytes : List UInt8) : Section → Nat
  | .header => 16
  | .code => 4 * countAt bytes 0
  | .ints => 4 * countAt bytes 1
  | .floats => 4 * countAt bytes 2
  | .strings => countAt bytes 3

/-- The bytes of a part. -/
def partBytes (bytes : List UInt8) (part : Section) : List UInt8 :=
  (bytes.drop (part.start (announced bytes))).take (announced bytes part)

/-- The script that has the words of a container and some strings. -/
def scriptIn (bytes : List UInt8) (strings : List String) : Script where
  code := (wordsIn (partBytes bytes .code)).toArray
  literals :=
    { ints := (wordsIn (partBytes bytes .ints)).map (·.toInt32)
      floats := (wordsIn (partBytes bytes .floats)).map (⟨·⟩)
      strings }

/-- A container has all the bytes that its header announces. -/
def Complete (bytes : List UInt8) : Prop := Section.strings.stop (announced bytes) ≤ bytes.length

instance (bytes : List UInt8) : Decidable (Complete bytes) := inferInstanceAs (Decidable (_ ≤ _))

/-- How many bytes a complete container has. -/
theorem complete_iff (bytes : List UInt8) :
    Complete bytes ↔ 16 + 4 * (countAt bytes 0 + countAt bytes 1 + countAt bytes 2) + countAt bytes 3 ≤ bytes.length := by
  have hstop : Section.strings.stop (announced bytes) =
      16 + 4 * (countAt bytes 0 + countAt bytes 1 + countAt bytes 2) + countAt bytes 3 := by
    simp only [Section.stop, Section.start, announced]
    omega
  rw [Complete, hstop]

variable {bytes : List UInt8} {part : Section} {count : Nat}

/-- Each part of a complete container is complete. -/
theorem Complete.stop_le (h : Complete bytes) (part : Section) : part.stop (announced bytes) ≤ bytes.length :=
  Nat.le_trans (part.stop_le (announced bytes)) h

/-- What follows a complete header does not change what the header announces. -/
theorem announced_append (h : 16 ≤ bytes.length) (rest : List UInt8) : announced (bytes ++ rest) = announced bytes := by
  funext part
  cases part <;> simp only [announced, countAt, List.take_append_of_le_length h]

/-- What follows a complete part does not change the part. -/
theorem partBytes_append (hheader : 16 ≤ bytes.length) (h : part.stop (announced bytes) ≤ bytes.length) (rest : List UInt8) :
    partBytes (bytes ++ rest) part = partBytes bytes part := by
  rw [Section.stop] at h
  have hsize : announced bytes part ≤ (bytes.drop (part.start (announced bytes))).length := by
    rw [List.length_drop]
    omega
  rw [partBytes, partBytes, announced_append hheader, List.drop_append_of_le_length (by omega), List.take_append_of_le_length hsize]

/-- In a complete container each part has all its bytes. -/
theorem length_partBytes (h : Complete bytes) (part : Section) :
    (partBytes bytes part).length = announced bytes part := by
  have hpart := h.stop_le part
  rw [Section.stop] at hpart
  rw [partBytes, List.length_take, List.length_drop]
  omega

/-- The bytes of a container are those of its parts and what follows them. -/
theorem parts_append (bytes : List UInt8) :
    partBytes bytes .header ++ (partBytes bytes .code ++ (partBytes bytes .ints ++ (partBytes bytes .floats ++
      (partBytes bytes .strings ++ bytes.drop (Section.strings.stop (announced bytes)))))) = bytes := by
  have hlast (part : Section) :
      partBytes bytes part ++ bytes.drop (part.stop (announced bytes)) = bytes.drop (part.start (announced bytes)) := by
    rw [partBytes, Section.stop, ← List.drop_drop, List.take_append_drop]
  have hnext (part next : Section) (h : next.start (announced bytes) = part.stop (announced bytes)) :
      partBytes bytes part ++ bytes.drop (next.start (announced bytes)) = bytes.drop (part.start (announced bytes)) := by
    rw [h, hlast]
  rw [hlast .strings, hnext .floats .strings rfl, hnext .ints .floats rfl, hnext .code .ints rfl, hnext .header .code rfl]
  rfl

/-- The words of a part are read if the part is complete. -/
theorem wordsOf_of_complete (hsize : announced bytes part = 4 * count) (h : part.stop (announced bytes) ≤ bytes.length) :
    wordsOf part count (bytes.drop (part.start (announced bytes))) =
      .ok (wordsIn (partBytes bytes part), bytes.drop (part.stop (announced bytes))) := by
  rw [Section.stop, hsize] at h
  have hcount : 4 * count ≤ (bytes.drop (part.start (announced bytes))).length := by
    rw [List.length_drop]
    omega
  rw [wordsOf, if_neg (by omega), takeWords_eq hcount, List.drop_drop, partBytes, Section.stop, hsize]

/-- The words of a part are not read if the container is cut off in it. -/
theorem wordsOf_of_cut (hsize : announced bytes part = 4 * count) (h : part.Cut (announced bytes) bytes.length) :
    wordsOf part count (bytes.drop (part.start (announced bytes))) =
      .error (.truncated part (announced bytes part) (bytes.length - part.start (announced bytes))) := by
  have hstart := h.start_le
  have hshort := h.short
  rw [Section.stop, hsize] at hshort
  rw [wordsOf, List.length_drop, if_pos (by omega), hsize, Nat.mul_comm]

end Container

namespace Script

open Container

/-- In a container that is complete the words are read from their places, and the strings from their section. -/
theorem ofBytes_of_complete {bytes : List UInt8} (h : Complete bytes) :
    ofBytes bytes = scriptIn bytes <$> stringsFrom 0 (partBytes bytes .strings) := by
  have hlong : countAt bytes 3 ≤ (bytes.drop (Section.floats.stop (announced bytes))).length := by
    rw [List.length_drop]
    exact Nat.le_sub_of_add_le' h
  exact ofBytes_of_sections (wordsOf_of_complete rfl (h.stop_le .header)) (wordsOf_of_complete rfl (h.stop_le .code))
    (wordsOf_of_complete rfl (h.stop_le .ints)) (wordsOf_of_complete rfl (h.stop_le .floats)) rfl hlong

/-- What follows a complete container plays no part. -/
theorem ofBytes_append_of_complete {bytes : List UInt8} (h : Complete bytes) (rest : List UInt8) :
    ofBytes (bytes ++ rest) = ofBytes bytes := by
  have hheader : 16 ≤ bytes.length := h.stop_le .header
  have hlong : Complete (bytes ++ rest) := by
    rw [Complete, announced_append hheader, List.length_append]
    exact Nat.le_add_right_of_le h
  have hpart (part : Section) := partBytes_append hheader (h.stop_le part) rest
  have hscript : scriptIn (bytes ++ rest) = scriptIn bytes := by
    funext strings
    simp only [scriptIn, hpart]
  rw [ofBytes_of_complete hlong, ofBytes_of_complete h, hpart, hscript]

/-- Reading a container that is cut off in one of its parts fails there. -/
theorem ofBytes_of_cut {bytes : List UInt8} {part : Section} (h : part.Cut (announced bytes) bytes.length) :
    ofBytes bytes =
      .error (.truncated part (announced bytes part) (bytes.length - part.start (announced bytes))) := by
  have hread (earlier : Section) {count : Nat} (hearlier : earlier ∈ part.before) (hsize : announced bytes earlier = 4 * count) :=
    wordsOf_of_complete hsize (h.complete earlier hearlier)
  cases part with
  | header => exact bind_eq_error_iff.mpr (Or.inl (wordsOf_of_cut rfl h))
  | code =>
    refine bind_eq_error_iff.mpr (Or.inr ⟨_, hread .header (by decide) rfl, ?_⟩)
    exact bind_eq_error_iff.mpr (Or.inl (wordsOf_of_cut rfl h))
  | ints =>
    refine bind_eq_error_iff.mpr (Or.inr ⟨_, hread .header (by decide) rfl, ?_⟩)
    refine bind_eq_error_iff.mpr (Or.inr ⟨_, hread .code (by decide) rfl, ?_⟩)
    exact bind_eq_error_iff.mpr (Or.inl (wordsOf_of_cut rfl h))
  | floats =>
    refine bind_eq_error_iff.mpr (Or.inr ⟨_, hread .header (by decide) rfl, ?_⟩)
    refine bind_eq_error_iff.mpr (Or.inr ⟨_, hread .code (by decide) rfl, ?_⟩)
    refine bind_eq_error_iff.mpr (Or.inr ⟨_, hread .ints (by decide) rfl, ?_⟩)
    exact bind_eq_error_iff.mpr (Or.inl (wordsOf_of_cut rfl h))
  | strings =>
    refine bind_eq_error_iff.mpr (Or.inr ⟨_, hread .header (by decide) rfl, ?_⟩)
    refine bind_eq_error_iff.mpr (Or.inr ⟨_, hread .code (by decide) rfl, ?_⟩)
    refine bind_eq_error_iff.mpr (Or.inr ⟨_, hread .ints (by decide) rfl, ?_⟩)
    refine bind_eq_error_iff.mpr (Or.inr ⟨_, hread .floats (by decide) rfl, ?_⟩)
    have hshort : (bytes.drop (Section.floats.stop (announced bytes))).length < countAt bytes 3 := by
      rw [List.length_drop]
      exact Nat.sub_lt_left_of_lt_add h.start_le h.short
    refine (if_pos hshort).trans (bind_eq_error_iff.mpr (Or.inl ?_))
    rw [List.length_drop]
    rfl

/-! ## The layout of a stored script -/

/-- The sizes of the parts of a script that is stored. -/
def partSize (s : Script) : Section → Nat
  | .header => 16
  | .code => 4 * s.code.size
  | .ints => 4 * s.literals.ints.length
  | .floats => 4 * s.literals.floats.length
  | .strings => stringSectionSize s.literals.strings

variable {s : Script} {bytes : List UInt8}

/-- The last part ends where the container does. -/
theorem stop_partSize (hbytes : s.toBytes = .ok bytes) : Section.strings.stop s.partSize = bytes.length := by
  rw [← (toBytes_eq_ok_iff.mp hbytes).2, length_layout]
  simp only [Section.stop, Section.start, partSize]
  omega

/-- The header announces the numbers in it. -/
theorem countAt_of_toBytes (hbytes : s.toBytes = .ok bytes) (i : Nat) : countAt bytes i = (s.header.getD i 0).toNat := by
  have hheader : bytes.take 16 = s.header.flatMap wordBytes := by
    rw [← (toBytes_eq_ok_iff.mp hbytes).2, words]
    simp only [List.flatMap_append, List.append_assoc]
    exact List.take_left' (length_flatMap_wordBytes s.header)
  rw [countAt, hheader, wordsIn_flatMap_wordBytes]

/-- The header announces the parts as they are. -/
theorem CountsFit.announced_eq (h : s.CountsFit) (hbytes : s.toBytes = .ok bytes) : announced bytes = s.partSize := by
  have hcount := countAt_of_toBytes hbytes
  funext part
  cases part with
  | header => rfl
  | code =>
    rw [announced, hcount]
    exact congrArg (4 * ·) (UInt32.toNat_ofNat_of_lt' h.code)
  | ints =>
    rw [announced, hcount]
    exact congrArg (4 * ·) (UInt32.toNat_ofNat_of_lt' h.ints)
  | floats =>
    rw [announced, hcount]
    exact congrArg (4 * ·) (UInt32.toNat_ofNat_of_lt' h.floats)
  | strings =>
    rw [announced, hcount]
    exact UInt32.toNat_ofNat_of_lt' h.strings

/-- The last part consists of the strings. -/
theorem CountsFit.partBytes_strings (h : s.CountsFit) (hbytes : s.toBytes = .ok bytes) :
    partBytes bytes .strings = stringSection s.literals.strings := by
  have hwords : Section.strings.start s.partSize = (s.words.flatMap wordBytes).length := by
    have hstop := stop_partSize hbytes
    rw [← (toBytes_eq_ok_iff.mp hbytes).2, List.length_append, length_stringSection, Section.stop] at hstop
    exact Nat.add_right_cancel hstop
  rw [partBytes, h.announced_eq hbytes, hwords, ← (toBytes_eq_ok_iff.mp hbytes).2, List.drop_left' rfl, partSize,
    List.take_of_length_le (Nat.le_of_eq (length_stringSection _))]

end Script

end ScriptEngine
