import ScriptEngine.Proofs.Script.Normal

/-!
# Scripts that are too large

The header has a word for each of its numbers, and storing keeps the low 32 bits of a number without looking at the others. So no
script is refused for its size. A number that needs more bits is announced as its remainder, and then the bytes that were stored
stand for another script or for none (`read_back_iff_countsFit`). Nothing need show that: a code that is too long is read as the
words at its beginning that are announced (`ofBytes_of_code`).
-/

namespace ScriptEngine

open Container

namespace Script

variable {s : Script} {bytes : List UInt8}

/-! ## What the header announces -/

/-- The numbers of a header are announced up to multiples of `2 ^ 32`. -/
structure AnnouncedMod (s : Script) (bytes : List UInt8) : Prop where
  code : countAt bytes 0 = s.code.size % 2 ^ 32
  ints : countAt bytes 1 = s.literals.ints.length % 2 ^ 32
  floats : countAt bytes 2 = s.literals.floats.length % 2 ^ 32
  strings : countAt bytes 3 = stringSectionSize s.literals.strings % 2 ^ 32

/-- The header of a script that was stored has the remainders of its sizes. -/
theorem announcedMod_of_toBytes (hbytes : s.toBytes = .ok bytes) : s.AnnouncedMod bytes := by
  have hcount := countAt_of_toBytes hbytes
  refine ⟨?_, ?_, ?_, ?_⟩
  · exact (hcount 0).trans UInt32.toNat_ofNat'
  · exact (hcount 1).trans UInt32.toNat_ofNat'
  · exact (hcount 2).trans UInt32.toNat_ofNat'
  · exact (hcount 3).trans UInt32.toNat_ofNat'

/-- A script that is read back from its container has a header that fits: what is read has the sizes that are announced, and the
strings take as many bytes as announced, up to padding. -/
theorem countsFit_of_read_back (hbytes : s.toBytes = .ok bytes) (hread : ofBytes bytes = .ok s) : s.CountsFit := by
  have hmod := announcedMod_of_toBytes hbytes
  obtain ⟨hcomplete, chunks, hsplits, rfl⟩ := ofBytes_eq_ok_iff.mp hread
  obtain ⟨hcode, hints, hfloats⟩ := counts_scriptIn (chunks.map (·.text)) hcomplete
  have hstrings := stringSectionSize_scriptIn hcomplete hsplits
  refine ⟨?_, ?_, ?_, ?_⟩
  · rw [hcode, hmod.code]
    exact Nat.mod_lt _ (by decide)
  · rw [hints, hmod.ints]
    exact Nat.mod_lt _ (by decide)
  · rw [hfloats, hmod.floats]
    exact Nat.mod_lt _ (by decide)
  · -- A remainder that is rounded up may reach the limit, but then it would be zero.
    have hremainder := hmod.strings
    change stringSectionSize (chunks.map (·.text)) < 2 ^ 32
    change countAt bytes 3 = stringSectionSize (chunks.map (·.text)) % 2 ^ 32 at hremainder
    unfold padded at hstrings
    omega

/-- A script is read back from its container exactly when the numbers of its header fit. -/
theorem read_back_iff_countsFit (hbytes : s.toBytes = .ok bytes) : ofBytes bytes = .ok s ↔ s.CountsFit :=
  ⟨countsFit_of_read_back hbytes, fun h => h.ofBytes_of_toBytes hbytes⟩

/-! ## Code that is too long -/

/-- The words at the beginning of a code, as many as the header announces of it. -/
def announcedCode (code : Array UInt32) : Array UInt32 := code.take (code.size % 2 ^ 32)

/-- As many words are announced as the header says. -/
theorem size_announcedCode (code : Array UInt32) : (announcedCode code).size = code.size % 2 ^ 32 := by
  rw [announcedCode, Array.take_eq_extract, Array.size_extract, Nat.sub_zero, Nat.min_eq_left (Nat.mod_le _ _)]

/-- The container of a code begins with that of the words announced, and the other words of the code follow. -/
theorem words_of_code (code : Array UInt32) :
    words { code } = words { code := announcedCode code } ++ code.toList.drop (code.size % 2 ^ 32) := by
  have hheader : header { code } = header { code := announcedCode code } := by
    have hcount : UInt32.ofNat (announcedCode code).size = UInt32.ofNat code.size := by
      rw [size_announcedCode]
      exact UInt32.toNat_inj.mp (by simp)
    rw [header, header, hcount]
  have hcode : (announcedCode code).toList ++ code.toList.drop (code.size % 2 ^ 32) = code.toList := by
    rw [announcedCode, Array.take_eq_extract, Array.toList_extract, List.extract_eq_take_drop, List.drop_zero, Nat.sub_zero,
      List.take_append_drop]
  change header { code } ++ code.toList ++ [] ++ [] = header { code := announcedCode code } ++ (announcedCode code).toList ++ [] ++ [] ++ _
  rw [hheader, List.append_nil, List.append_nil, List.append_nil, List.append_nil, List.append_assoc, hcode]

/-- Code without literals is stored, and of it the words are read that the header announces. -/
theorem ofBytes_of_code (code : Array UInt32) :
    ∃ bytes, toBytes { code } = .ok bytes ∧ ofBytes bytes = .ok { code := announcedCode code } := by
  have hfront : Storable { code := announcedCode code } :=
    { nulFree := List.forall_mem_nil _
      code := by
        rw [size_announcedCode]
        exact Nat.mod_lt _ (by decide)
      ints := Nat.two_pow_pos 32
      floats := Nat.two_pow_pos 32
      strings := Nat.two_pow_pos 32 }
  refine ⟨_, toBytes_eq_ok_iff.mpr ⟨List.forall_mem_nil _, rfl⟩, ?_⟩
  have hread := ofBytes_append hfront ((code.toList.drop (code.size % 2 ^ 32)).flatMap wordBytes)
  change ofBytes ((words { code := announcedCode code }).flatMap wordBytes ++ [] ++ _) = _ at hread
  change ofBytes ((words { code }).flatMap wordBytes ++ []) = _
  rw [words_of_code, List.flatMap_append, List.append_nil]
  rwa [List.append_nil] at hread

/-! ## No script is refused for its size -/

/-- A script without a NUL in its strings is stored, however large it is. Its header has the remainders of its sizes modulo `2 ^
32`, and it is read back from its container exactly when the sizes are these remainders. -/
theorem stored_whatever_its_size (h : ∀ t ∈ s.literals.strings, '\x00' ∉ t.toList) :
    ∃ bytes, s.toBytes = .ok bytes ∧ countAt bytes 0 = s.code.size % 2 ^ 32 ∧
      countAt bytes 1 = s.literals.ints.length % 2 ^ 32 ∧ countAt bytes 2 = s.literals.floats.length % 2 ^ 32 ∧
      countAt bytes 3 = stringSectionSize s.literals.strings % 2 ^ 32 ∧ (ofBytes bytes = .ok s ↔ s.CountsFit) := by
  have hbytes : s.toBytes = .ok (s.words.flatMap wordBytes ++ stringSection s.literals.strings) := toBytes_eq_ok_iff.mpr ⟨h, rfl⟩
  have hmod := announcedMod_of_toBytes hbytes
  exact ⟨_, hbytes, hmod.code, hmod.ints, hmod.floats, hmod.strings, read_back_iff_countsFit hbytes⟩

/-- A script of some words that are all zero. -/
def zeros (n : Nat) : Script := { code := Array.replicate n 0 }

/-- A script of `2 ^ 32` words is stored, with a header that announces none, and is not read back. -/
theorem zeros_stored_whatever_its_size :
    (∀ t ∈ (zeros (2 ^ 32)).literals.strings, '\x00' ∉ t.toList) ∧
      ∃ bytes, (zeros (2 ^ 32)).toBytes = .ok bytes ∧ countAt bytes 0 = 0 ∧ ofBytes bytes ≠ .ok (zeros (2 ^ 32)) := by
  have hnul : ∀ t ∈ (zeros (2 ^ 32)).literals.strings, '\x00' ∉ t.toList := List.forall_mem_nil _
  have hsize : (zeros (2 ^ 32)).code.size = 2 ^ 32 := Array.size_replicate
  obtain ⟨bytes, hbytes, hcode, -, -, -, hback⟩ := stored_whatever_its_size hnul
  refine ⟨hnul, bytes, hbytes, ?_, ?_⟩
  · rw [hcode, hsize]
  · intro hread
    exact Nat.lt_irrefl _ (hsize ▸ (hback.mp hread).code)

/-- No string of this script has a NUL and its code does not fit, but it is not refused, and what is read of the bytes that were
stored for it is the script without any words. -/
theorem zeros_read_as_nothing :
    (∀ t ∈ (zeros (2 ^ 32)).literals.strings, '\x00' ∉ t.toList) ∧ (zeros (2 ^ 32)).code.size = 2 ^ 32 ∧
      zeros (2 ^ 32) ≠ {} ∧ ∃ bytes, (zeros (2 ^ 32)).toBytes = .ok bytes ∧ ofBytes bytes = .ok {} := by
  have hsize : (zeros (2 ^ 32)).code.size = 2 ^ 32 := Array.size_replicate
  refine ⟨List.forall_mem_nil _, hsize, ?_, ?_⟩
  · intro heq
    rw [heq] at hsize
    cases hsize
  · obtain ⟨bytes, hbytes, hread⟩ := ofBytes_of_code (zeros (2 ^ 32)).code
    have hnone : announcedCode (zeros (2 ^ 32)).code = #[] := by
      refine Array.eq_empty_of_size_eq_zero ?_
      rw [size_announcedCode, hsize]
    rw [hnone] at hread
    exact ⟨bytes, hbytes, hread⟩

end Script

end ScriptEngine
