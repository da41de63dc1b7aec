import ScriptEngine.Machine.Dispatch
import ScriptEngine.Proofs.Word.Codec

/-!
# Words and the instructions that fit

Decoding and encoding are inverse to each other between the words whose selector is assigned and the instructions whose fields
fit. The words without an instruction are those from the selector `110011` on, and a machine reports each of them as invalid.
-/

namespace ScriptEngine

/-- The words that belong to no segment are those whose topmost six bits are `110011` or above. -/
theorem Segment.ofWord?_eq_none_iff (word : Nat) : ofWord? word = none ↔ 0b110011 ≤ word / 2 ^ 26 := by
  have hsplit : word / 2 ^ 30 = word / 2 ^ 26 / 2 ^ 4 := by rw [Nat.div_div_eq_div_mul]
  unfold ofWord?
  -- What is left of the word are its two topmost bits and its six topmost bits.
  generalize word / 2 ^ 30 = high, word / 2 ^ 26 = selector at hsplit ⊢
  split
  · exact iff_of_false nofun (by omega)
  · exact iff_of_false nofun (by omega)
  · exact iff_of_false nofun (by omega)
  · rename_i hzero hone htwo
    have hhigh : high ≠ 0 ∧ high ≠ 1 ∧ high ≠ 2 := ⟨hzero, hone, htwo⟩
    split
    · exact iff_of_false nofun (by omega)
    · exact iff_of_false nofun (by omega)
    · exact iff_of_false nofun (by omega)
    · rename_i hthree hfour hfive
      have hselector : selector ≠ 0b110000 ∧ selector ≠ 0b110001 ∧ selector ≠ 0b110010 := ⟨hthree, hfour, hfive⟩
      exact iff_of_true rfl (by omega)

/-- A machine reports a word as invalid exactly when the word has no instruction, whatever handlers there are. -/
theorem Dispatch.actionOf_eq_invalidWord_iff {σ : Type} (d : Dispatch σ) {word : UInt32} :
    d.actionOf word = .error (.invalidWord word) ↔ Instruction.decode? word = none := by
  unfold actionOf action
  cases hdecode : Instruction.decode? word with
  | none => simp
  | some i => cases hhandler : d.handler? i.opcode <;> simp [hhandler]

namespace Instruction

/-- A word has no instruction exactly when its topmost six bits are `110011` or above. -/
theorem decode?_eq_none_iff {word : UInt32} : decode? word = none ↔ 0b110011 ≤ word.toNat / 2 ^ 26 := by
  rw [decode?, Option.map_eq_none_iff, Segment.ofWord?_eq_none_iff]

/-- In an instruction that fits, the arguments that the segment does not carry are zero. -/
theorem Fits.eq_zero_of_mem_drop {i : Instruction} (h : i.Fits) :
    ∀ arg ∈ [i.arg0, i.arg1].drop i.opcode.segment.arity, arg = 0 := by
  obtain ⟨⟨s, code⟩, arg0, arg1⟩ := i
  obtain ⟨-, h0, h1⟩ := h
  cases s with
  | one | four => exact nofun
  | zero | two | three => exact List.forall_mem_singleton.mpr (Nat.lt_one_iff.mp h1)
  | five => exact List.forall_mem_cons.mpr ⟨Nat.lt_one_iff.mp h0, List.forall_mem_singleton.mpr (Nat.lt_one_iff.mp h1)⟩

/-- Words and instructions that fit correspond one to one. A word is invalid exactly when its topmost six bits are `110011` or
above; any other word decodes to an instruction that fits, in which the arguments that the segment does not carry are zero and
which has the word as its code. Decoding what was encoded cuts each field to its width, and so gives back exactly the
instructions that fit. -/
theorem words_correspond_to_instructions :
    (∀ word : UInt32,
      (decode? word = none ↔ 0b110011 ≤ word.toNat / 2 ^ 26) ∧
      (∀ {σ : Type} (d : Dispatch σ), d.actionOf word = .error (.invalidWord word) ↔ 0b110011 ≤ word.toNat / 2 ^ 26) ∧
      ∀ i, decode? word = some i →
        i.opcode.Fits ∧ i.arg0 < 2 ^ i.opcode.segment.layout.firstBits ∧ i.arg1 < 2 ^ i.opcode.segment.layout.secondBits ∧
          (∀ arg ∈ [i.arg0, i.arg1].drop i.opcode.segment.arity, arg = 0) ∧ i.encode = word) ∧
    (∀ (s : Segment) (code arg0 arg1 : Nat),
      decode? (encode ⟨⟨s, code⟩, arg0, arg1⟩) =
        some ⟨⟨s, code % s.opcodeLimit⟩, arg0 % 2 ^ s.layout.firstBits, arg1 % 2 ^ s.layout.secondBits⟩) ∧
    ∀ i : Instruction, decode? i.encode = some i ↔ i.Fits := by
  refine ⟨fun word => ⟨decode?_eq_none_iff, ?_, ?_⟩, ?_, ?_⟩
  · intro σ d
    rw [d.actionOf_eq_invalidWord_iff, decode?_eq_none_iff]
  · intro i hdecode
    obtain ⟨hfits, hencode⟩ := decode?_eq_some_iff.mp hdecode
    exact ⟨hfits.1, hfits.2.1, hfits.2.2, hfits.eq_zero_of_mem_drop, hencode⟩
  · intro s code arg0 arg1
    rw [decode?_encode_eq_cut]
    rfl
  · intro i
    exact decode?_eq_some_iff.trans (and_iff_left rfl)

end Instruction

end ScriptEngine
