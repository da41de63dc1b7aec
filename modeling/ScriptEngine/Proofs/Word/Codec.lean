import ScriptEngine.Word.Instruction

/-!
# Encoding and decoding words

A word is a number in mixed radix: the selector, the opcode field and the two arguments are its digits, from the topmost down.
The fields of a packed word are therefore read back one by one, each cut to its width, for any layout at all; only the selector
has to be looked at segment by segment. Decoding an encoded instruction gives the instruction with its fields cut, and so the
instruction itself when all of them fit.
-/

namespace ScriptEngine

/-! ## Fields of a packed word -/

namespace Layout

/-- How many bits lie below the selector. -/
def fieldBits (l : Layout) : Nat := l.opcodeBits + l.firstBits + l.secondBits

/-- The selector of a word. -/
def selectorOf (l : Layout) (word : Nat) : Nat := word / 2 ^ l.fieldBits

/-- A packed word in mixed radix. -/
theorem pack_eq (l : Layout) (code arg0 arg1 : Nat) :
    l.pack code arg0 arg1 =
      ((l.selector * 2 ^ l.opcodeBits + code % 2 ^ l.opcodeBits) * 2 ^ l.firstBits + arg0 % 2 ^ l.firstBits) *
        2 ^ l.secondBits + arg1 % 2 ^ l.secondBits := by
  simp only [pack, Nat.pow_add, Nat.add_mul, Nat.mul_assoc]

/-- The higher digits of a number whose lowest digit is split off. -/
theorem digits_above (high low width : Nat) : (high * 2 ^ width + low % 2 ^ width) / 2 ^ width = high := by
  have hpos : 0 < 2 ^ width := Nat.two_pow_pos width
  rw [Nat.add_comm, Nat.add_mul_div_right _ _ hpos, Nat.div_eq_of_lt (Nat.mod_lt _ hpos), Nat.zero_add]

/-- The lowest digit of a number. -/
theorem digit_below (high low width : Nat) : (high * 2 ^ width + low % 2 ^ width) % 2 ^ width = low % 2 ^ width := by
  rw [Nat.add_comm, Nat.add_mul_mod_self_right, Nat.mod_mod]

theorem secondOf_pack (l : Layout) (code arg0 arg1 : Nat) :
    l.secondOf (l.pack code arg0 arg1) = arg1 % 2 ^ l.secondBits := by
  rw [secondOf, pack_eq, digit_below]

theorem firstOf_pack (l : Layout) (code arg0 arg1 : Nat) :
    l.firstOf (l.pack code arg0 arg1) = arg0 % 2 ^ l.firstBits := by
  rw [firstOf, pack_eq, digits_above, digit_below]

theorem codeOf_pack (l : Layout) (code arg0 arg1 : Nat) :
    l.codeOf (l.pack code arg0 arg1) = code % 2 ^ l.opcodeBits := by
  rw [codeOf, pack_eq, Nat.add_comm l.firstBits, Nat.pow_add, ← Nat.div_div_eq_div_mul, digits_above, digits_above,
    digit_below]

theorem selectorOf_pack (l : Layout) (code arg0 arg1 : Nat) : l.selectorOf (l.pack code arg0 arg1) = l.selector := by
  have hbits : l.fieldBits = l.secondBits + (l.firstBits + l.opcodeBits) := by
    simp only [fieldBits]
    omega
  rw [selectorOf, pack_eq, hbits, Nat.pow_add, Nat.pow_add, ← Nat.div_div_eq_div_mul, ← Nat.div_div_eq_div_mul,
    digits_above, digits_above, digits_above]

/-- A word with the selector of a layout is packed from its fields. -/
theorem pack_fields (l : Layout) {word : Nat} (h : l.selectorOf word = l.selector) :
    l.pack (l.codeOf word) (l.firstOf word) (l.secondOf word) = word := by
  have hselector : l.selector = word / 2 ^ l.secondBits / 2 ^ l.firstBits / 2 ^ l.opcodeBits := by
    rw [← h, selectorOf, Nat.div_div_eq_div_mul, Nat.div_div_eq_div_mul, ← Nat.pow_add, ← Nat.pow_add, fieldBits]
    congr 2
    omega
  have hcode : l.codeOf word = word / 2 ^ l.secondBits / 2 ^ l.firstBits % 2 ^ l.opcodeBits := by
    rw [codeOf, Nat.div_div_eq_div_mul, ← Nat.pow_add, Nat.add_comm]
  rw [pack_eq, hselector, hcode, firstOf, secondOf, Nat.mod_mod, Nat.mod_mod, Nat.mod_mod, Nat.div_add_mod',
    Nat.div_add_mod', Nat.div_add_mod']

end Layout

/-! ## Selectors -/

namespace Segment

/-- A word belongs to a segment exactly when it has the selector of the segment. -/
theorem ofWord?_eq_some_iff (word : Nat) (s : Segment) :
    ofWord? word = some s ↔ s.layout.selectorOf word = s.layout.selector := by
  constructor
  · intro h
    unfold ofWord? at h
    split at h
    · cases h
      assumption
    · cases h
      assumption
    · cases h
      assumption
    · split at h
      · cases h
        assumption
      · cases h
        assumption
      · cases h
        assumption
      · cases h
  · intro h
    cases s <;> simp only [Layout.selectorOf, Layout.fieldBits, layout, Nat.reduceAdd, Nat.add_zero] at h
    case zero | one | two => simp only [ofWord?, h]
    case three | four | five =>
      have hhigh : word / 2 ^ 30 = 3 := by omega
      simp only [ofWord?, h, hhigh]

/-- The selector of a layout has as many bits as the layout gives it. -/
theorem selector_lt (s : Segment) : s.layout.selector < 2 ^ s.layout.selectorBits := by
  cases s <;> decide

/-- No field is wider than a word. -/
theorem argBits_le (s : Segment) : ∀ bits ∈ s.argBits, bits ≤ 32 := by
  have hwidth := s.layout_width
  exact List.forall_mem_cons.mpr ⟨by omega, List.forall_mem_singleton.mpr (by omega)⟩

/-- The packed words of a segment are words. -/
theorem pack_lt (s : Segment) (code arg0 arg1 : Nat) : s.layout.pack code arg0 arg1 < 2 ^ 32 := by
  have hsel := s.layout.selectorOf_pack code arg0 arg1
  have hwidth := s.layout_width
  have hbits : (2 : Nat) ^ 32 = 2 ^ s.layout.selectorBits * 2 ^ s.layout.fieldBits := by
    rw [← Nat.pow_add, Layout.fieldBits, ← hwidth]
    congr 1
    omega
  rw [hbits, ← Nat.div_lt_iff_lt_mul (Nat.two_pow_pos _), ← Layout.selectorOf, hsel]
  exact s.selector_lt

end Segment

/-! ## Instructions -/

namespace Instruction

/-- Nothing of an instruction is cut when it is packed into a word. -/
def Fits (i : Instruction) : Prop :=
  i.opcode.Fits ∧ i.arg0 < 2 ^ i.opcode.segment.layout.firstBits ∧ i.arg1 < 2 ^ i.opcode.segment.layout.secondBits

/-- An instruction with each field cut to the bits that its segment has for it. -/
def cut (i : Instruction) : Instruction where
  opcode := ⟨i.opcode.segment, i.opcode.code % i.opcode.segment.opcodeLimit⟩
  arg0 := i.arg0 % 2 ^ i.opcode.segment.layout.firstBits
  arg1 := i.arg1 % 2 ^ i.opcode.segment.layout.secondBits

/-- An instruction that fits is not changed by cutting its fields. -/
theorem Fits.cut_eq {i : Instruction} (h : i.Fits) : i.cut = i := by
  obtain ⟨hcode, h0, h1⟩ := h
  simp only [cut, Nat.mod_eq_of_lt hcode, Nat.mod_eq_of_lt h0, Nat.mod_eq_of_lt h1]

/-- The word of an instruction, as a number. -/
theorem toNat_encode (i : Instruction) :
    i.encode.toNat = i.opcode.segment.layout.pack i.opcode.code i.arg0 i.arg1 := by
  rw [encode, UInt32.toNat_ofNat', Nat.mod_eq_of_lt (i.opcode.segment.pack_lt _ _ _)]

/-- Decoding an encoded instruction gives the instruction with its fields cut. -/
theorem decode?_encode_eq_cut (i : Instruction) : decode? i.encode = some i.cut := by
  have hseg : Segment.ofWord? i.encode.toNat = some i.opcode.segment := by
    rw [Segment.ofWord?_eq_some_iff, toNat_encode, Layout.selectorOf_pack]
  rw [decode?, hseg, Option.map_some, toNat_encode, Layout.codeOf_pack, Layout.firstOf_pack, Layout.secondOf_pack]
  rfl

/-- Decoding undoes encoding for instructions that fit. -/
theorem Fits.decode?_encode {i : Instruction} (h : i.Fits) : decode? i.encode = some i := by
  rw [decode?_encode_eq_cut, h.cut_eq]

/-- A word decodes to the instruction that fits and has the word as its code. -/
theorem decode?_eq_some_iff {word : UInt32} {i : Instruction} : decode? word = some i ↔ i.Fits ∧ i.encode = word := by
  constructor
  · intro h
    obtain ⟨s, hs, rfl⟩ := Option.map_eq_some_iff.mp h
    have hpos (width : Nat) : 0 < 2 ^ width := Nat.two_pow_pos width
    refine ⟨⟨Nat.mod_lt _ (hpos _), Nat.mod_lt _ (hpos _), Nat.mod_lt _ (hpos _)⟩, UInt32.toNat_inj.mp ?_⟩
    rw [toNat_encode]
    exact s.layout.pack_fields ((Segment.ofWord?_eq_some_iff _ _).mp hs)
  · rintro ⟨hfits, rfl⟩
    exact hfits.decode?_encode

/-! ## Arguments -/

/-- An instruction has as many arguments as its segment carries. -/
theorem length_args (i : Instruction) : i.args.length = i.opcode.segment.arity := by
  have harity : i.opcode.segment.arity ≤ 2 := List.countP_le_length
  rw [args, List.length_take]
  exact Nat.min_eq_left harity

/-- In an instruction that fits, the arguments are all there is: one that the segment does not carry is zero. -/
theorem Fits.getD_args {i : Instruction} (h : i.Fits) : i.args.getD 0 0 = i.arg0 ∧ i.args.getD 1 0 = i.arg1 := by
  obtain ⟨⟨s, code⟩, arg0, arg1⟩ := i
  obtain ⟨-, h0, h1⟩ := h
  have hzero {n : Nat} (hn : n < 2 ^ 0) : 0 = n := (Nat.lt_one_iff.mp hn).symm
  cases s with
  | one | four => exact ⟨rfl, rfl⟩
  | zero | two | three => exact ⟨rfl, hzero h1⟩
  | five => exact ⟨hzero h0, hzero h1⟩

/-- In an instruction that fits, each argument fits its field. -/
theorem Fits.args_lt {i : Instruction} (h : i.Fits) :
    ∀ field ∈ i.args.zip i.opcode.segment.argBits, field.1 < 2 ^ field.2 := by
  obtain ⟨⟨s, code⟩, arg0, arg1⟩ := i
  obtain ⟨-, h0, h1⟩ := h
  cases s with
  | one | four => exact List.forall_mem_cons.mpr ⟨h0, List.forall_mem_singleton.mpr h1⟩
  | zero | two | three => exact List.forall_mem_singleton.mpr h0
  | five =>
    intro field hfield
    cases hfield

end Instruction

end ScriptEngine
