import ScriptEngine.Proofs.Session.Instructions

/-!
# Calculating with integers

The words that calculate with integers take the right operand off the stack and overwrite the left one, which lies below it, with
the result. Integers are the 32 bits of a cell read with sign. What a word leaves is said by the integers of mathematics: the
result of the operation on the two operands, of which the cell holds the remainder modulo `2 ^ 32` (`IntegerWord.result`).

On a stack with one cell the right operand is there and the left one is not: it reads as zero, and the result is dropped.
-/

namespace ScriptEngine

namespace Cell

/-- The integer that the bits of a cell stand for, in two's complement. -/
def signed (c : Cell) : Int := if c.bits.toNat < 2 ^ 31 then c.bits.toNat else c.bits.toNat - 2 ^ 32

/-- A cell is read as the integer that its bits stand for. -/
theorem toInt_int (c : Cell) : c.int.toInt = c.signed := by
  have htoInt : c.int.toInt = if 2 * c.bits.toNat < 2 ^ 32 then (c.bits.toNat : Int) else c.bits.toNat - (2 ^ 32 : Nat) :=
    BitVec.toInt_eq_toNat_cond c.bits.toBitVec
  rw [htoInt, signed]
  split <;> split <;> omega

/-- A cell that holds an integer has its remainder as bits. -/
theorem toNat_bits_ofInt (n : Int32) : ((ofInt n).bits.toNat : Int) = n.toInt % 2 ^ 32 := by
  have hn : n.toInt = (ofInt n).signed := toInt_int (ofInt n)
  have hlt : (ofInt n).bits.toNat < 2 ^ 32 := (ofInt n).bits.toNat_lt
  rw [hn, signed]
  split <;> omega

end Cell

/-! ## Operations on integers -/

/-- The result of an operation on integers. The quotient is truncated toward zero, and division by zero gives zero. -/
def Arith.exact (op : Arith) (l r : Int) : Int :=
  match op with
  | .add => l + r
  | .sub => l - r
  | .mul => l * r
  | .div => if r = 0 then 0 else l.tdiv r

/-- A comparison holds of two integers. -/
def Comparison.Holds (c : Comparison) (l r : Int) : Prop :=
  match c with
  | .equal => l = r
  | .nonEqual => l ≠ r
  | .less => l < r
  | .lessOrEqual => l ≤ r
  | .greater => l > r
  | .greaterOrEqual => l ≥ r

instance : (c : Comparison) → (l r : Int) → Decidable (c.Holds l r)
  | .equal, l, r => inferInstanceAs (Decidable (l = r))
  | .nonEqual, l, r => inferInstanceAs (Decidable (l ≠ r))
  | .less, l, r => inferInstanceAs (Decidable (l < r))
  | .lessOrEqual, l, r => inferInstanceAs (Decidable (l ≤ r))
  | .greater, l, r => inferInstanceAs (Decidable (l > r))
  | .greaterOrEqual, l, r => inferInstanceAs (Decidable (l ≥ r))

/-- An operation on 32 bits gives the result up to a multiple of `2 ^ 32`. -/
theorem Arith.toInt_onInts (op : Arith) (l r : Int32) : (op.onInts l r).toInt = (op.exact l.toInt r.toInt).bmod (2 ^ 32) := by
  cases op with
  | add => exact Int32.toInt_add l r
  | sub => exact Int32.toInt_sub l r
  | mul => exact Int32.toInt_mul l r
  | div =>
    have hzero : r = 0 ↔ r.toInt = 0 := Int32.toInt_inj.symm
    simp only [onInts, exact, hzero]
    split
    · rfl
    · exact Int32.toInt_div l r

/-- A comparison of 32 bits holds exactly when it holds of the integers. -/
theorem Comparison.onInts_iff (c : Comparison) (l r : Int32) : c.onInts l r = true ↔ c.Holds l.toInt r.toInt := by
  cases c <;> simp [onInts, Holds, Int32.toInt_inj, Int32.lt_iff_toInt_lt, Int32.le_iff_toInt_le]

/-! ## Words with two operands -/

/-- A word that calculates with two integers. -/
inductive IntegerWord where
  | arith (op : Arith)
  | compare (c : Comparison)
  deriving DecidableEq, Repr

namespace IntegerWord

/-- The keyword of a word. -/
def keyword : IntegerWord → String
  | arith op => op.name ++ "int"
  | compare c => c.name ++ "int"

/-- What a word makes of its operands, the left one and the right one. A comparison gives one if it holds, and zero if it does
not. -/
def result (w : IntegerWord) (l r : Int) : Int :=
  match w with
  | arith op => op.exact l r
  | compare c => if c.Holds l r then 1 else 0

/-- The instruction of a word. -/
def instruction : IntegerWord → Standard
  | arith op => .builtin (.arithInt op)
  | compare c => .builtin (.compareInt c)

/-- The cell that a word leaves for its operands. -/
def onCells (w : IntegerWord) (l r : Cell) : Cell :=
  match w with
  | arith op => .ofInt (op.onInts l.int r.int)
  | compare c => .ofBool (c.onInts l.int r.int)

/-- The cell that a word leaves holds the remainder of the result. -/
theorem toNat_bits_onCells (w : IntegerWord) (l r : Cell) :
    ((w.onCells l r).bits.toNat : Int) = w.result l.signed r.signed % 2 ^ 32 := by
  cases w with
  | arith op =>
    calc ((Cell.ofInt (op.onInts l.int r.int)).bits.toNat : Int)
        = (op.onInts l.int r.int).toInt % 2 ^ 32 := Cell.toNat_bits_ofInt _
      _ = (op.exact l.int.toInt r.int.toInt).bmod (2 ^ 32) % 2 ^ 32 := by rw [op.toInt_onInts]
      _ = op.exact l.signed r.signed % 2 ^ 32 := by rw [l.toInt_int, r.toInt_int]; exact Int.bmod_emod
  | compare c =>
    have hholds : c.onInts l.int r.int = true ↔ c.Holds l.signed r.signed := by
      rw [c.onInts_iff, l.toInt_int, r.toInt_int]
    by_cases h : c.Holds l.signed r.signed
    · have hcell : (compare c).onCells l r = ⟨1⟩ := by simp [onCells, Cell.ofBool, hholds.mpr h]
      rw [hcell, result, if_pos h]
      rfl
    · have hcell : (compare c).onCells l r = ⟨0⟩ := by simp [onCells, Cell.ofBool, Bool.eq_false_iff.mpr (mt hholds.mp h)]
      rw [hcell, result, if_neg h]
      rfl

/-- A word combines the two cells on top of the stack. -/
theorem apply_instruction {σ : Type} [Host σ] (w : IntegerWord) (arg0 arg1 : Nat) (l : Literals) (m : Machine σ) :
    w.instruction.handler.apply arg0 arg1 l m = m.combine w.onCells := by
  cases w <;> rfl

end IntegerWord

/-! ## The words of the standard engine -/

namespace Engine

variable {σ : Type} [Host σ]

/-- The words that calculate with integers, on the standard engine. The keywords find them: four operations and six comparisons,
and the word that changes the sign. Let the two topmost cells be read as integers with sign, the left operand below the right one.
A word replaces them by one cell, which holds the remainder of the result modulo `2 ^ 32`, and changes nothing else, the cells
below and the host among it. The word that changes the sign does so with the topmost cell. On a stack with one cell the words with
two operands leave no cell, and on an empty stack all words leave it as it is. -/
theorem integer_words_calculate (limit : Nat) : ∃ e : Engine σ, standard limit = .ok e ∧
    ∃ (word : IntegerWord → Descriptor) (negate : Descriptor),
      (∀ w, e.registry.lookup w.keyword = .ok (word w)) ∧ e.registry.lookup "negateint" = .ok negate ∧
      ∀ (arg0 arg1 : Nat) (literals : Literals) (m : Machine σ),
        let performed (d : Descriptor) (stack : List Cell) :=
          e.dispatch.perform ⟨d.opcode, arg0, arg1⟩ literals { m with stack }
        (∀ w l r below, ∃ c : Cell, (c.bits.toNat : Int) = w.result l.signed r.signed % 2 ^ 32 ∧
          performed (word w) (r :: l :: below) = .ok { m with stack := c :: below }) ∧
        (∀ x below, ∃ c : Cell, (c.bits.toNat : Int) = -x.signed % 2 ^ 32 ∧
          performed negate (x :: below) = .ok { m with stack := c :: below }) ∧
        (∀ w x, performed (word w) [x] = .ok { m with stack := [] }) ∧
        (∀ w, performed (word w) [] = .ok { m with stack := [] }) ∧
        performed negate [] = .ok { m with stack := [] } := by
  obtain ⟨e, he⟩ := exists_standard (σ := σ) limit
  choose word hword hword_opcode using fun w : IntegerWord => lookup_of_standard he w.instruction
  obtain ⟨negate, hnegate, hnegate_opcode⟩ := lookup_of_standard he (.builtin .negateInt)
  have hkeyword : ∀ w : IntegerWord, w.instruction.mnemonic = w.keyword := by
    intro w
    cases w <;> rfl
  refine ⟨e, he, word, negate, fun w => hkeyword w ▸ hword w, hnegate, ?_⟩
  intro arg0 arg1 literals m performed
  have hcombine : ∀ w stack, performed (word w) stack = .ok (({ m with stack } : Machine σ).combine w.onCells) := by
    intro w stack
    simp only [performed, hword_opcode, perform_of_standard he, w.apply_instruction]
  have hchange : ∀ stack, performed negate stack =
      .ok (({ m with stack } : Machine σ).mapTop fun c => .ofInt (-c.int)) := by
    intro stack
    simp only [performed, hnegate_opcode, perform_of_standard he]
    rfl
  refine ⟨?_, ?_, fun w x => hcombine w [x], fun w => hcombine w [], hchange []⟩
  · intro w l r below
    exact ⟨w.onCells l r, w.toNat_bits_onCells l r, hcombine w (r :: l :: below)⟩
  · intro x below
    refine ⟨.ofInt (-x.int), ?_, hchange (x :: below)⟩
    rw [Cell.toNat_bits_ofInt, Int32.toInt_neg, x.toInt_int]
    exact Int.bmod_emod

end Engine

/-- The least integer divided by minus one is itself: its opposite is one more than the greatest integer. -/
example : (IntegerWord.arith .div).result (Cell.mk 0x80000000).signed (Cell.mk 0xffffffff).signed % 2 ^ 32 = 0x80000000 := by decide

end ScriptEngine
