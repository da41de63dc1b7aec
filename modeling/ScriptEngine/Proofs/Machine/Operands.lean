import ScriptEngine.Builtin.Behaviour

/-!
# Operands and results

An instruction takes its operands off the top of the stack and leaves its results there; the cells below are none of its
business. The operations of the machine do this in three ways: they take cells off, they put one cell in the place of those they
took off, or they overwrite the cell below those they took off. The last makes a difference on a stack that is too short, where
there is nothing to overwrite.
-/

namespace ScriptEngine

namespace Machine

variable {σ : Type} {m m' : Machine σ}

/-- From the first state to the second the operands are replaced by the results, and the cells below them stay. Even if there are
too few cells for the operands, there is at most one cell more. -/
structure Framed (operands results : Nat) (m m' : Machine σ) : Prop where
  replaced : ∀ taken below, m.stack = taken ++ below → taken.length = operands →
    ∃ left, m'.stack = left ++ below ∧ left.length = results
  length_le : m'.stack.length ≤ m.stack.length + 1

/-- Cells are taken off the stack. -/
theorem Framed.taken (operands : Nat) (h : m'.stack = m.stack.drop operands) : Framed operands 0 m m' := by
  constructor
  · rintro taken below hstack rfl
    exact ⟨[], by simp [h, hstack], rfl⟩
  · simp only [h, List.length_drop]
    omega

/-- Cells are taken off the stack, and one is put in their place. -/
theorem Framed.pushed (operands : Nat) {c : Cell} (h : m'.stack = c :: m.stack.drop operands) : Framed operands 1 m m' := by
  constructor
  · rintro taken below hstack rfl
    exact ⟨[c], by simp [h, hstack], rfl⟩
  · simp only [h, List.length_cons, List.length_drop]
    omega

/-- Cells are taken off the stack, and the one below them is overwritten. -/
theorem Framed.overwritten (operands : Nat) {c : Cell} (h : m'.stack = (m.stack.drop operands).set 0 c) :
    Framed (operands + 1) 1 m m' := by
  constructor
  · intro taken below hstack hlength
    obtain ⟨last, hlast⟩ : ∃ last, taken.drop operands = [last] :=
      List.length_eq_one_iff.mp (by rw [List.length_drop, hlength]; omega)
    have hdrop : m.stack.drop operands = last :: below := by
      rw [hstack, List.drop_append_of_le_length (by omega), hlast, List.singleton_append]
    exact ⟨[c], by rw [h, hdrop, List.set_cons_zero, List.singleton_append], rfl⟩
  · simp only [h, List.length_set, List.length_drop]
    omega

/-! ## The cells that are taken off -/

/-- The cell on top is the one no way below the top. -/
theorem peek_zero (m : Machine σ) : m.peek 0 = m.top := by
  unfold peek top
  cases m.stack <;> rfl

/-- Below the cell on top lie the cells of the state without it. -/
theorem peek_drop (m : Machine σ) (depth : Nat) : m.drop.peek depth = m.peek (depth + 1) := by
  simp [peek, drop]

/-- Once the cell on top is taken off, the one below it is on top. -/
theorem top_drop (m : Machine σ) : m.drop.top = m.peek 1 := by
  rw [← peek_zero, peek_drop]

/-- Taking the cell on top off twice takes two cells off. -/
theorem drop_drop (m : Machine σ) : m.drop.drop = { m with stack := m.stack.drop 2 } := by
  simp [drop, ← List.drop_one]

/-- Combining two cells takes the right one off the stack and overwrites the left one. -/
theorem stack_combine (m : Machine σ) (f : Cell → Cell → Cell) :
    (m.combine f).stack = (m.stack.drop 1).set 0 (f (m.peek 1) m.top) := by
  simp [combine, mapTop, replace, pop, ← top_drop, drop]

/-- Taking texts off the stack gives those that the topmost cells name, the one of the topmost cell last. -/
theorem popTexts_eq (l : Literals) (m : Machine σ) (n : Nat) (after : List String) :
    m.popTexts l n after =
      ((List.range n).reverse.map (fun depth => l.textAt (m.peek depth)) ++ after, { m with stack := m.stack.drop n }) := by
  induction n generalizing m after with
  | zero => rfl
  | succ n ih =>
    have htop : m.popTexts l (n + 1) after = m.drop.popTexts l n (l.textAt m.top :: after) := rfl
    rw [htop, ih, ← peek_zero]
    simp only [peek_drop]
    simp [List.range_succ_eq_map, Function.comp_def, drop]

end Machine

/-! ## Built-in instructions on their operands -/

namespace Builtin

variable {σ : Type} (l : Literals) (m : Machine σ)

/-- A skip takes the condition off the stack. The next word is passed over if the condition is as wanted. -/
theorem skipWhen_eq (wanted : Cell → Bool) :
    skipWhen wanted m =
      { m with
        stack := m.stack.drop 1
        pc := if wanted m.top then (m.pc + 1) % Machine.addressCount else m.pc } := by
  by_cases hwanted : wanted m.top = true <;>
    simp [skipWhen, Machine.pop, Machine.drop, Machine.skip, Machine.goto, hwanted]

variable [Host σ]

/-- Showing a message takes its buttons and its text off the stack. -/
theorem showMessage_eq (n : Nat) :
    showMessage n l m =
      { m with
        stack := m.stack.drop (n + 1)
        host := Host.messageBox m.host (l.textAt (m.peek n))
          ((List.range n).reverse.map fun depth => l.textAt (m.peek depth)) } := by
  simp [showMessage, Machine.popTexts_eq, Machine.pop, Machine.top, Machine.drop, Machine.peek]

/-- Writing a local variable takes the value and the slot off the stack. The host is asked for nothing but its locals. -/
theorem writeLocal_eq (kind : LocalKind) :
    writeLocal kind m =
      { m with
        stack := m.stack.drop 2
        host := ((Host.getLocals m.host).store? kind (m.peek 1) m.top).elim m.host (Host.setLocals m.host) } := by
  simp only [writeLocal, Machine.pop, Machine.drop_drop, Machine.top_drop]
  cases (Host.getLocals m.host).store? kind (m.peek 1) m.top <;> rfl

/-- Writing a global variable takes the value and the name off the stack. -/
theorem writeGlobal_eq :
    writeGlobal l m =
      { m with stack := m.stack.drop 2, host := Host.setGlobal m.host (l.textAt (m.peek 1)) m.top } := by
  simp only [writeGlobal, Machine.pop, Machine.drop_drop, Machine.top_drop]

end Builtin

end ScriptEngine
