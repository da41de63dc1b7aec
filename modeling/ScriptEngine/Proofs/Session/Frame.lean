import ScriptEngine.Proofs.Machine.Operands
import ScriptEngine.Proofs.Session.Instructions

/-!
# Frames of the instructions

Every instruction of the standard engine has a fixed number of operands, given its argument, and a fixed number of results. It
replaces the ones by the others and leaves the cells below alone. Only jumps and skips change the address, and only `return`
ends the run.

A step leaves at most one cell more than there were, so after `n` words the stack has at most `n` cells.
-/

namespace ScriptEngine

/-! ## Operands and results of each instruction -/

namespace Builtin

/-- How many cells an instruction takes off the stack, given its argument. -/
def operands (arg0 : Nat) : Builtin → Nat
  | messageBox => arg0 + 1
  | storeLocal _ | storeGlobal | arithInt _ | arithFloat _ | compareInt _ | compareFloat _ => 2
  | fetchLocal _ | fetchGlobal | fetchIntLiteral | fetchFloatLiteral | intToFloat | floatToInt | negateInt | negateFloat
  | skipOnZero | skipOnNonZero | pop => 1
  | pushInt | jumpForward | jumpBackward | exit => 0

/-- How many cells an instruction leaves in the place of its operands. -/
def results : Builtin → Nat
  | pushInt | arithInt _ | arithFloat _ | compareInt _ | compareFloat _ | intToFloat | floatToInt | negateInt | negateFloat
  | fetchLocal _ | fetchGlobal | fetchIntLiteral | fetchFloatLiteral => 1
  | messageBox | storeLocal _ | storeGlobal | skipOnZero | skipOnNonZero | pop | jumpForward | jumpBackward | exit => 0

/-- The instructions that may continue elsewhere than at the next word. -/
def moves : List Builtin := [jumpForward, jumpBackward, skipOnZero, skipOnNonZero]

variable {σ : Type} [Host σ] (l : Literals) (m : Machine σ)

/-- A built-in instruction replaces its operands by its results. -/
theorem framed (b : Builtin) (arg0 arg1 : Nat) :
    Machine.Framed (b.operands arg0) b.results m (b.handler.apply arg0 arg1 l m) := by
  cases b with
  | pushInt => exact .pushed 0 rfl
  | jumpForward | jumpBackward | exit => exact .taken 0 rfl
  | messageBox | storeLocal | storeGlobal | skipOnZero | skipOnNonZero | pop =>
    refine .taken _ ?_
    simp [handler, Handler.apply, operands, showMessage_eq, writeLocal_eq, writeGlobal_eq, skipWhen_eq, Machine.drop]
  | arithInt | arithFloat | compareInt | compareFloat =>
    simp only [handler, Handler.apply]
    exact .overwritten 1 (Machine.stack_combine m _)
  | fetchLocal | fetchGlobal | fetchIntLiteral | fetchFloatLiteral | intToFloat | floatToInt | negateInt | negateFloat =>
    exact .overwritten 0 rfl

/-- Only a jump or a skip changes the address. -/
theorem pc_eq_or_mem_moves (b : Builtin) (arg0 arg1 : Nat) : (b.handler.apply arg0 arg1 l m).pc = m.pc ∨ b ∈ moves := by
  cases b with
  | jumpForward | jumpBackward | skipOnZero | skipOnNonZero => exact Or.inr (by decide)
  | messageBox | storeLocal => exact Or.inl (by simp [handler, Handler.apply, showMessage_eq, writeLocal_eq])
  | _ => exact Or.inl rfl

/-- Only `return` ends the run. -/
theorem halted_eq (b : Builtin) (arg0 arg1 : Nat) :
    (b.handler.apply arg0 arg1 l m).halted = (m.halted || b = exit) := by
  cases b with
  | messageBox | storeLocal | skipOnZero | skipOnNonZero =>
    simp [handler, Handler.apply, showMessage_eq, writeLocal_eq, skipWhen_eq]
  | exit => exact (Bool.or_true _).symm
  | _ => exact (Bool.or_false _).symm

end Builtin

namespace Standard

/-- How many cells an instruction takes off the stack, given its argument. -/
def operands (arg0 : Nat) : Standard → Nat
  | builtin b => b.operands arg0
  | query .random => 1
  | setControl _ _ | getDisabled _ | query .menuMode | query .xbox => 0

/-- How many cells an instruction leaves in the place of its operands. -/
def results : Standard → Nat
  | builtin b => b.results
  | setControl _ _ => 0
  | getDisabled _ | query _ => 1

variable {σ : Type} [Host σ] (x : Standard) (arg0 arg1 : Nat) (l : Literals) (m : Machine σ)

/-- An instruction replaces its operands by its results. -/
theorem framed : Machine.Framed (x.operands arg0) x.results m (x.handler.apply arg0 arg1 l m) := by
  cases x with
  | builtin b => exact b.framed l m arg0 arg1
  | setControl c enabled => exact .taken 0 rfl
  | getDisabled c => exact .pushed 0 rfl
  | query q =>
    cases q with
    | menuMode | xbox => exact .pushed 0 rfl
    | random => exact .pushed 1 (by rw [List.drop_one]; rfl)

/-- Only a jump or a skip changes the address. -/
theorem pc_eq_or_mem_moves : (x.handler.apply arg0 arg1 l m).pc = m.pc ∨ x ∈ Builtin.moves.map builtin := by
  cases x with
  | builtin b => exact (b.pc_eq_or_mem_moves l m arg0 arg1).imp_right List.mem_map_of_mem
  | setControl c enabled | getDisabled c => exact Or.inl rfl
  | query q => cases q <;> exact Or.inl rfl

/-- Only `return` ends the run. -/
theorem halted_eq : (x.handler.apply arg0 arg1 l m).halted = (m.halted || x = builtin .exit) := by
  cases x with
  | builtin b => simpa [handler] using b.halted_eq l m arg0 arg1
  | setControl c enabled | getDisabled c => exact (Bool.or_false _).symm
  | query q => cases q <;> exact (Bool.or_false _).symm

end Standard

/-! ## Steps and runs -/

namespace Engine

variable {σ : Type} [Host σ] {limit : Nat} {e : Engine σ}

/-- A step of the standard engine leaves at most one cell more than there were. -/
theorem length_stack_of_step (he : standard limit = .ok e) {s : Script} {m m' : Machine σ}
    (hstep : e.step? s m = some (.ok m')) : m'.stack.length ≤ m.stack.length + 1 := by
  obtain ⟨word, i, x, -, -, -, rfl⟩ := (step?_of_standard he).mp hstep
  exact (x.framed i.arg0 i.arg1 s.literals m.next).length_le

/-- The standard engine can be built, whatever its host and its limit; it has the instructions of `Standard` and no others, each
under its keyword. Each replaces its operands by its results, whatever its arguments are and whatever the state is, and leaves
the cells below alone; on a stack that is too short for it, it leaves at most one cell more than there were. Only jumps and
skips change the address, and only `return` ends the run. After `n` words of any script the stack has at most `n` cells. -/
theorem instructions_respect_their_frames (limit : Nat) : ∃ e : Engine σ, standard limit = .ok e ∧
    (∀ op, e.dispatch.contains op = true ↔ ∃ x : Standard, x.opcode = op) ∧
    (∀ x : Standard, ∃ d, e.registry.lookup x.mnemonic = .ok d ∧ d.opcode = x.opcode) ∧
    (∀ (x : Standard) (arg0 arg1 : Nat) (l : Literals) (m : Machine σ),
      ∃ m', e.dispatch.perform ⟨x.opcode, arg0, arg1⟩ l m = .ok m' ∧
        (∀ taken below, m.stack = taken ++ below → taken.length = x.operands arg0 →
          ∃ left, m'.stack = left ++ below ∧ left.length = x.results) ∧
        m'.stack.length ≤ m.stack.length + 1 ∧
        (m'.pc = m.pc ∨ x ∈ Builtin.moves.map Standard.builtin) ∧
        m'.halted = (m.halted || x = .builtin .exit)) ∧
    ∀ (s : Script) (host : σ) (n : Nat) (m : Machine σ), e.after? s n (.start host) = some m → m.stack.length ≤ n := by
  obtain ⟨e, he⟩ := exists_standard (σ := σ) limit
  refine ⟨e, he, Standard.contains_iff fun _ _ => handler?_of_standard he, lookup_of_standard he, ?_, ?_⟩
  · intro x arg0 arg1 l m
    have hframed := x.framed arg0 arg1 l m
    exact ⟨_, perform_of_standard he x arg0 arg1 l m, hframed.replaced, hframed.length_le,
      x.pc_eq_or_mem_moves arg0 arg1 l m, x.halted_eq arg0 arg1 l m⟩
  · intro s host n m hafter
    have hstep : ∀ n m m', m.stack.length ≤ n → e.step? s m = some (.ok m') → m'.stack.length ≤ n + 1 := by
      intro n m m' hm hstep
      have hlength := length_stack_of_step he hstep
      omega
    have hstart : (Machine.start host).stack.length ≤ 0 := Nat.le_refl 0
    exact after?_keeps_from_first hstep hstart hafter

end Engine

end ScriptEngine
