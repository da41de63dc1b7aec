import ScriptEngine.Proofs.Engine.Runs

/-!
# The words of a run, in order

What a run did is told by the states in which it executed its words. `Engine.states` lists them. The list of one word more is the
first state followed by the list from the next state on (`states_of_step`), so that a fact about all words of a run follows from a
fact about one step by induction on the number of words.
-/

namespace ScriptEngine

variable {σ : Type}

namespace Machine

/-- The instruction that is due: what the word at the current address decodes to, unless the script has returned. -/
def instruction? (m : Machine σ) (s : Script) : Option Instruction :=
  if m.halted then none else s.code[m.pc]?.bind Instruction.decode?

/-- The opcode of the instruction that is due. -/
def opcode? (m : Machine σ) (s : Script) : Option Opcode := (m.instruction? s).map (·.opcode)

/-- The instruction that is due is what the word that is due decodes to. -/
theorem instruction?_eq (m : Machine σ) (s : Script) : m.instruction? s = (m.due? s).bind Instruction.decode? := by
  unfold instruction? due?
  cases m.halted <;> rfl

/-- The instruction that is due when a word is due that decodes to it. -/
theorem instruction?_of_due? {m : Machine σ} {s : Script} {word : UInt32} (h : m.due? s = some word) :
    m.instruction? s = Instruction.decode? word := by
  rw [instruction?_eq, h, Option.bind_some]

end Machine

namespace Engine

/-- The states in which the first `n` words are executed, in order. -/
def states (e : Engine σ) (s : Script) (n : Nat) (m : Machine σ) : List (Machine σ) :=
  (List.range n).filterMap fun k => e.after? s k m

/-- The opcodes of the first `n` words that are executed, in order. -/
def opcodes (e : Engine σ) (s : Script) (n : Nat) (m : Machine σ) : List Opcode :=
  (e.states s n m).filterMap (·.opcode? s)

variable {e : Engine σ} {s : Script} {m m' : Machine σ}

theorem states_zero (e : Engine σ) (s : Script) (m : Machine σ) : e.states s 0 m = [] := rfl

/-- The first word is executed in the first state, and the others in the states from the next one on. -/
theorem states_of_step (h : e.step? s m = some (.ok m')) (n : Nat) : e.states s (n + 1) m = m :: e.states s n m' := by
  have hnext : ∀ k, e.after? s (k + 1) m = e.after? s k m' := by
    intro k
    rw [after?, h]
  have hfirst : e.after? s 0 m = some m := rfl
  simp only [states, List.range_succ_eq_map, List.filterMap_cons, hfirst, List.filterMap_map, Function.comp_def, hnext]

/-- What is read off the states of one word more is what the first state gives, if it gives anything, and then the rest. -/
theorem filterMap_states_of_step {β : Type} (f : Machine σ → Option β) (h : e.step? s m = some (.ok m')) (n : Nat) :
    (e.states s (n + 1) m).filterMap f = (f m).toList ++ (e.states s n m').filterMap f := by
  rw [states_of_step h, List.filterMap_cons]
  cases f m <;> rfl

end Engine

end ScriptEngine
