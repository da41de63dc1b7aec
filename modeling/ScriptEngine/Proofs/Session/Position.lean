import ScriptEngine.Host.Replay
import ScriptEngine.Proofs.Machine.Operands
import ScriptEngine.Proofs.Session.Instructions
import ScriptEngine.Proofs.Word.Codec

/-!
# Code is position independent

A script runs the same wherever it stands in memory: put behind other words that are jumped over, it comes to the same end with
the same host, one word later and at addresses that are as much further on as there are words in front.

No instruction has an absolute address. Jumps are measured from their own word and skips from the next one, so a state that is
moved on by some addresses steps to the moved state (`Standard.apply_moved`). Two things could spoil this: a jump back beyond the
first address, which stops there, and addresses so large that they reach the last one. The first is excluded for the code on its
own, and code that leaves room for one jump at the end of the address space never comes to the second.
-/

namespace ScriptEngine

/-! ## Code behind other code -/

namespace Script

/-- Behind other words, of which the first jumps over the rest. -/
def behind (s : Script) (skipped : Array UInt32) : Script :=
  { s with code := #[Instruction.encode ⟨Builtin.jumpForward.opcode, skipped.size + 1, 0⟩] ++ skipped ++ s.code }

/-- No word jumps back beyond the first one. -/
def JumpsBackInside (s : Script) : Prop :=
  ∀ a, (h : a < s.code.size) → ∀ i ∈ Instruction.decode? s.code[a], i.opcode = Builtin.jumpBackward.opcode → i.arg0 ≤ a

instance (s : Script) : Decidable s.JumpsBackInside := inferInstanceAs (Decidable (∀ _, _))

/-- No jump comes to the last address. Code that fits in memory is shorter by far. -/
def Addressable (s : Script) : Prop := s.code.size + 2 ^ 24 ≤ Machine.addressCount

instance (s : Script) : Decidable s.Addressable := inferInstanceAs (Decidable (_ ≤ _))

/-- Behind other words the code is found as many addresses further on. -/
theorem getElem?_behind (s : Script) (skipped : Array UInt32) (a : Nat) :
    (s.behind skipped).code[a + (skipped.size + 1)]? = s.code[a]? := by
  have hfront : a + (skipped.size + 1) = (#[Instruction.encode ⟨Builtin.jumpForward.opcode, skipped.size + 1, 0⟩] ++
      skipped).size + a := by
    simp only [Array.size_append, List.size_toArray, List.length_singleton]
    omega
  rw [behind, hfront, Array.getElem?_append_right (Nat.le_add_right _ _), Nat.add_sub_cancel_left]

/-- The first word in front of code jumps to the code. -/
theorem getElem?_behind_zero (s : Script) (skipped : Array UInt32) :
    (s.behind skipped).code[0]? = some (Instruction.encode ⟨Builtin.jumpForward.opcode, skipped.size + 1, 0⟩) := by
  have hfirst : 0 < #[Instruction.encode ⟨Builtin.jumpForward.opcode, skipped.size + 1, 0⟩].size := Nat.one_pos
  rw [behind, Array.append_assoc, Array.getElem?_append_left hfirst]
  rfl

end Script

/-! ## Moved states -/

namespace Machine

variable {σ : Type}

/-- The same state at an address further on. -/
def moved (m : Machine σ) (distance : Nat) : Machine σ := { m with pc := m.pc + distance }

theorem next_moved (m : Machine σ) (distance : Nat) : (m.moved distance).next = m.next.moved distance := by
  simp only [moved, next, Nat.add_right_comm]

/-- Behind other words the same word is due in the moved state. -/
theorem due?_moved (m : Machine σ) (s : Script) (skipped : Array UInt32) :
    (m.moved (skipped.size + 1)).due? (s.behind skipped) = m.due? s := by
  have hword := s.getElem?_behind skipped m.pc
  simp only [due?, moved, hword]

end Machine

namespace Fault

/-- The same fault in a run that may execute one word more. -/
def later : Fault → Fault
  | stepLimit limit => stepLimit (limit + 1)
  | unimplemented opcode => unimplemented opcode
  | invalidWord word => invalidWord word

end Fault

/-- A word that cannot be executed fails in the same way under every limit. -/
theorem Dispatch.later_of_actionOf {σ : Type} {d : Dispatch σ} {word : UInt32} {fault : Fault}
    (h : d.actionOf word = .error fault) : fault.later = fault := by
  unfold actionOf action at h
  split at h
  · cases h
    rfl
  · split at h
    · cases h
      rfl
    · cases h

namespace Finish

variable {σ : Type}

/-- The same end one word later and at an address further on. -/
def moved (f : Finish σ) (distance : Nat) : Finish σ where
  result :=
    match f.result with
    | .ok outcome => .ok ⟨outcome.steps + 1, outcome.halted⟩
    | .error abort => .error ⟨abort.pc + distance, abort.fault.later⟩
  host := f.host

end Finish

/-! ## Instructions -/

/-- An argument has 24 bits at most. -/
theorem Instruction.Fits.arg0_lt {i : Instruction} (h : i.Fits) : i.arg0 < 2 ^ 24 := by
  have hbits : i.opcode.segment.layout.firstBits ≤ 24 := by
    cases i.opcode.segment <;> decide
  exact Nat.lt_of_lt_of_le h.2.1 (Nat.pow_le_pow_right (by decide) hbits)

namespace Builtin

variable {σ : Type} [Host σ]

/-- A built-in instruction does in the moved state what it does in the state itself. -/
theorem apply_moved (b : Builtin) (arg0 arg1 : Nat) (l : Literals) (m : Machine σ) {distance : Nat}
    (hback : b = jumpBackward → arg0 ≤ m.pc) (harg : arg0 < 2 ^ 24)
    (hroom : m.pc + distance + 2 ^ 24 < Machine.addressCount) :
    b.handler.apply arg0 arg1 l (m.next.moved distance) = (b.handler.apply arg0 arg1 l m.next).moved distance := by
  cases b with
  | jumpForward =>
    have htarget : min (m.pc + 1 + distance - 1 + arg0) (Machine.addressCount - 1) =
        min (m.pc + 1 - 1 + arg0) (Machine.addressCount - 1) + distance := by
      omega
    simp only [handler, Handler.apply, Machine.forward, Machine.goto, Machine.own, Machine.moved, Machine.next, htarget]
  | jumpBackward =>
    have htarget : m.pc + 1 + distance - 1 - arg0 = m.pc + 1 - 1 - arg0 + distance := by
      have hinside := hback rfl
      omega
    simp only [handler, Handler.apply, Machine.backward, Machine.goto, Machine.own, Machine.moved, Machine.next, htarget]
  | skipOnZero | skipOnNonZero =>
    have htarget : (m.pc + 1 + distance + 1) % Machine.addressCount = (m.pc + 1 + 1) % Machine.addressCount + distance := by
      rw [Nat.mod_eq_of_lt (by omega), Nat.mod_eq_of_lt (by omega)]
      omega
    simp only [handler, Handler.apply, skipWhen_eq, Machine.moved, Machine.next, Machine.top, htarget]
    congr 1
    exact (apply_ite (· + distance) _ _ _).symm
  | messageBox | storeLocal | storeGlobal =>
    simp only [handler, Handler.apply, showMessage_eq, writeLocal_eq, writeGlobal_eq]
    rfl
  | _ => rfl

end Builtin

/-- An instruction does in the moved state what it does in the state itself. -/
theorem Standard.apply_moved {σ : Type} [Host σ] (x : Standard) (arg0 arg1 : Nat) (l : Literals) (m : Machine σ) {distance : Nat}
    (hback : x = builtin .jumpBackward → arg0 ≤ m.pc) (harg : arg0 < 2 ^ 24)
    (hroom : m.pc + distance + 2 ^ 24 < Machine.addressCount) :
    x.handler.apply arg0 arg1 l (m.next.moved distance) = (x.handler.apply arg0 arg1 l m.next).moved distance := by
  cases x with
  | builtin b => exact b.apply_moved arg0 arg1 l m (fun hb => hback (congrArg builtin hb)) harg hroom
  | setControl c enabled | getDisabled c => rfl
  | query q => cases q <;> rfl

/-! ## Steps and runs -/

/-- The limit of a run that may execute one word more. No limit stays none. -/
def oneMore (limit : Nat) : Nat := if limit = 0 then 0 else limit + 1

namespace Engine

section Moved

variable {σ : Type} [Host σ] {limit : Nat} {e e' : Engine σ} {s : Script} {skipped : Array UInt32}
  (he : standard limit = .ok e) (he' : standard (oneMore limit) = .ok e') (hinside : s.JumpsBackInside)
  (hroom : (s.behind skipped).Addressable)

include he he'

/-- With no limit on the one run there is none on the other, and otherwise the limits differ by one. -/
theorem stepLimit_oneMore : e.stepLimit = 0 ∧ e'.stepLimit = 0 ∨ 0 < e.stepLimit ∧ e'.stepLimit = e.stepLimit + 1 := by
  rw [stepLimit_of_build he, stepLimit_of_build he', oneMore]
  split <;> omega

include hinside hroom

/-- A step in the moved state is the step in the state itself, and leads to the moved state or fails with the same fault. -/
theorem step?_moved (m : Machine σ) :
    e'.step? (s.behind skipped) (m.moved (skipped.size + 1)) =
      (e.step? s m).map fun r => r.map fun m' => m'.moved (skipped.size + 1) := by
  have hsize : (s.behind skipped).code.size = s.code.size + (skipped.size + 1) := by
    simp only [Script.behind, Array.size_append, List.size_toArray, List.length_singleton]
    omega
  have hliterals : (s.behind skipped).literals = s.literals := rfl
  simp only [step?, m.due?_moved, hliterals, Option.map_map]
  cases hdue : m.due? s with
  | none => rfl
  | some word =>
    simp only [Option.map_some, Function.comp_apply, Dispatch.execute, Dispatch.actionOf, Dispatch.action,
      handler?_eq_ofOpcode? he, handler?_eq_ofOpcode? he']
    cases hdecode : Instruction.decode? word with
    | none => rfl
    | some i =>
      cases hx : Standard.ofOpcode? i.opcode with
      | none => simp [hx, Except.map]
      | some x =>
        obtain ⟨hpc, hword⟩ := Array.getElem?_eq_some_iff.mp (getElem?_of_due? hdue)
        have hback : x = .builtin .jumpBackward → i.arg0 ≤ m.pc := by
          rintro rfl
          exact hinside m.pc hpc i (hword ▸ hdecode) (Standard.ofOpcode?_eq_some_iff.mp hx).symm
        have harg : i.arg0 < 2 ^ 24 := (Instruction.decode?_eq_some_iff.mp hdecode).1.arg0_lt
        have hfar : m.pc + (skipped.size + 1) + 2 ^ 24 < Machine.addressCount := by
          have hroom' : (s.behind skipped).code.size + 2 ^ 24 ≤ Machine.addressCount := hroom
          omega
        simp [hx, Except.map, m.next_moved, x.apply_moved i.arg0 i.arg1 s.literals m hback harg hfar]

/-- A step that can be taken leads from the moved state to the moved state. -/
theorem step?_moved_of_ok {m m' : Machine σ} (h : e.step? s m = some (.ok m')) :
    e'.step? (s.behind skipped) (m.moved (skipped.size + 1)) = some (.ok (m'.moved (skipped.size + 1))) := by
  rw [step?_moved he he' hinside hroom, h]
  rfl

/-- A run that stops in a state does so in the moved state one word later. -/
theorem Stops.moved {n : Nat} {m : Machine σ} {f : Finish σ} (h : e.Stops s n m f) :
    e'.Stops (s.behind skipped) (n + 1) (m.moved (skipped.size + 1)) (f.moved (skipped.size + 1)) := by
  have hlimits := stepLimit_oneMore he he'
  have hdue' := m.due?_moved s skipped
  cases h with
  | finished hover hn =>
    have hover' := hdue'.trans (due?_eq_none_iff.mpr hover)
    exact .finished (due?_eq_none_iff.mp hover') (by omega)
  | failed fault hstep hn =>
    have hstep' : e'.step? (s.behind skipped) (m.moved (skipped.size + 1)) = some (.error fault) := by
      rw [step?_moved he he' hinside hroom, hstep]
      rfl
    have hstop : e'.Stops (s.behind skipped) (n + 1) (m.moved (skipped.size + 1)) _ := .failed fault hstep' (by omega)
    obtain ⟨word, -, hact⟩ := step?_eq_error_iff.mp hstep
    rwa [← Dispatch.later_of_actionOf hact] at hstop
  | limited hinside hne hn =>
    have hdue : (m.moved (skipped.size + 1)).due? (s.behind skipped) ≠ none := hdue'.symm ▸ due?_ne_none_iff.mpr hinside
    have hstop : e'.Stops (s.behind skipped) (n + 1) (m.moved (skipped.size + 1)) _ :=
      .limited (due?_ne_none_iff.mp hdue) (by omega) (by omega)
    have hmore : e'.stepLimit = e.stepLimit + 1 := by omega
    rwa [hmore] at hstop

/-- A run goes on from a state for as many words as from the moved state, and comes to the corresponding end. -/
theorem runFrom_moved (patience : Nat) {n : Nat} {m : Machine σ} (hn : e.stepLimit = 0 ∨ n ≤ e.stepLimit) :
    e'.runFrom (s.behind skipped) patience (n + 1) (m.moved (skipped.size + 1)) =
      (e.runFrom s patience n m).map fun f => f.moved (skipped.size + 1) := by
  have hlimits := stepLimit_oneMore he he'
  induction patience generalizing n m with
  | zero =>
    rcases stops_or_step e s m hn with ⟨f, hstop⟩ | ⟨hless, m', hstep⟩
    · rw [hstop.runFrom, (hstop.moved he he' hinside hroom).runFrom]
      rfl
    · have hstep' := step?_moved_of_ok he he' hinside hroom hstep
      rw [(runFrom_of_step hstep hless 0).1, (runFrom_of_step hstep' (by omega) 0).1]
      rfl
  | succ patience ih =>
    rcases stops_or_step e s m hn with ⟨f, hstop⟩ | ⟨hless, m', hstep⟩
    · rw [hstop.runFrom, (hstop.moved he he' hinside hroom).runFrom]
      rfl
    · have hstep' := step?_moved_of_ok he he' hinside hroom hstep
      rw [(runFrom_of_step hstep hless patience).2, (runFrom_of_step hstep' (by omega) patience).2]
      exact ih (by omega)

end Moved

variable {σ : Type} [Host σ]

/-- The first of the words in front leads to the code behind them. -/
theorem step?_start_behind {limit : Nat} {e : Engine σ} (he : standard limit = .ok e) (s : Script) {skipped : Array UInt32}
    (hskipped : skipped.size + 1 < 2 ^ 24) (host : σ) :
    e.step? (s.behind skipped) (.start host) = some (.ok ((Machine.start host).moved (skipped.size + 1))) := by
  have hfits : Instruction.Fits ⟨Builtin.jumpForward.opcode, skipped.size + 1, 0⟩ :=
    ⟨Standard.opcode_fits (.builtin .jumpForward), hskipped, Nat.one_pos⟩
  have htarget : min (0 + (skipped.size + 1)) (Machine.addressCount - 1) = 0 + (skipped.size + 1) := by
    have hcount : Machine.addressCount = 2 ^ 64 := rfl
    omega
  exact (step?_of_standard he).mpr ⟨_, _, .builtin .jumpForward, s.getElem?_behind_zero skipped, hfits.decode?_encode, rfl,
    congrArg (Machine.start host).goto htarget⟩

/-- Code is position independent. Let a script jump back to its first word at most, and put in front of it any words with a jump
over them, so many that a jump can pass over them. On the standard engine, under a limit of one word more or without a limit, the
script behind these words comes to the same end as on its own, with the same host: it is over after one word more and has returned
or not as before, or it fails with the same fault at an address that is as much further on as there are words in front, or both
runs are stopped by their limits, at such addresses. Without a limit, one run goes on for ever if the other one does. -/
theorem behind_runs_the_same (limit : Nat) {s : Script} {skipped : Array UInt32} (hinside : s.JumpsBackInside)
    (hskipped : skipped.size + 1 < 2 ^ 24) (hroom : (s.behind skipped).Addressable) :
    ∃ (e e' : Engine σ) (forward back : Descriptor), standard limit = .ok e ∧ standard (oneMore limit) = .ok e' ∧
      e.registry.lookup "jumpforward" = .ok forward ∧ forward.opcode = Builtin.jumpForward.opcode ∧
      e.registry.lookup "jumpbackward" = .ok back ∧ back.opcode = Builtin.jumpBackward.opcode ∧
      ∀ patience host,
        e'.run (patience + 1) (s.behind skipped) host = (e.run patience s host).map (fun f => f.moved (skipped.size + 1)) ∧
        (limit ≠ 0 → ∃ f, e.run patience s host = some f) := by
  obtain ⟨e, he⟩ := exists_standard (σ := σ) limit
  obtain ⟨e', he'⟩ := exists_standard (σ := σ) (oneMore limit)
  obtain ⟨forward, hforward, hforward_opcode⟩ := lookup_of_standard he (.builtin .jumpForward)
  obtain ⟨back, hback, hback_opcode⟩ := lookup_of_standard he (.builtin .jumpBackward)
  refine ⟨e, e', forward, back, he, he', hforward, hforward_opcode, hback, hback_opcode, fun patience host => ⟨?_, ?_⟩⟩
  · have hlimits := stepLimit_oneMore he he'
    obtain ⟨words, hwords, hwords'⟩ : ∃ words, (if e.stepLimit = 0 then patience else e.stepLimit) = words ∧
        (if e'.stepLimit = 0 then patience + 1 else e'.stepLimit) = words + 1 := by
      refine ⟨_, rfl, ?_⟩
      split <;> split <;> omega
    have hfirst := step?_start_behind he' s hskipped host
    rw [run, run, hwords, hwords', (runFrom_of_step hfirst (by omega) words).2]
    exact runFrom_moved he he' hinside hroom words (Or.inr (Nat.zero_le _))
  · intro hlimit
    exact run_isSome patience s host (stepLimit_of_build he ▸ hlimit)

/-- A script with one word, which jumps to itself. -/
def spin : Script where
  code := #[0x02000000]

/-- The script spins until its limit is used up, on its own and behind a word that means nothing. -/
theorem spin_behind_nonsense :
    spin.JumpsBackInside ∧ #[0xffffffff].size + 1 < 2 ^ 24 ∧ (spin.behind #[0xffffffff]).Addressable ∧
      ∃ e e' : Engine Replay, standard 2 = .ok e ∧ standard 3 = .ok e' ∧
        (e.run 0 spin {}).map (·.result) = some (.error ⟨0, .stepLimit 2⟩) ∧
        (e'.run 1 (spin.behind #[0xffffffff]) {}).map (·.result) = some (.error ⟨2, .stepLimit 3⟩) := by
  have hinside : spin.JumpsBackInside := by decide
  have hskipped : #[0xffffffff].size + 1 < 2 ^ 24 := by decide
  have hroom : (spin.behind #[0xffffffff]).Addressable := by decide
  obtain ⟨e, e', -, -, he, he', -, -, -, -, hruns⟩ := behind_runs_the_same (σ := Replay) 2 hinside hskipped hroom
  have hstep : e.step? spin (.start {}) = some (.ok (.start {})) :=
    (step?_of_standard he).mpr ⟨0x02000000, ⟨Builtin.jumpBackward.opcode, 0, 0⟩, .builtin .jumpBackward, rfl, by decide, rfl, rfl⟩
  have hafter : e.after? spin 2 (.start {}) = some (.start {}) := by
    simp only [after?, hstep]
  have hlimit : e.stepLimit = 2 := stepLimit_of_build he
  have hstop : e.Stops spin 2 (.start {}) ⟨.error ⟨0, .stepLimit e.stepLimit⟩, {}⟩ :=
    .limited ⟨rfl, by decide⟩ (by omega) hlimit.symm
  rw [hlimit] at hstop
  have hrun : e.run 0 spin {} = some ⟨.error ⟨0, .stepLimit 2⟩, {}⟩ :=
    run_eq_some_iff.mpr ⟨2, _, hafter, hstop, by omega⟩
  refine ⟨hinside, hskipped, hroom, e, e', he, he', by rw [hrun]; rfl, ?_⟩
  rw [(hruns 0 {}).1, hrun]
  rfl

end Engine

end ScriptEngine
