import ScriptEngine.Engine.Run

/-!
# What a run computes

`Engine.run` checks four things at each word: whether the script has returned, whether the address is in the code, whether the
limit is used up, and whether the word can be executed. Here the limit is separated from the rest. `Engine.after?` takes steps
without regard to a limit, and `Engine.Stops` says when a run that has come to a state that way ends there and how. A run is
then exactly the first state at which it stops.

The induction is on the words that are still to be executed. What carries it is that a run that has not stopped has not used up
its limit, so it takes the step that `Engine.after?` takes.
-/

namespace ScriptEngine

variable {σ : Type}

/-! ## One word -/

/-- What a word does to a machine. It fails if it decodes to no instruction, or to one whose opcode has no handler. Otherwise the
handler runs with as many of the arguments as it takes. -/
inductive Dispatch.Does (d : Dispatch σ) (word : UInt32) (l : Literals) (m : Machine σ) : Except Fault (Machine σ) → Prop where
  | invalidWord : Instruction.decode? word = none → Does d word l m (.error (.invalidWord word))
  | unimplemented (i : Instruction) : Instruction.decode? word = some i → d.handler? i.opcode = none →
      Does d word l m (.error (.unimplemented i.opcode))
  | nullary (i : Instruction) (run : Literals → Machine σ → Machine σ) : Instruction.decode? word = some i →
      d.handler? i.opcode = some (.nullary run) → Does d word l m (.ok (run l m))
  | unary (i : Instruction) (run : Nat → Literals → Machine σ → Machine σ) : Instruction.decode? word = some i →
      d.handler? i.opcode = some (.unary run) → Does d word l m (.ok (run i.arg0 l m))
  | binary (i : Instruction) (run : Nat → Nat → Literals → Machine σ → Machine σ) : Instruction.decode? word = some i →
      d.handler? i.opcode = some (.binary run) → Does d word l m (.ok (run i.arg0 i.arg1 l m))

/-- Executing a word comes to what the word does. -/
theorem Dispatch.execute_eq_iff {d : Dispatch σ} {word : UInt32} {l : Literals} {m : Machine σ}
    {result : Except Fault (Machine σ)} : d.execute word l m = result ↔ d.Does word l m result := by
  unfold execute actionOf action
  constructor
  · rintro rfl
    cases hdecode : Instruction.decode? word with
    | none => exact .invalidWord hdecode
    | some i =>
      cases hhandler : d.handler? i.opcode with
      | none => simpa [hhandler, Except.map] using Does.unimplemented i hdecode hhandler
      | some h =>
        cases h with
        | nullary run => simpa [hhandler, Except.map, Handler.apply] using Does.nullary i run hdecode hhandler
        | unary run => simpa [hhandler, Except.map, Handler.apply] using Does.unary i run hdecode hhandler
        | binary run => simpa [hhandler, Except.map, Handler.apply] using Does.binary i run hdecode hhandler
  · intro h
    cases h with
    | invalidWord hdecode => simp [hdecode, Except.map]
    | unimplemented i hdecode hhandler => simp [hdecode, hhandler, Except.map]
    | nullary i run hdecode hhandler | unary i run hdecode hhandler | binary i run hdecode hhandler =>
      simp [hdecode, hhandler, Except.map, Handler.apply]

namespace Engine

/-- The state after a number of steps without regard to a limit. There is none if the script is over before, or a word fails. -/
def after? (e : Engine σ) (s : Script) : Nat → Machine σ → Option (Machine σ)
  | 0, m => some m
  | n + 1, m =>
    match e.step? s m with
    | some (.ok m') => e.after? s n m'
    | _ => none

/-- A run that has executed `n` words and is now in state `m` ends there: the script has returned or the address is outside the
code, or the next word fails, or there is a next word and the limit is used up. The limit is no obstacle to the end of a script, but
comes before the failure of a word. -/
inductive Stops (e : Engine σ) (s : Script) (n : Nat) (m : Machine σ) : Finish σ → Prop where
  | finished : m.halted = true ∨ s.code.size ≤ m.pc → e.stepLimit = 0 ∨ n ≤ e.stepLimit →
      Stops e s n m ⟨.ok ⟨n, m.halted⟩, m.host⟩
  | failed (fault : Fault) : e.step? s m = some (.error fault) → e.stepLimit = 0 ∨ n < e.stepLimit →
      Stops e s n m ⟨.error ⟨m.pc, fault⟩, m.host⟩
  | limited : m.halted = false ∧ m.pc < s.code.size → e.stepLimit ≠ 0 → n = e.stepLimit →
      Stops e s n m ⟨.error ⟨m.pc, .stepLimit e.stepLimit⟩, m.host⟩

variable {e : Engine σ} {s : Script} {m : Machine σ} {f : Finish σ} {n : Nat}

/-! ## One round of a run -/

/-- No word is due when the script has returned or the address is outside the code. -/
theorem due?_eq_none_iff : m.due? s = none ↔ m.halted = true ∨ s.code.size ≤ m.pc := by
  unfold Machine.due?
  cases m.halted <;> simp

/-- A word is due when the script has not returned and the address is in the code. -/
theorem due?_ne_none_iff : m.due? s ≠ none ↔ m.halted = false ∧ m.pc < s.code.size := by
  rw [ne_eq, due?_eq_none_iff, not_or, Bool.not_eq_true, Nat.not_le]

/-- There is no step once the script has returned or the address is outside the code. -/
theorem step?_eq_none (h : m.halted = true ∨ s.code.size ≤ m.pc) : e.step? s m = none := by
  rw [step?, due?_eq_none_iff.mpr h, Option.map_none]

/-- Before that, a step moves the address past the word at it and does what this word does. -/
theorem step?_eq_some_iff (hrunning : m.halted = false) (hinside : m.pc < s.code.size) {result : Except Fault (Machine σ)} :
    e.step? s m = some result ↔ e.dispatch.Does s.code[m.pc] s.literals { m with pc := m.pc + 1 } result := by
  have hdue : m.due? s = some s.code[m.pc] := by
    rw [Machine.due?, hrunning]
    exact Array.getElem?_eq_getElem hinside
  rw [step?, hdue, Option.map_some, Option.some_inj]
  exact Dispatch.execute_eq_iff

/-- A step fails when a word is due that means nothing. -/
theorem step?_eq_error_iff {fault : Fault} :
    e.step? s m = some (.error fault) ↔ ∃ word, m.due? s = some word ∧ e.dispatch.actionOf word = .error fault := by
  simp only [step?, Option.map_eq_some_iff, Dispatch.execute]
  refine exists_congr fun word => and_congr_right fun _ => ?_
  cases e.dispatch.actionOf word <;> simp [Except.map]

/-- A word has an action when it decodes to an instruction whose opcode has a handler: what the handler does, given the
arguments. -/
theorem actionOf_eq_ok_iff {d : Dispatch σ} {word : UInt32} {act : Literals → Machine σ → Machine σ} :
    d.actionOf word = .ok act ↔
      ∃ i h, Instruction.decode? word = some i ∧ d.handler? i.opcode = some h ∧ h.apply i.arg0 i.arg1 = act := by
  unfold Dispatch.actionOf Dispatch.action
  cases hdecode : Instruction.decode? word with
  | none => simp
  | some i => cases hhandler : d.handler? i.opcode <;> simp [hhandler]

/-- The limit is no matter of a single word. -/
theorem actionOf_ne_stepLimit {d : Dispatch σ} {word : UInt32} {limit : Nat} :
    d.actionOf word ≠ .error (.stepLimit limit) := by
  unfold Dispatch.actionOf Dispatch.action
  cases Instruction.decode? word with
  | none => simp
  | some i => cases hhandler : d.handler? i.opcode <;> simp [hhandler]

/-- A step leads to a state when a word is due and its action leads there. -/
theorem step?_eq_ok_iff {m' : Machine σ} :
    e.step? s m = some (.ok m') ↔
      ∃ word act, m.due? s = some word ∧ e.dispatch.actionOf word = .ok act ∧ act s.literals m.next = m' := by
  simp only [step?, Option.map_eq_some_iff, Dispatch.execute]
  refine exists_congr fun word => ?_
  cases e.dispatch.actionOf word <;> simp [Except.map]

/-- A word that is due is the word of the code at the current address. -/
theorem getElem?_of_due? {word : UInt32} (h : m.due? s = some word) : s.code[m.pc]? = some word := by
  unfold Machine.due? at h
  split at h
  · cases h
  · exact h

/-- The address of a word that is due lies in the code. -/
theorem pc_lt_of_due? {word : UInt32} (h : m.due? s = some word) : m.pc < s.code.size :=
  (Array.getElem?_eq_some_iff.mp (getElem?_of_due? h)).1

/-- A word that is due is a word of the code. -/
theorem mem_code_of_due? {word : UInt32} (h : m.due? s = some word) : word ∈ s.code.toList :=
  Array.mem_toList_iff.mpr (Array.mem_of_getElem? (getElem?_of_due? h))

/-- A run stops within its limit. -/
theorem Stops.within (h : e.Stops s n m f) : e.stepLimit = 0 ∨ n ≤ e.stepLimit := by
  cases h with
  | finished _ hn => exact hn
  | failed _ _ hn => exact hn.imp_right Nat.le_of_lt
  | limited _ _ hn => exact Or.inr (Nat.le_of_eq hn)

/-- A run in a state where it stops gives the end that it comes to. -/
theorem Stops.runFrom (h : e.Stops s n m f) (patience : Nat) : e.runFrom s patience n m = some f := by
  unfold Engine.runFrom
  cases h with
  | finished hover _ => simp only [due?_eq_none_iff.mpr hover]
  | failed fault hstep hn =>
    obtain ⟨word, hdue, hact⟩ := step?_eq_error_iff.mp hstep
    have hlimit : ¬ (e.stepLimit ≠ 0 ∧ e.stepLimit ≤ n) := by omega
    simp only [hdue, hact, if_neg hlimit]
  | limited hinside hne hn =>
    obtain ⟨word, hdue⟩ := Option.ne_none_iff_exists'.mp (due?_ne_none_iff.mpr hinside)
    have hlimit : e.stepLimit ≠ 0 ∧ e.stepLimit ≤ n := ⟨hne, Nat.le_of_eq hn.symm⟩
    simp only [hdue, if_pos hlimit]

/-- A run whose limit is not used up takes the step that there is, if it may go on at all. -/
theorem runFrom_of_step {m' : Machine σ} (h : e.step? s m = some (.ok m')) (hn : e.stepLimit = 0 ∨ n < e.stepLimit)
    (patience : Nat) :
    e.runFrom s 0 n m = none ∧ e.runFrom s (patience + 1) n m = e.runFrom s patience (n + 1) m' := by
  obtain ⟨word, act, hdue, hact, rfl⟩ := step?_eq_ok_iff.mp h
  have hlimit : ¬ (e.stepLimit ≠ 0 ∧ e.stepLimit ≤ n) := by omega
  constructor
  · rw [Engine.runFrom]
    simp only [hdue, hact, if_neg hlimit]
  · rw [Engine.runFrom]
    simp only [hdue, hact, if_neg hlimit]

/-- A run that is within its limit stops where it is or takes a step. -/
theorem stops_or_step (e : Engine σ) (s : Script) (m : Machine σ) (hn : e.stepLimit = 0 ∨ n ≤ e.stepLimit) :
    (∃ f, e.Stops s n m f) ∨ (e.stepLimit = 0 ∨ n < e.stepLimit) ∧ ∃ m', e.step? s m = some (.ok m') := by
  cases hdue : m.due? s with
  | none => exact Or.inl ⟨_, .finished (due?_eq_none_iff.mp hdue) hn⟩
  | some word =>
    by_cases hlimit : e.stepLimit = 0 ∨ n < e.stepLimit
    · cases hact : e.dispatch.actionOf word with
      | error fault => exact Or.inl ⟨_, .failed fault (step?_eq_error_iff.mpr ⟨word, hdue, hact⟩) hlimit⟩
      | ok act => exact Or.inr ⟨hlimit, _, step?_eq_ok_iff.mpr ⟨word, act, hdue, hact, rfl⟩⟩
    · have hne : m.due? s ≠ none := hdue ▸ Option.some_ne_none word
      exact Or.inl ⟨_, .limited (due?_ne_none_iff.mp hne) (by omega) (by omega)⟩

/-! ## Whole runs -/

/-- One step and then some more. -/
theorem after?_succ_eq_some_iff {k : Nat} {m' : Machine σ} :
    e.after? s (k + 1) m = some m' ↔ ∃ m₁, e.step? s m = some (.ok m₁) ∧ e.after? s k m₁ = some m' := by
  rw [after?]
  constructor
  · intro h
    split at h
    · rename_i m₁ hstep
      exact ⟨m₁, hstep, h⟩
    · cases h
  · rintro ⟨m₁, hstep, h⟩
    rw [hstep]
    exact h

/-- What every step keeps is kept by any number of steps. The steps are counted, so what is kept may speak of their number. -/
theorem after?_keeps {P : Nat → Machine σ → Prop}
    (hstep : ∀ n m m', P n m → e.step? s m = some (.ok m') → P (n + 1) m') {k : Nat} {m' : Machine σ} (hm : P n m)
    (h : e.after? s k m = some m') : P (n + k) m' := by
  induction k generalizing n m with
  | zero =>
    cases h
    exact hm
  | succ k ih =>
    obtain ⟨m₁, hfirst, hrest⟩ := after?_succ_eq_some_iff.mp h
    rw [← Nat.add_assoc, Nat.add_right_comm]
    exact ih (hstep n m m₁ hm hfirst) hrest

/-- What holds before the first step and is kept by every step holds after any number of steps. -/
theorem after?_keeps_from_first {P : Nat → Machine σ → Prop}
    (hstep : ∀ n m m', P n m → e.step? s m = some (.ok m') → P (n + 1) m') {k : Nat} {m' : Machine σ} (hm : P 0 m)
    (h : e.after? s k m = some m') : P k m' := by
  have hkept := after?_keeps hstep hm h
  rwa [Nat.zero_add] at hkept

/-- A run from a state within its limit ends with `f` exactly when it comes, in at most `patience` steps, to a state where it
stops with `f`. -/
theorem runFrom_eq_some_iff {patience : Nat} (hn : e.stepLimit = 0 ∨ n ≤ e.stepLimit) :
    e.runFrom s patience n m = some f ↔
      ∃ k m', e.after? s k m = some m' ∧ e.Stops s (n + k) m' f ∧ k ≤ patience := by
  constructor
  · intro h
    induction patience generalizing n m with
    | zero =>
      rcases stops_or_step e s m hn with ⟨f', hstop⟩ | ⟨hlimit, m', hstep⟩
      · rw [hstop.runFrom, Option.some_inj] at h
        exact ⟨0, m, rfl, h ▸ hstop, Nat.le_refl 0⟩
      · rw [(runFrom_of_step hstep hlimit 0).1] at h
        cases h
    | succ patience ih =>
      rcases stops_or_step e s m hn with ⟨f', hstop⟩ | ⟨hlimit, m', hstep⟩
      · rw [hstop.runFrom, Option.some_inj] at h
        exact ⟨0, m, rfl, h ▸ hstop, Nat.zero_le _⟩
      · rw [(runFrom_of_step hstep hlimit patience).2] at h
        obtain ⟨k, m'', hafter, hstop, hk⟩ := ih (by omega) h
        rw [Nat.add_right_comm] at hstop
        exact ⟨k + 1, m'', after?_succ_eq_some_iff.mpr ⟨m', hstep, hafter⟩, hstop, Nat.succ_le_succ hk⟩
  · rintro ⟨k, m', hafter, hstop, hk⟩
    induction k generalizing n m patience with
    | zero =>
      cases hafter
      exact hstop.runFrom patience
    | succ k ih =>
      obtain ⟨m₁, hstep, hafter⟩ := after?_succ_eq_some_iff.mp hafter
      obtain ⟨patience, rfl⟩ : ∃ p, patience = p + 1 := ⟨patience - 1, by omega⟩
      have hwithin := hstop.within
      rw [(runFrom_of_step hstep (by omega) patience).2]
      rw [← Nat.add_assoc, Nat.add_right_comm] at hstop
      exact ih (by omega) hafter hstop (Nat.le_of_succ_le_succ hk)

/-- A run that is prepared to use up its limit ends. -/
theorem runFrom_isSome {patience : Nat} (hne : e.stepLimit ≠ 0) (hn : n ≤ e.stepLimit)
    (hp : e.stepLimit ≤ n + patience) : ∃ f, e.runFrom s patience n m = some f := by
  induction patience generalizing n m with
  | zero =>
    rcases stops_or_step e s m (Or.inr hn) with ⟨f, hstop⟩ | ⟨hlimit, _⟩
    · exact ⟨f, hstop.runFrom 0⟩
    · omega
  | succ patience ih =>
    rcases stops_or_step e s m (Or.inr hn) with ⟨f, hstop⟩ | ⟨hlimit, m', hstep⟩
    · exact ⟨f, hstop.runFrom _⟩
    · rw [(runFrom_of_step hstep hlimit patience).2]
      exact ih (by omega) (by omega)

/-- A run ends with `f` exactly when it comes to a state where it stops with `f`; without a limit, in at most `patience` steps. -/
theorem run_eq_some_iff {patience : Nat} {host : σ} :
    e.run patience s host = some f ↔
      ∃ n m, e.after? s n (.start host) = some m ∧ e.Stops s n m f ∧ (e.stepLimit = 0 → n ≤ patience) := by
  rw [run, runFrom_eq_some_iff (Or.inr (Nat.zero_le _))]
  refine exists_congr fun n => exists_congr fun m => and_congr_right fun _ => ?_
  rw [Nat.zero_add]
  refine and_congr_right fun hstop => ?_
  have hwithin := hstop.within
  split <;> omega

/-- A run under a limit ends. -/
theorem run_isSome (patience : Nat) (s : Script) (host : σ) (hne : e.stepLimit ≠ 0) :
    ∃ f, e.run patience s host = some f := by
  rw [run, if_neg hne]
  exact runFrom_isSome hne (Nat.zero_le _) (Nat.le_add_left _ _)

/-- The limit plays no part in the steps that are taken without regard to it. -/
theorem after?_withLimit (e : Engine σ) (limit k : Nat) (m : Machine σ) :
    { e with stepLimit := limit }.after? s k m = e.after? s k m := by
  induction k generalizing m with
  | zero => rfl
  | succ k ih =>
    have hstep : { e with stepLimit := limit }.step? s m = e.step? s m := rfl
    rw [after?, after?, hstep]
    split
    · exact ih _
    · rfl

/-- A script that has a word due only after fewer than `bound` words comes to its end by itself, under a limit that is no smaller
and without one. -/
theorem exists_run_of_bounded {bound : Nat} {host : σ}
    (hbound : ∀ n m, e.after? s n (.start host) = some m → n ≤ bound ∧ (m.due? s ≠ none → n < bound))
    (hlimit : e.stepLimit = 0 ∨ bound ≤ e.stepLimit) :
    ∃ f, (∀ patience, bound ≤ patience → e.run patience s host = some f) ∧
      ∀ pc limit, f.result ≠ .error ⟨pc, .stepLimit limit⟩ := by
  -- Under a limit of one word more the run ends, and it is not the limit that ends it.
  obtain ⟨f, hrun⟩ := run_isSome 0 s host (e := { e with stepLimit := bound + 1 }) (Nat.succ_ne_zero bound)
  obtain ⟨n, m, hafter, hstop, -⟩ := run_eq_some_iff.mp hrun
  rw [after?_withLimit] at hafter
  obtain ⟨hn, hless⟩ := hbound n m hafter
  have hends : e.Stops s n m f → ∀ patience, bound ≤ patience → e.run patience s host = some f := by
    intro hstop patience hpatience
    exact run_eq_some_iff.mpr ⟨n, m, hafter, hstop, fun _ => Nat.le_trans hn hpatience⟩
  cases hstop with
  | finished hover _ =>
    refine ⟨_, hends (.finished hover (by omega)), ?_⟩
    intro pc limit h
    cases h
  | failed fault hstep _ =>
    obtain ⟨word, hdue, hact⟩ := step?_eq_error_iff.mp hstep
    have hn := hless (hdue ▸ Option.some_ne_none word)
    refine ⟨_, hends (.failed fault hstep (by omega)), ?_⟩
    intro pc limit h
    cases h
    exact actionOf_ne_stepLimit hact
  | limited _ _ hn =>
    simp only at hn
    omega

/-- One step without regard to a limit: there is none once the script has returned or the address is at or past the end of the
code, and otherwise the address moves on by one and then happens what the word does that was at it. A run is the first state at
which it stops, counted in such steps. Under a limit it always ends. A fault is at an address in the code. A script that is over
under one limit is over in the same way under every larger one and under none. -/
theorem run_is_first_stop (e : Engine σ) (s : Script) (host : σ) :
    (∀ m : Machine σ, m.halted = true ∨ s.code.size ≤ m.pc → e.step? s m = none) ∧
    (∀ (m : Machine σ) (hinside : m.pc < s.code.size) (result : Except Fault (Machine σ)), m.halted = false →
      (e.step? s m = some result ↔ e.dispatch.Does s.code[m.pc] s.literals { m with pc := m.pc + 1 } result)) ∧
    (∀ patience f, e.run patience s host = some f ↔
      ∃ n m, e.after? s n ⟨[], 0, false, host⟩ = some m ∧ e.Stops s n m f ∧ (e.stepLimit = 0 → n ≤ patience)) ∧
    (e.stepLimit ≠ 0 → ∀ patience, ∃ f, e.run patience s host = some f) ∧
    (∀ patience abort h, e.run patience s host = some ⟨.error abort, h⟩ → abort.pc < s.code.size) ∧
    (∀ patience outcome h limit, e.run patience s host = some ⟨.ok outcome, h⟩ →
      limit = 0 ∨ e.stepLimit ≠ 0 ∧ e.stepLimit ≤ limit →
      { e with stepLimit := limit }.run outcome.steps s host = some ⟨.ok outcome, h⟩) := by
  refine ⟨fun _ => step?_eq_none, fun _ hinside _ hrunning => step?_eq_some_iff hrunning hinside, fun _ _ => run_eq_some_iff,
    fun hne patience => run_isSome patience s host hne, ?_, ?_⟩
  · intro patience abort h hrun
    obtain ⟨n, m, -, hstop, -⟩ := run_eq_some_iff.mp hrun
    cases hstop with
    | failed fault hstep _ =>
      obtain ⟨word, hdue, -⟩ := step?_eq_error_iff.mp hstep
      exact pc_lt_of_due? hdue
    | limited hinside _ _ => exact hinside.2
  · intro patience outcome h limit hrun hlimit
    obtain ⟨n, m, hafter, hstop, -⟩ := run_eq_some_iff.mp hrun
    cases hstop with
    | finished hover hn =>
      rw [run_eq_some_iff]
      refine ⟨n, m, (after?_withLimit e limit n _).trans hafter, .finished hover ?_, fun _ => Nat.le_refl n⟩
      simp only
      omega

end Engine

end ScriptEngine
