import ScriptEngine.Proofs.Machine.Installation
import ScriptEngine.Proofs.Word.Bijection

/-!
# What a history of attempts leaves installed

Handlers are installed in any number of attempts, and an attempt that is refused changes nothing. An opcode then has the handler
of the one attempt for it that succeeded (`Dispatch.Succeeds`), which is the first one that passed the checks. How an attempt is
answered and what a word does are told by the attempts alone, without regard to the table that they have filled.
-/

namespace ScriptEngine.Dispatch

variable {σ : Type}

/-! ## Attempts -/

/-- Of some attempts on an empty table, the one that comes after `before` is for the opcode, with the handler, and it succeeds. -/
def Succeeds (attempts before : List (Opcode × Handler σ)) (op : Opcode) (h : Handler σ) : Prop :=
  ∃ after d', attempts = before ++ (op, h) :: after ∧ (before.foldl attempt {}).install op h = .ok d'

/-- What an attempt is answered after some other ones. Each case says that no case above it applies. -/
inductive Answers (attempts : List (Opcode × Handler σ)) (op : Opcode) (h : Handler σ) :
    Except SetupError (Dispatch σ) → Prop where
  | outOfSegment : ¬ op.Fits → Answers attempts op h (.error (.outOfSegment op.segment op.code))
  | arityMismatch : op.Fits → h.arity ≠ op.segment.arity → Answers attempts op h (.error (.arityMismatch op h.arity))
  | alreadyInstalled (before : List (Opcode × Handler σ)) (g : Handler σ) : op.Fits → h.arity = op.segment.arity →
      Succeeds attempts before op g → Answers attempts op h (.error (.alreadyInstalled op))
  | installed : op.Fits → h.arity = op.segment.arity → (∀ before g, ¬ Succeeds attempts before op g) →
      Answers attempts op h (.ok ⟨(attempts.foldl attempt {}).handlers.insert op h⟩)

variable {d : Dispatch σ} {op : Opcode} {h : Handler σ} {attempts before before' : List (Opcode × Handler σ)}

/-- An attempt gives its own opcode its handler, if it succeeds, and does nothing else. -/
theorem handler?_attempt_iff {x : Opcode × Handler σ} :
    (d.attempt x).handler? op = some h ↔ d.handler? op = some h ∨ x = (op, h) ∧ ∃ d', d.install op h = .ok d' := by
  obtain ⟨q, g⟩ := x
  cases hinstall : d.install q g with
  | error e =>
    rw [attempt_of_error hinstall]
    refine (or_iff_left ?_).symm
    rintro ⟨hx, d', hok⟩
    cases hx
    rw [hinstall] at hok
    cases hok
  | ok d' =>
    obtain ⟨-, -, hfree, rfl⟩ := install_eq_ok_iff.mp hinstall
    have hnone : d.handler? q = none := OpcodeTable.contains_eq_false_iff.mp hfree
    rw [attempt_of_ok hinstall, handler?_insert]
    by_cases hop : q = op
    · subst hop
      rw [if_pos rfl, hnone]
      constructor
      · intro hg
        cases hg
        exact Or.inr ⟨rfl, _, hinstall⟩
      · rintro (hno | ⟨hx, -⟩)
        · cases hno
        · cases hx
          rfl
    · simp [hop]

/-- After some attempts an opcode has a handler when one of them gave it the handler. -/
theorem handler?_attempts_iff : (attempts.foldl attempt {}).handler? op = some h ↔ ∃ before, Succeeds attempts before op h := by
  have hempty : handler? ({} : Dispatch σ) op ≠ some h := by
    intro hh
    cases hh
  have hstep (d : Dispatch σ) (x : Opcode × Handler σ) : (d.attempt x).handler? op = some h ↔
      d.handler? op = some h ∨ x = (op, h) ∧ ∃ d', d.install op h = .ok d' := handler?_attempt_iff
  rw [foldl_gains_iff (P := fun d : Dispatch σ => d.handler? op = some h) hstep, or_iff_right hempty]
  constructor
  · rintro ⟨before, x, after, hsplit, rfl, d', hok⟩
    exact ⟨before, after, d', hsplit, hok⟩
  · rintro ⟨before, after, d', hsplit, hok⟩
    exact ⟨before, (op, h), after, hsplit, rfl, d', hok⟩

/-- After some attempts an opcode has no handler when none of them gave it one. -/
theorem contains_attempts_eq_false_iff :
    (attempts.foldl attempt {}).contains op = false ↔ ∀ before g, ¬ Succeeds attempts before op g := by
  rw [contains, OpcodeTable.contains_eq_false_iff, Option.eq_none_iff_forall_ne_some]
  have hgiven (g : Handler σ) : (attempts.foldl attempt {}).handlers.get? op = some g ↔ _ := handler?_attempts_iff
  simp only [ne_eq, hgiven, not_exists]
  exact forall_comm

/-- An attempt that comes after a successful one for the same opcode does not succeed. -/
theorem Succeeds.refuses {g : Handler σ} (hs : Succeeds attempts before op h) (d' : Dispatch σ) :
    (attempts.foldl attempt {}).install op g ≠ .ok d' := by
  intro hok
  obtain ⟨-, -, hfree, -⟩ := install_eq_ok_iff.mp hok
  exact contains_attempts_eq_false_iff.mp hfree before h hs

/-- For each opcode one attempt succeeds at most. -/
theorem Succeeds.unique {g : Handler σ} (hs : Succeeds attempts before op h) (hs' : Succeeds attempts before' op g) :
    before = before' ∧ h = g := by
  obtain ⟨after, d, rfl, hok⟩ := hs
  obtain ⟨after', d', hsplit, hok'⟩ := hs'
  -- The later of two attempts would have the earlier one, which has succeeded, in front of it.
  rcases List.append_eq_append_iff.mp hsplit with ⟨between, rfl, hrest⟩ | ⟨between, rfl, hrest⟩
  · cases between with
    | nil =>
      cases hrest
      exact ⟨(List.append_nil before).symm, rfl⟩
    | cons x between =>
      cases hrest
      exact absurd hok' (Succeeds.refuses ⟨between, d, rfl, hok⟩ d')
  · cases between with
    | nil =>
      cases hrest
      exact ⟨List.append_nil before', rfl⟩
    | cons x between =>
      cases hrest
      exact absurd hok (Succeeds.refuses ⟨between, d', rfl, hok'⟩ d)

/-- An attempt keeps a table well-formed. -/
theorem WellFormed.attempt (hd : d.WellFormed) (x : Opcode × Handler σ) : (d.attempt x).WellFormed := by
  cases hi : d.install x.1 x.2 with
  | error e => rwa [attempt_of_error hi]
  | ok d' =>
    rw [attempt_of_ok hi]
    exact hd.install hi

/-- Attempts lead to a well-formed table, whichever of them succeed. -/
theorem wellFormed_attempts (attempts : List (Opcode × Handler σ)) : WellFormed (attempts.foldl attempt ({} : Dispatch σ)) :=
  List.foldlRecOn attempts attempt wellFormed_empty fun _ hd x _ => hd.attempt x

/-- An attempt gets its answer. -/
theorem install_attempts_eq_iff {answer : Except SetupError (Dispatch σ)} :
    (attempts.foldl attempt {}).install op h = answer ↔ Answers attempts op h answer := by
  constructor
  · rintro rfl
    rw [install_eq]
    split
    · rename_i hfits
      exact .outOfSegment hfits
    rename_i hfits
    have hfits := Decidable.not_not.mp hfits
    split
    · rename_i harity
      exact .arityMismatch hfits harity
    rename_i harity
    have harity := Decidable.not_not.mp harity
    split
    · rename_i hcontains
      obtain ⟨g, hg⟩ := Option.isSome_iff_exists.mp hcontains
      obtain ⟨before, hs⟩ := handler?_attempts_iff.mp hg
      exact .alreadyInstalled before g hfits harity hs
    · rename_i hcontains
      exact .installed hfits harity (contains_attempts_eq_false_iff.mp (Bool.eq_false_iff.mpr hcontains))
  · intro hanswer
    cases hanswer with
    | outOfSegment hfits => rw [install_eq, if_pos hfits]
    | arityMismatch hfits harity => rw [install_eq, if_neg (Decidable.not_not.mpr hfits), if_pos harity]
    | alreadyInstalled before g hfits harity hs =>
      have hcontains : (attempts.foldl attempt {}).contains op = true :=
        Option.isSome_iff_exists.mpr ⟨g, handler?_attempts_iff.mpr ⟨before, hs⟩⟩
      rw [install_eq, if_neg (Decidable.not_not.mpr hfits), if_neg (Decidable.not_not.mpr harity), if_pos hcontains]
    | installed hfits harity hnone =>
      exact install_eq_ok_iff.mpr ⟨hfits, harity, contains_attempts_eq_false_iff.mpr hnone, rfl⟩

/-! ## Words -/

/-- Executing a word in place. The machine is a state here, so that a fault leaves a machine behind, too. -/
def executeInPlace (d : Dispatch σ) (word : UInt32) (l : Literals) : ExceptT Fault (StateM (Machine σ)) Unit :=
  match Instruction.decode? word with
  | none => throw (.invalidWord word)
  | some i =>
    match d.handler? i.opcode with
    | none => throw (.unimplemented i.opcode)
    | some h => modify (h.apply i.arg0 i.arg1 l)

/-- What a word does to a machine in place after some attempts: nothing, if its selector is not assigned or if no attempt gave its
opcode a handler, and otherwise what that handler does with the arguments that it takes, once. -/
inductive Executes (attempts : List (Opcode × Handler σ)) (word : UInt32) (l : Literals) (m : Machine σ) :
    Except Fault Unit × Machine σ → Prop where
  | invalidWord : 0b110011 ≤ word.toNat / 2 ^ 26 → Executes attempts word l m (.error (.invalidWord word), m)
  | unimplemented (i : Instruction) : Instruction.decode? word = some i → (∀ before h, ¬ Succeeds attempts before i.opcode h) →
      Executes attempts word l m (.error (.unimplemented i.opcode), m)
  | nullary (i : Instruction) (before : List (Opcode × Handler σ)) (run : Literals → Machine σ → Machine σ) :
      Instruction.decode? word = some i → Succeeds attempts before i.opcode (.nullary run) →
      Executes attempts word l m (.ok (), run l m)
  | unary (i : Instruction) (before : List (Opcode × Handler σ)) (run : Nat → Literals → Machine σ → Machine σ) :
      Instruction.decode? word = some i → Succeeds attempts before i.opcode (.unary run) →
      Executes attempts word l m (.ok (), run i.arg0 l m)
  | binary (i : Instruction) (before : List (Opcode × Handler σ)) (run : Nat → Nat → Literals → Machine σ → Machine σ) :
      Instruction.decode? word = some i → Succeeds attempts before i.opcode (.binary run) →
      Executes attempts word l m (.ok (), run i.arg0 i.arg1 l m)

variable {word : UInt32} {l : Literals} {m : Machine σ}

/-- A word whose opcode was given a handler does what the handler does when it is applied to both arguments. -/
theorem Executes.of_succeeds {i : Instruction} (hdecode : Instruction.decode? word = some i)
    (hs : Succeeds attempts before i.opcode h) : Executes attempts word l m (.ok (), h.apply i.arg0 i.arg1 l m) := by
  cases h with
  | nullary run => exact .nullary i before run hdecode hs
  | unary run => exact .unary i before run hdecode hs
  | binary run => exact .binary i before run hdecode hs

/-- Executing a word in place is executing the word, and a fault leaves the machine as it was. -/
theorem run_executeInPlace (d : Dispatch σ) (word : UInt32) (l : Literals) (m : Machine σ) :
    (d.executeInPlace word l).run.run m =
      match d.execute word l m with
      | .ok m' => (.ok (), m')
      | .error fault => (.error fault, m) := by
  unfold executeInPlace execute actionOf action
  cases Instruction.decode? word with
  | none => rfl
  | some i =>
    simp only
    cases d.handler? i.opcode <;> rfl

/-- A word in place does what the attempts say. -/
theorem run_executeInPlace_attempts_iff {result : Except Fault Unit × Machine σ} :
    ((attempts.foldl attempt {}).executeInPlace word l).run.run m = result ↔ Executes attempts word l m result := by
  have hnone {q : Opcode} : (attempts.foldl attempt {}).handler? q = none ↔ ∀ before g, ¬ Succeeds attempts before q g :=
    OpcodeTable.contains_eq_false_iff.symm.trans contains_attempts_eq_false_iff
  constructor
  · rintro rfl
    unfold executeInPlace
    split
    · rename_i hdecode
      exact .invalidWord (Instruction.decode?_eq_none_iff.mp hdecode)
    · rename_i i hdecode
      split
      · rename_i hhandler
        exact .unimplemented i hdecode (hnone.mp hhandler)
      · rename_i h hhandler
        obtain ⟨before, hs⟩ := handler?_attempts_iff.mp hhandler
        exact .of_succeeds hdecode hs
  · intro hexecutes
    unfold executeInPlace
    cases hexecutes with
    | invalidWord hselector =>
      rw [Instruction.decode?_eq_none_iff.mpr hselector]
      rfl
    | unimplemented i hdecode hs =>
      simp only [hdecode, hnone.mpr hs]
      rfl
    | nullary i before run hdecode hs | unary i before run hdecode hs | binary i before run hdecode hs =>
      simp only [hdecode, handler?_attempts_iff.mpr ⟨before, hs⟩]
      rfl

/-- After any attempts to install handlers, the next one is answered in this way: an opcode beyond the opcode field is outside its
segment; a handler that takes another number of arguments than the segment carries does not match; an opcode for which an earlier
attempt has succeeded has a handler already; and any other attempt succeeds. An attempt that is refused leaves the table as it is.
For each opcode one attempt succeeds at most. A word, on any machine, is invalid exactly when its selector is not assigned, and is
not implemented exactly when no attempt for its opcode has succeeded; in both cases the machine is as before. Any other word runs
the handler of the one successful attempt for its opcode with as many of its arguments as the handler takes, once. The table lists
each opcode for which an attempt has succeeded once, and no others, and its size is their number. -/
theorem attempts_decide_what_words_do (attempts : List (Opcode × Handler σ)) :
    let d : Dispatch σ := attempts.foldl attempt {}
    (∀ op h answer, d.install op h = answer ↔ Answers attempts op h answer) ∧
    (∀ op h e, d.install op h = .error e → d.attempt (op, h) = d) ∧
    (∀ op before h before' h', Succeeds attempts before op h → Succeeds attempts before' op h' → before = before' ∧ h = h') ∧
    (∀ word l m result, (d.executeInPlace word l).run.run m = result ↔ Executes attempts word l m result) ∧
    (∀ word l m, (d.executeInPlace word l).run.run m =
      match d.execute word l m with
      | .ok m' => (.ok (), m')
      | .error fault => (.error fault, m)) ∧
    d.opcodes.Nodup ∧ (∀ op, op ∈ d.opcodes ↔ ∃ before h, Succeeds attempts before op h) ∧ d.size = d.opcodes.length := by
  intro d
  have hd : d.WellFormed := wellFormed_attempts attempts
  refine ⟨fun _ _ _ => install_attempts_eq_iff, ?_, fun _ _ _ _ _ => Succeeds.unique, fun _ _ _ _ => run_executeInPlace_attempts_iff,
    run_executeInPlace d, hd.ordered.opcodes_pairwise.imp Opcode.Before.ne, ?_, OpcodeTable.size_eq_length_opcodes _⟩
  · intro op h e
    exact attempt_of_error
  · intro op
    have hlisted : op ∈ d.opcodes ↔ ∃ h, d.handler? op = some h := OpcodeTable.mem_opcodes_iff.trans Option.isSome_iff_exists
    simp only [hlisted, d, handler?_attempts_iff]
    exact exists_comm

end ScriptEngine.Dispatch
