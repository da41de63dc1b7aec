import ScriptEngine.SetupError

/-!
# Setting up in place

While an engine is put together, its tables are changed in place. A step on a table may fail, and what it has changed by that time
stays changed. That the steps here change nothing when they fail is proved of each of them (`Setup.Clean`).
-/

namespace ScriptEngine

/-- A step on a table, which gives a value or fails. -/
abbrev Setup (τ α : Type) := ExceptT SetupError (StateM τ) α

namespace Setup

variable {τ α β : Type}

/-- What a step gives on a table, and the table that it leaves behind. -/
def on (x : Setup τ α) (t : τ) : Except SetupError α × τ := x.run.run t

/-- The table that was left behind, unless there was an error. -/
def result : Except SetupError α × τ → Except SetupError τ
  | (.ok _, t) => .ok t
  | (.error e, _) => .error e

/-- The table that a step leads to, unless it fails. -/
def outcome (x : Setup τ α) (t : τ) : Except SetupError τ := result (x.on t)

/-- The table that a step leaves behind, whether it fails or not. -/
def after (x : Setup τ α) (t : τ) : τ := (x.on t).2

/-! ## Steps on a table -/

section On

variable (t : τ)

@[simp] theorem on_pure (a : α) : (pure a : Setup τ α).on t = (.ok a, t) := rfl

@[simp] theorem on_get_bind (f : τ → Setup τ β) : ((get : Setup τ τ) >>= f).on t = (f t).on t := rfl

/-- A step goes on with its value and the table that it leaves behind, unless it fails. -/
theorem on_bind (x : Setup τ α) (f : α → Setup τ β) :
    (x >>= f).on t =
      match x.on t with
      | (.ok a, t') => (f a).on t'
      | (.error e, t') => (.error e, t') := by
  unfold on
  rw [ExceptT.run_bind, StateT.run_bind]
  rcases hon : x.run.run t with ⟨_ | _, t'⟩ <;> rfl

@[simp] theorem outcome_throw_bind (e : SetupError) (f : α → Setup τ β) : ((throw e : Setup τ α) >>= f).outcome t = .error e := rfl

@[simp] theorem outcome_get_bind (f : τ → Setup τ β) : ((get : Setup τ τ) >>= f).outcome t = (f t).outcome t := rfl

@[simp] theorem outcome_ite (c : Prop) [Decidable c] (x y : Setup τ α) :
    (if c then x else y).outcome t = if c then x.outcome t else y.outcome t := by
  split <;> rfl

end On

variable {x : Setup τ α} {t t' : τ} {e : SetupError}

/-- A step leads to a table when it leaves it behind without an error. -/
theorem outcome_eq_ok_iff : x.outcome t = .ok t' ↔ ∃ a, x.on t = (.ok a, t') := by
  unfold outcome
  rcases x.on t with ⟨_ | _, t₁⟩ <;> simp [result]

/-- A step fails when it leaves a table behind with an error. -/
theorem outcome_eq_error_iff : x.outcome t = .error e ↔ ∃ t', x.on t = (.error e, t') := by
  unfold outcome
  rcases x.on t with ⟨_ | _, t₁⟩ <;> simp [result]

/-- A step that does not fail leaves behind the table that it leads to. -/
theorem after_of_ok (h : x.outcome t = .ok t') : x.after t = t' := by
  obtain ⟨a, hon⟩ := outcome_eq_ok_iff.mp h
  rw [after, hon]

/-! ## Steps that fail -/

/-- The step leaves a table as it was when it fails. -/
def Clean (x : Setup τ α) : Prop := ∀ t e t', x.on t = (.error e, t') → t' = t

theorem clean_throw (e : SetupError) : (throw e : Setup τ α).Clean := by
  intro t e' t' h
  cases h
  rfl

theorem clean_throw_bind (e : SetupError) (f : α → Setup τ β) : ((throw e : Setup τ α) >>= f).Clean := by
  intro t e' t' h
  cases h
  rfl

theorem clean_get_bind {f : τ → Setup τ β} (hf : ∀ t, (f t).Clean) : ((get : Setup τ τ) >>= f).Clean := by
  intro t e t' h
  exact hf t t e t' h

theorem clean_ite {c : Prop} [Decidable c] {x y : Setup τ α} (hx : x.Clean) (hy : y.Clean) : (if c then x else y).Clean := by
  split
  · exact hx
  · exact hy

/-- A step that fails leaves the table as it was, if it is one that does so. -/
theorem Clean.after_of_error (hx : x.Clean) (h : x.outcome t = .error e) : x.after t = t := by
  obtain ⟨t', hon⟩ := outcome_eq_error_iff.mp h
  rw [after, hon]
  exact hx t e t' hon

end Setup

end ScriptEngine
