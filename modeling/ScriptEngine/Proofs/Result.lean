/-!
# Computations in sequence

What is known of the parts of a computation that succeeded, and of the part that failed first. A loop that takes steps up to the
first that fails is a fold over the steps (`foldlM_of_load`). Steps that go on whatever happens are a fold, too: what is known from
them of the state is known step by step (`foldl_follows`), and what they have gained was gained by one of them (`foldl_gains_iff`).
-/

namespace ScriptEngine

/-- Two computations in sequence succeed when the first one does and the second one does with its value. -/
theorem bind_eq_ok_iff {ε α β : Type} {x : Except ε α} {f : α → Except ε β} {b : β} :
    x >>= f = .ok b ↔ ∃ a, x = .ok a ∧ f a = .ok b := by
  constructor
  · intro h
    cases x with
    | error e => cases h
    | ok a => exact ⟨a, rfl, h⟩
  · rintro ⟨a, rfl, h⟩
    exact h

/-- Two computations in sequence fail when the first one does, or when it succeeds and the second one fails with its value. -/
theorem bind_eq_error_iff {ε α β : Type} {x : Except ε α} {f : α → Except ε β} {e : ε} :
    x >>= f = .error e ↔ x = .error e ∨ ∃ a, x = .ok a ∧ f a = .error e := by
  constructor
  · intro h
    cases x with
    | error e' =>
      cases h
      exact Or.inl rfl
    | ok a => exact Or.inr ⟨a, rfl, h⟩
  · rintro (rfl | ⟨a, rfl, h⟩)
    · rfl
    · exact h

/-- What is made of the value of a computation is there when the computation succeeds. -/
theorem map_eq_ok_iff {ε α β : Type} {f : α → β} {x : Except ε α} {b : β} : f <$> x = .ok b ↔ ∃ a, x = .ok a ∧ f a = b := by
  cases x <;> simp [Functor.map, Except.map]

/-- A computation fails whatever would have been made of its value. -/
theorem map_eq_error_iff {ε α β : Type} {f : α → β} {x : Except ε α} {e : ε} : f <$> x = .error e ↔ x = .error e := by
  cases x <;> simp [Functor.map, Except.map]

theorem eq_ok_of_toOption {ε α : Type} {x : Except ε α} {a : α} (h : x.toOption = some a) : x = .ok a := by
  cases x with
  | error e => cases h
  | ok b =>
    cases h
    rfl

/-- A pair of which the second component is known. -/
theorem exists_eq_of_snd_eq {α β : Type} {p : α × β} {b : β} (h : p.2 = b) : ∃ a, p = (a, b) := ⟨p.1, Prod.ext rfl h⟩

/-! ## Steps that go on whatever happens -/

/-- What is known of a state from the steps that have led to it is known after more steps, too, if one more step passes it on. -/
theorem foldl_follows {τ α : Type} {step : τ → α → τ} {P : List α → τ → Prop}
    (hstep : ∀ done t x, P done t → P (done ++ [x]) (step t x)) {done : List α} {t : τ} (h : P done t) (more : List α) :
    P (done ++ more) (more.foldl step t) := by
  induction more generalizing done t with
  | nil => rwa [List.append_nil]
  | cons x more ih =>
    rw [List.append_cons, List.foldl_cons]
    exact ih (hstep done t x h)

/-- What steps may bring about and never undo is true after some steps when it was true before, or one of them has brought it
about. -/
theorem foldl_gains_iff {τ α : Type} {step : τ → α → τ} {P : τ → Prop} {Q : τ → α → Prop}
    (hstep : ∀ t x, P (step t x) ↔ P t ∨ Q t x) {t : τ} {xs : List α} :
    P (xs.foldl step t) ↔ P t ∨ ∃ before x after, xs = before ++ x :: after ∧ Q (before.foldl step t) x := by
  induction xs generalizing t with
  | nil => simp
  | cons x xs ih =>
    rw [List.foldl_cons, ih, hstep]
    constructor
    · rintro ((hold | hx) | ⟨before, y, after, rfl, hy⟩)
      · exact Or.inl hold
      · exact Or.inr ⟨[], x, xs, rfl, hx⟩
      · exact Or.inr ⟨x :: before, y, after, rfl, hy⟩
    · rintro (hold | ⟨before, y, after, hsplit, hy⟩)
      · exact Or.inl (Or.inl hold)
      · cases before with
        | nil =>
          cases hsplit
          exact Or.inl (Or.inr hy)
        | cons z before =>
          cases hsplit
          exact Or.inr ⟨before, y, after, rfl, hy⟩

/-! ## Steps up to the first that fails -/

section Fold

variable {ε τ α : Type} {step : τ → α → Except ε τ} {t t' : τ} {xs : List α}

/-- What every step keeps is true of the end of a fold that succeeds. -/
theorem foldlM_keeps {P : τ → Prop} (hstep : ∀ t x t', P t → step t x = .ok t' → P t') (ht : P t)
    (h : xs.foldlM step t = .ok t') : P t' := by
  induction xs generalizing t with
  | nil =>
    cases h
    exact ht
  | cons x xs ih =>
    rw [List.foldlM_cons] at h
    obtain ⟨t₁, hx, h⟩ := bind_eq_ok_iff.mp h
    exact ih (hstep t x t₁ ht hx) h

/-- A fold fails with the error of the first step that does. -/
theorem foldlM_eq_error_iff {e : ε} :
    xs.foldlM step t = .error e ↔
      ∃ before x after t₁, xs = before ++ x :: after ∧ before.foldlM step t = .ok t₁ ∧ step t₁ x = .error e := by
  induction xs generalizing t with
  | nil =>
    constructor
    · intro h
      cases h
    · rintro ⟨before, x, after, t₁, hxs, -⟩
      cases before <;> cases hxs
  | cons y xs ih =>
    rw [List.foldlM_cons, bind_eq_error_iff]
    constructor
    · rintro (hy | ⟨t₁, hy, h⟩)
      · exact ⟨[], y, xs, t, rfl, rfl, hy⟩
      · obtain ⟨before, x, after, t₂, rfl, hbefore, hx⟩ := ih.mp h
        refine ⟨y :: before, x, after, t₂, rfl, ?_, hx⟩
        rw [List.foldlM_cons]
        exact bind_eq_ok_iff.mpr ⟨t₁, hy, hbefore⟩
    · rintro ⟨before, x, after, t₁, hxs, hbefore, hx⟩
      cases before with
      | nil =>
        cases hxs
        cases hbefore
        exact Or.inl hx
      | cons z before =>
        cases hxs
        rw [List.foldlM_cons] at hbefore
        obtain ⟨t₂, hy, hbefore⟩ := bind_eq_ok_iff.mp hbefore
        exact Or.inr ⟨t₂, hy, ih.mpr ⟨before, x, after, t₁, rfl, hbefore, hx⟩⟩

/-- Steps that come in groups are a fold over the groups. -/
theorem foldlM_flatMap {β : Type} (steps : β → List α) (groups : List β) (t : τ) :
    (groups.flatMap steps).foldlM step t = groups.foldlM (fun t g => (steps g).foldlM step t) t := by
  induction groups generalizing t with
  | nil => rfl
  | cons g groups ih =>
    rw [List.flatMap_cons, List.foldlM_append, List.foldlM_cons]
    congr 1
    funext t₁
    exact ih t₁

/-- A loop that takes steps up to the first that fails ends like a fold over the steps. -/
theorem foldlM_of_load (step : τ → α → Except ε τ) (load : τ → List α → τ × Option ε) (hnil : ∀ t, load t [] = (t, none))
    (hok : ∀ t x t' xs, step t x = .ok t' → load t (x :: xs) = load t' xs)
    (herror : ∀ t x e xs, step t x = .error e → load t (x :: xs) = (t, some e)) (t : τ) (xs : List α) :
    (∀ t', load t xs = (t', none) → xs.foldlM step t = .ok t') ∧
      ∀ t' e, load t xs = (t', some e) → xs.foldlM step t = .error e := by
  induction xs generalizing t with
  | nil =>
    rw [hnil]
    refine ⟨?_, ?_⟩
    · intro t' h
      cases h
      rfl
    · intro t' e h
      cases h
  | cons x xs ih =>
    rw [List.foldlM_cons]
    cases hx : step t x with
    | error e =>
      rw [herror t x e xs hx]
      refine ⟨?_, ?_⟩
      · intro t' h
        cases h
      · intro t' e' h
        cases h
        rfl
    | ok t₁ =>
      rw [hok t x t₁ xs hx]
      exact ih t₁

end Fold

end ScriptEngine
