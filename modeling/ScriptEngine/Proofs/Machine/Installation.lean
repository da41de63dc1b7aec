import ScriptEngine.Machine.Dispatch
import ScriptEngine.Proofs.Result
import ScriptEngine.Proofs.Word.Table

/-!
# Installing handlers

A handler is installed once it has passed three checks, and it is never displaced. So in a dispatch table that was filled by
installing, each opcode fits its segment, each handler takes the arguments that the segment carries, and the table is in order.
-/

namespace ScriptEngine.Dispatch

variable {σ : Type} {d d' : Dispatch σ}

/-- What becomes of a handler: it is refused by the first check that it does not pass, and is installed otherwise. -/
theorem install_eq (d : Dispatch σ) (op : Opcode) (h : Handler σ) :
    d.install op h =
      if ¬ op.Fits then .error (.outOfSegment op.segment op.code)
      else if h.arity ≠ op.segment.arity then .error (.arityMismatch op h.arity)
      else if d.contains op then .error (.alreadyInstalled op)
      else .ok ⟨d.handlers.insert op h⟩ := by
  simp only [install, installInPlace, Setup.outcome_ite, Setup.outcome_throw_bind, Setup.outcome_get_bind]
  rfl

/-- A handler that is refused leaves the table as it was. -/
theorem clean_installInPlace (op : Opcode) (h : Handler σ) : (installInPlace op h).Clean := by
  refine Setup.clean_ite (Setup.clean_throw_bind _ _) (Setup.clean_ite (Setup.clean_throw_bind _ _) ?_)
  refine Setup.clean_get_bind fun d => Setup.clean_ite (Setup.clean_throw_bind _ _) ?_
  intro t e t' h
  cases h

section Steps

variable {op : Opcode} {h : Handler σ} {hs : List (Opcode × Handler σ)} {e : SetupError}

theorem attempt_of_ok (hi : d.install op h = .ok d') : d.attempt (op, h) = d' := Setup.after_of_ok hi

theorem attempt_of_error (hi : d.install op h = .error e) : d.attempt (op, h) = d :=
  (clean_installInPlace op h).after_of_error hi

/-- Loading handlers is installing the first one and, if it is not refused, loading the others. -/
theorem load_of_ok (hi : d.install op h = .ok d') : d.load ((op, h) :: hs) = d'.load hs := by
  obtain ⟨a, hon⟩ := Setup.outcome_eq_ok_iff.mp hi
  rw [load, hon]

theorem load_of_error (hi : d.install op h = .error e) : d.load ((op, h) :: hs) = (d, some e) := by
  obtain ⟨d', hon⟩ := Setup.outcome_eq_error_iff.mp hi
  rw [load, hon, clean_installInPlace op h d e d' hon]

end Steps

/-- A handler is installed exactly when the opcode fits its segment, the handler takes the arguments that the segment carries,
and the opcode has no handler. -/
theorem install_eq_ok_iff {op : Opcode} {h : Handler σ} :
    d.install op h = .ok d' ↔
      op.Fits ∧ h.arity = op.segment.arity ∧ d.contains op = false ∧ d' = ⟨d.handlers.insert op h⟩ := by
  rw [install_eq]
  constructor
  · intro hi
    split at hi
    · cases hi
    rename_i hfits
    split at hi
    · cases hi
    rename_i harity
    split at hi
    · cases hi
    rename_i hfree
    cases hi
    exact ⟨Decidable.not_not.mp hfits, Decidable.not_not.mp harity, Bool.eq_false_iff.mpr hfree, rfl⟩
  · rintro ⟨hfits, harity, hfree, rfl⟩
    rw [if_neg (Decidable.not_not.mpr hfits), if_neg (Decidable.not_not.mpr harity), if_neg (Bool.eq_false_iff.mp hfree)]

/-- The handler of an opcode after one more has been installed. -/
theorem handler?_insert (op q : Opcode) (h : Handler σ) :
    handler? ⟨d.handlers.insert op h⟩ q = if op = q then some h else d.handler? q :=
  OpcodeTable.get?_insert d.handlers op q h

/-- What is true of the handlers of a table and of one more is true of all of them once it is installed. -/
theorem forall_handler_insert {P : Opcode → Handler σ → Prop} (hold : ∀ q g, d.handler? q = some g → P q g)
    {op : Opcode} {h : Handler σ} (hnew : P op h) :
    ∀ q g, handler? ⟨d.handlers.insert op h⟩ q = some g → P q g := by
  intro q g hg
  rw [handler?_insert] at hg
  split at hg
  · rename_i heq
    cases hg
    exact heq ▸ hnew
  · exact hold q g hg

/-- The table is in order, the opcodes fit their segments, and the handlers take what the segments carry. -/
structure WellFormed (d : Dispatch σ) : Prop where
  ordered : d.handlers.Ordered
  fits : ∀ op h, d.handler? op = some h → op.Fits
  arity : ∀ op h, d.handler? op = some h → h.arity = op.segment.arity

theorem wellFormed_empty : WellFormed ({} : Dispatch σ) := by
  refine ⟨OpcodeTable.ordered_empty, ?_, ?_⟩ <;>
  · intro op h hh
    cases hh

/-- Installing keeps a dispatch table well-formed. -/
theorem WellFormed.install (hd : d.WellFormed) {op : Opcode} {h : Handler σ} (hi : d.install op h = .ok d') :
    d'.WellFormed := by
  obtain ⟨hfits, harity, hfree, rfl⟩ := install_eq_ok_iff.mp hi
  have hnone : d.handlers.get? op = none := OpcodeTable.contains_eq_false_iff.mp hfree
  exact ⟨hd.ordered.insert hnone h, forall_handler_insert hd.fits hfits, forall_handler_insert hd.arity harity⟩

/-- Handlers that fit their opcodes can all be installed, if no two are for the same opcode and none is for an opcode that has a
handler. The table then has them, besides those from before. -/
theorem load_eq_of_fits {hs : List (Opcode × Handler σ)} (hfits : ∀ x ∈ hs, x.1.Fits ∧ x.2.arity = x.1.segment.arity)
    (hdistinct : (hs.map (·.1)).Nodup) (hfree : ∀ x ∈ hs, d.handler? x.1 = none) :
    ∃ d', d.load hs = (d', none) ∧ ∀ op h, d'.handler? op = some h ↔ d.handler? op = some h ∨ (op, h) ∈ hs := by
  induction hs generalizing d with
  | nil => exact ⟨d, rfl, by simp⟩
  | cons x hs ih =>
    obtain ⟨op, h⟩ := x
    obtain ⟨⟨hop, harity⟩, hfits⟩ := List.forall_mem_cons.mp hfits
    obtain ⟨hnone, hfree⟩ := List.forall_mem_cons.mp hfree
    obtain ⟨hnew, hdistinct⟩ := List.nodup_cons.mp hdistinct
    have hinstall : d.install op h = .ok ⟨d.handlers.insert op h⟩ :=
      install_eq_ok_iff.mpr ⟨hop, harity, OpcodeTable.contains_eq_false_iff.mpr hnone, rfl⟩
    have hfree' : ∀ x ∈ hs, handler? ⟨d.handlers.insert op h⟩ x.1 = none := by
      intro x hx
      have hne : op ≠ x.1 := fun hop => hnew (List.mem_map.mpr ⟨x, hx, hop.symm⟩)
      rw [handler?_insert, if_neg hne]
      exact hfree x hx
    obtain ⟨d', hload, hall⟩ := ih hfits hdistinct hfree'
    refine ⟨d', (load_of_ok hinstall).trans hload, fun q g => ?_⟩
    rw [hall, handler?_insert]
    by_cases hq : op = q
    · subst hq
      simp [hnone, eq_comm]
    · simp [hq, Ne.symm hq]

/-- Installing some handlers is installing the first one and then the others. -/
theorem load_cons_eq_none_iff {op : Opcode} {h : Handler σ} {hs : List (Opcode × Handler σ)} :
    d.load ((op, h) :: hs) = (d', none) ↔ ∃ d₁, d.install op h = .ok d₁ ∧ d₁.load hs = (d', none) := by
  cases hi : d.install op h with
  | error e => simp [load_of_error hi]
  | ok d₁ => simp [load_of_ok hi]

/-- Handlers can all be installed exactly when they fit their opcodes, no two are for the same opcode, and none is for an opcode
that has a handler. -/
theorem exists_load_iff {hs : List (Opcode × Handler σ)} :
    (∃ d', d.load hs = (d', none)) ↔
      (∀ x ∈ hs, x.1.Fits ∧ x.2.arity = x.1.segment.arity) ∧ (hs.map (·.1)).Nodup ∧ ∀ x ∈ hs, d.handler? x.1 = none := by
  constructor
  · rintro ⟨d', hload⟩
    induction hs generalizing d with
    | nil => simp
    | cons x hs ih =>
      obtain ⟨op, h⟩ := x
      obtain ⟨d₁, hinstall, hload⟩ := load_cons_eq_none_iff.mp hload
      obtain ⟨hop, harity, hcontains, rfl⟩ := install_eq_ok_iff.mp hinstall
      obtain ⟨hfits, hdistinct, hfree⟩ := ih hload
      have hnone : d.handler? op = none := OpcodeTable.contains_eq_false_iff.mp hcontains
      have hothers : ∀ x ∈ hs, op ≠ x.1 ∧ d.handler? x.1 = none := by
        intro x hx
        have hfree := hfree x hx
        rw [handler?_insert] at hfree
        by_cases hsame : op = x.1
        · simp [hsame] at hfree
        · exact ⟨hsame, by simpa [hsame] using hfree⟩
      refine ⟨List.forall_mem_cons.mpr ⟨⟨hop, harity⟩, hfits⟩, List.nodup_cons.mpr ⟨?_, hdistinct⟩,
        List.forall_mem_cons.mpr ⟨hnone, fun x hx => (hothers x hx).2⟩⟩
      intro hmem
      obtain ⟨x, hx, hsame⟩ := List.mem_map.mp hmem
      exact (hothers x hx).1 hsame.symm
  · rintro ⟨hfits, hdistinct, hfree⟩
    obtain ⟨d', hload, -⟩ := load_eq_of_fits hfits hdistinct hfree
    exact ⟨d', hload⟩

/-- The handlers after some were installed are those from before and these. -/
theorem handler?_of_load {hs : List (Opcode × Handler σ)} (hload : d.load hs = (d', none)) {op : Opcode} {h : Handler σ} :
    d'.handler? op = some h ↔ d.handler? op = some h ∨ (op, h) ∈ hs := by
  obtain ⟨hfits, hdistinct, hfree⟩ := exists_load_iff.mp ⟨d', hload⟩
  obtain ⟨d₁, hload₁, hall⟩ := load_eq_of_fits hfits hdistinct hfree
  rw [hload] at hload₁
  cases hload₁
  exact hall op h

/-- Every opcode keeps its handler. -/
def Extends (d d' : Dispatch σ) : Prop := ∀ op h, d.handler? op = some h → d'.handler? op = some h

theorem Extends.refl (d : Dispatch σ) : d.Extends d := fun _ _ hh => hh

theorem Extends.trans {d'' : Dispatch σ} (h : d.Extends d') (h' : d'.Extends d'') : d.Extends d'' :=
  fun op g hg => h' op g (h op g hg)

/-- Installing displaces no handler. -/
theorem extends_of_install {op : Opcode} {h : Handler σ} (hi : d.install op h = .ok d') : d.Extends d' := by
  obtain ⟨-, -, hfree, rfl⟩ := install_eq_ok_iff.mp hi
  intro q g hg
  have hne : op ≠ q := by
    rintro rfl
    have hnone : d.handler? op = none := OpcodeTable.contains_eq_false_iff.mp hfree
    rw [hnone] at hg
    cases hg
  rw [handler?_insert, if_neg hne, hg]

end ScriptEngine.Dispatch
