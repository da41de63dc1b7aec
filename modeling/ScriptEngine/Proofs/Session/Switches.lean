import ScriptEngine.Proofs.Engine.Trace
import ScriptEngine.Proofs.Session.Calls
import ScriptEngine.Session.Basic

/-!
# Controls are set by their last switch

Each player control has two instructions that switch it. In a session a control is as the last executed one of the two has left
it, or as it was at the start if neither was executed. No other word changes a control: of all calls to the host only the one that
names the control does (`HostCall.isEnabled_perform`), and only the two switches of a control make it.
-/

namespace ScriptEngine

variable {ρ : Type}

/-! ## Calls -/

namespace Control

/-- A control is known by its name. -/
theorem name_inj {c d : Control} (h : c.name = d.name) : c = d := by
  have hnodup : (all.map name).Nodup := by decide
  exact List.inj_on_of_nodup_map hnodup c.mem_all d.mem_all h

/-- A name stands for the control that has it. -/
theorem ofName?_eq_some_iff {name : String} {c : Control} : ofName? name = some c ↔ c.name = name := by
  rw [ofName?, find?_key_eq_some_iff fun _ _ _ _ => name_inj]
  exact and_iff_right c.mem_all

end Control

namespace GameSession

/-- A control is disabled when it is among the locked ones. -/
theorem isEnabled_eq_false_iff {g : GameSession ρ} {c : Control} : g.isEnabled c = false ↔ c ∈ g.disabled := by
  simp [isEnabled]

/-- A control that is switched is as it was switched, and the others are as before. -/
theorem isEnabled_setEnabled (g : GameSession ρ) (c d : Control) (enabled : Bool) :
    (g.setEnabled d enabled).isEnabled c = if d = c then enabled else g.isEnabled c := by
  by_cases hcontrol : d = c
  · subst hcontrol
    cases enabled <;> simp [setEnabled, isEnabled]
  · have hne : c ≠ d := fun h => hcontrol h.symm
    cases enabled <;> simp [setEnabled, isEnabled, hcontrol, hne]

end GameSession

variable [Generator ρ]

/-- A session switches a control when it is told to by the name of the control, and on no other call. -/
theorem HostCall.isEnabled_perform (call : HostCall) (g : GameSession ρ) (c : Control) :
    (call.perform g).isEnabled c =
      if call = .setControlEnabled c.name true then true
      else if call = .setControlEnabled c.name false then false
      else g.isEnabled c := by
  cases call with
  | setControlEnabled name enabled =>
    have hperform : (setControlEnabled name enabled).perform g =
        (Control.ofName? name).elim g fun d => g.setEnabled d enabled := by
      simp only [perform, Host.setControlEnabled]
      cases Control.ofName? name <;> rfl
    by_cases hname : name = c.name
    · subst hname
      rw [hperform, Control.ofName?_eq_some_iff.mpr rfl, Option.elim_some, GameSession.isEnabled_setEnabled, if_pos rfl]
      cases enabled <;> simp
    · have hsame : ((setControlEnabled name enabled).perform g).isEnabled c = g.isEnabled c := by
        rw [hperform]
        cases hfound : Control.ofName? name with
        | none => rfl
        | some d =>
          have hne : d ≠ c := by
            rintro rfl
            exact hname (Control.ofName?_eq_some_iff.mp hfound).symm
          rw [Option.elim_some, GameSession.isEnabled_setEnabled, if_neg hne]
      simp [hsame, hname]
  | random limit =>
    obtain ⟨rng, hdraw⟩ := g.draw_snd limit
    have hperform : (random limit).perform g = { g with rng } := hdraw
    rw [hperform]
    rfl
  | _ => rfl

/-! ## Instructions -/

namespace Standard

variable {x : Standard} {c : Control}

/-- The two switches of a control are the instructions that tell the host about it. -/
theorem call?_eq_setControlEnabled_iff {σ : Type} (arg0 : Nat) (l : Literals) (m : Machine σ) {enabled : Bool} :
    x.call? arg0 l m = some (.setControlEnabled c.name enabled) ↔ x = setControl c enabled := by
  constructor
  · intro h
    cases x with
    | builtin b => cases b <;> cases h
    | setControl d enabled' =>
      simp only [call?, Option.some.injEq, HostCall.setControlEnabled.injEq] at h
      obtain ⟨hname, rfl⟩ := h
      rw [Control.name_inj hname]
    | getDisabled d => cases h
    | query q => cases q <;> cases h
  · rintro rfl
    rfl

/-- An instruction leaves a control as it was, unless it is one of the two switches of the control. -/
theorem isEnabled_hostAfter (arg0 : Nat) (l : Literals) (m : Machine (GameSession ρ)) :
    (x.hostAfter arg0 l m).isEnabled c =
      if x = setControl c true then true else if x = setControl c false then false else m.host.isEnabled c := by
  simp only [← call?_eq_setControlEnabled_iff arg0 l m]
  unfold hostAfter
  split
  · rename_i call hcall
    simp only [hcall, Option.some.injEq, HostCall.isEnabled_perform]
  · rename_i kind hcall
    simp only [hcall]
    cases (Host.getLocals m.host).store? kind (m.peek 1) m.top <;> rfl
  · rename_i hcall
    simp [hcall]

end Standard

/-! ## Steps and runs -/

/-- The last of some opcodes that is one of the two switches. -/
def lastSwitch? (on off : Opcode) (ops : List Opcode) : Option Opcode := (ops.filter fun op => op = on ∨ op = off).getLast?

/-- Of a list with perhaps something in front of it, the last element is that of the list, or else what is in front. -/
theorem getLast?_elim_append {α β : Type} (first : Option α) (rest : List α) (b : β) (f : α → β) :
    (first.toList ++ rest).getLast?.elim b f = rest.getLast?.elim (first.elim b f) f := by
  cases first with
  | none => rfl
  | some a =>
    rw [Option.toList_some, List.singleton_append, List.getLast?_cons]
    cases rest.getLast? <;> rfl

namespace Engine

variable {limit : Nat} {e : Engine (GameSession ρ)}

/-- A step applies the handler of the instruction whose opcode is that of the word. -/
theorem exists_standard_of_step {σ : Type} [Host σ] {e : Engine σ} (he : standard limit = .ok e) {s : Script} {m m' : Machine σ}
    (hstep : e.step? s m = some (.ok m')) :
    ∃ (x : Standard) (arg0 arg1 : Nat), m.opcode? s = some x.opcode ∧ m' = x.handler.apply arg0 arg1 s.literals m.next := by
  obtain ⟨word, i, x, hdue, hdecode, hop, rfl⟩ := (step?_of_standard he).mp hstep
  refine ⟨x, i.arg0, i.arg1, ?_, rfl⟩
  rw [Machine.opcode?, Machine.instruction?_of_due? hdue, hdecode, Option.map_some, hop]

/-- A step leaves a control as it was, unless its word is one of the two switches of the control. -/
theorem isEnabled_of_step (he : standard limit = .ok e) (c : Control) {s : Script} {m m' : Machine (GameSession ρ)}
    (hstep : e.step? s m = some (.ok m')) :
    m'.host.isEnabled c =
      if m.opcode? s = some (Standard.setControl c true).opcode then true
      else if m.opcode? s = some (Standard.setControl c false).opcode then false
      else m.host.isEnabled c := by
  obtain ⟨x, arg0, arg1, hopcode, rfl⟩ := exists_standard_of_step he hstep
  have hsame : ∀ y : Standard, x.opcode = y.opcode ↔ x = y := fun y => ⟨Standard.opcode_inj, congrArg _⟩
  rw [x.host_apply, Standard.isEnabled_hostAfter]
  simp only [hopcode, Option.some.injEq, hsame]
  rfl

/-- A word whose opcode is that of an instruction is executed by the handler of the instruction. -/
theorem step_of_opcode? {σ : Type} [Host σ] {e : Engine σ} (he : standard limit = .ok e) {x : Standard} {s : Script}
    {m : Machine σ} (hopcode : m.opcode? s = some x.opcode) :
    ∃ arg0 arg1, e.step? s m = some (.ok (x.handler.apply arg0 arg1 s.literals m.next)) := by
  obtain ⟨i, hinstruction, hop⟩ := Option.map_eq_some_iff.mp hopcode
  rw [Machine.instruction?_eq] at hinstruction
  obtain ⟨word, hdue, hdecode⟩ := Option.bind_eq_some_iff.mp hinstruction
  exact ⟨i.arg0, i.arg1, (step?_of_standard he).mpr ⟨word, i, x, hdue, hdecode, hop.symm, rfl⟩⟩

/-- A word that asks for a control puts one or zero on the stack, as the control is disabled or not, and changes nothing else but
the address. -/
theorem step_of_getDisabled (he : standard limit = .ok e) (c : Control) {s : Script} {m : Machine (GameSession ρ)}
    (hopcode : m.opcode? s = some (Standard.getDisabled c).opcode) :
    e.step? s m =
      some (.ok { m with stack := ⟨if c ∈ m.host.disabled then 1 else 0⟩ :: m.stack, pc := m.pc + 1 }) := by
  obtain ⟨arg0, arg1, hstep⟩ := step_of_opcode? he hopcode
  have hfound : Control.ofName? c.name = some c := Control.ofName?_eq_some_iff.mpr rfl
  have hcell : Cell.ofBool (!m.host.isEnabled c) = ⟨if c ∈ m.host.disabled then 1 else 0⟩ := by
    simp only [← GameSession.isEnabled_eq_false_iff]
    cases m.host.isEnabled c <;> rfl
  rw [hstep, ← hcell]
  simp only [Standard.handler, Handler.apply, Control.getDisabled, Host.controlEnabled, Machine.next, hfound, Option.elim_some]
  rfl

/-- The two switches of a control have different opcodes. -/
theorem opcode_setControl_ne (c : Control) : (Standard.setControl c true).opcode ≠ (Standard.setControl c false).opcode := by
  intro hop
  cases Standard.opcode_inj hop

/-- A control is disabled after some words exactly when the last one among its switches was the one that disables it, or when
there was no switch of it among them and it was disabled before. -/
theorem isEnabled_of_after? (he : standard limit = .ok e) (c : Control) {s : Script} {n : Nat} {m m' : Machine (GameSession ρ)}
    (h : e.after? s n m = some m') :
    m'.host.isEnabled c = false ↔
      (lastSwitch? (Standard.setControl c true).opcode (Standard.setControl c false).opcode (e.opcodes s n m)).elim
        (m.host.isEnabled c = false) (· = (Standard.setControl c false).opcode) := by
  have hstep_eq : ∀ m m', e.step? s m = some (.ok m') → _ := fun _ _ => isEnabled_of_step he c
  have hne := opcode_setControl_ne c
  generalize (Standard.setControl c true).opcode = on at hstep_eq hne ⊢
  generalize (Standard.setControl c false).opcode = off at hstep_eq hne ⊢
  induction n generalizing m with
  | zero =>
    cases h
    exact Iff.rfl
  | succ n ih =>
    obtain ⟨m₁, hstep, h⟩ := after?_succ_eq_some_iff.mp h
    have hfirst : m₁.host.isEnabled c = false ↔
        ((m.opcode? s).filter fun op => op = on ∨ op = off).elim (m.host.isEnabled c = false) (· = off) := by
      rw [hstep_eq m m₁ hstep]
      cases m.opcode? s with
      | none => simp
      | some op =>
        by_cases hon : op = on
        · simp [Option.filter_some, hon, hne]
        · by_cases hoff : op = off <;> simp [Option.filter_some, hon, hoff, hne.symm]
    rw [opcodes, lastSwitch?, filterMap_states_of_step _ hstep, List.filter_append, ← Option.toList_filter, getLast?_elim_append,
      ← hfirst]
    exact ih h

/-- The standard engine can be built for sessions, whatever its limit, and for every control its keywords find two switches and a
question. After any number of words, and at the end of every run, a control is disabled exactly when the last executed word among
its switches was the one that disables it, or when no switch of it was executed and it was disabled at the start. A switch is always
executed, and no word but these two changes the control. The question is always executed, too: it puts one or zero on the stack, as
the control is disabled or not in that moment, and leaves everything else as it was but for the address, which moves on. -/
theorem controls_follow_last_switch (limit : Nat) : ∃ e : Engine (GameSession ρ), standard limit = .ok e ∧
    ∀ c : Control, ∃ on off get : Descriptor,
      e.registry.lookup ("enable" ++ c.name) = .ok on ∧ e.registry.lookup ("disable" ++ c.name) = .ok off ∧
      e.registry.lookup ("get" ++ c.name ++ "disabled") = .ok get ∧ on.opcode ≠ off.opcode ∧
      (∀ s g n m, e.after? s n (.start g) = some m →
        (c ∈ m.host.disabled ↔
          (lastSwitch? on.opcode off.opcode (e.opcodes s n (.start g))).elim (c ∈ g.disabled) (· = off.opcode))) ∧
      (∀ patience s g f, e.run patience s g = some f → ∃ n m, e.after? s n (.start g) = some m ∧ e.Stops s n m f ∧
        (c ∈ f.host.disabled ↔
          (lastSwitch? on.opcode off.opcode (e.opcodes s n (.start g))).elim (c ∈ g.disabled) (· = off.opcode))) ∧
      (∀ s m, m.opcode? s = some on.opcode → ∃ m', e.step? s m = some (.ok m') ∧ c ∉ m'.host.disabled) ∧
      (∀ s m, m.opcode? s = some off.opcode → ∃ m', e.step? s m = some (.ok m') ∧ c ∈ m'.host.disabled) ∧
      (∀ s m m', e.step? s m = some (.ok m') → m.opcode? s ≠ some on.opcode → m.opcode? s ≠ some off.opcode →
        (c ∈ m'.host.disabled ↔ c ∈ m.host.disabled)) ∧
      ∀ s m, m.opcode? s = some get.opcode → e.step? s m =
        some (.ok { m with stack := ⟨if c ∈ m.host.disabled then 1 else 0⟩ :: m.stack, pc := m.pc + 1 }) := by
  obtain ⟨e, he⟩ := exists_standard (σ := GameSession ρ) limit
  refine ⟨e, he, fun c => ?_⟩
  obtain ⟨on, hon, hon_opcode⟩ := lookup_of_standard he (.setControl c true)
  obtain ⟨off, hoff, hoff_opcode⟩ := lookup_of_standard he (.setControl c false)
  obtain ⟨get, hget, hget_opcode⟩ := lookup_of_standard he (.getDisabled c)
  have hne := opcode_setControl_ne c
  refine ⟨on, off, get, hon, hoff, hget, ?_⟩
  simp only [hon_opcode, hoff_opcode, hget_opcode, ← GameSession.isEnabled_eq_false_iff (ρ := ρ)]
  refine ⟨hne, ?_, ?_, ?_, ?_, ?_, ?_⟩
  · intro s g n m hafter
    exact isEnabled_of_after? he c hafter
  · intro patience s g f hrun
    obtain ⟨n, m, hafter, hstop, -⟩ := run_eq_some_iff.mp hrun
    have hhost : f.host = m.host := by cases hstop <;> rfl
    refine ⟨n, m, hafter, hstop, ?_⟩
    rw [hhost]
    exact isEnabled_of_after? he c hafter
  · intro s m hopcode
    obtain ⟨arg0, arg1, hstep⟩ := step_of_opcode? he hopcode
    refine ⟨_, hstep, ?_⟩
    rw [isEnabled_of_step he c hstep, if_pos hopcode]
    exact Bool.noConfusion
  · intro s m hopcode
    obtain ⟨arg0, arg1, hstep⟩ := step_of_opcode? he hopcode
    refine ⟨_, hstep, ?_⟩
    rw [isEnabled_of_step he c hstep, hopcode, if_neg (fun hop => hne (Option.some.inj hop).symm), if_pos rfl]
  · intro s m m' hstep hne_on hne_off
    rw [isEnabled_of_step he c hstep, if_neg hne_on, if_neg hne_off]
  · intro s m hopcode
    simp only [GameSession.isEnabled_eq_false_iff]
    exact step_of_getDisabled he c hopcode

end Engine

end ScriptEngine
