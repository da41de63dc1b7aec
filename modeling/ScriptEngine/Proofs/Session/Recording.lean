import ScriptEngine.Proofs.Engine.Trace
import ScriptEngine.Proofs.Session.Calls

/-!
# The calls that a run makes

A recording host shows which calls it receives, so the calls of a script are seen by running it on one. Recording changes nothing
else: a step on the recording host is the step on the host itself, with the call of the word put on record (`step?_recorded`). A
word that cannot be executed leaves no state and so no call. The record of a run is then the list of the calls of its words, which
are told by the cells and the literals that the words find (`CallsOf`).
-/

namespace ScriptEngine

variable {σ : Type}

/-! ## States under record -/

/-- A state whose host has received some calls and goes on recording. -/
def Machine.recorded (m : Machine σ) (calls : Array HostCall) : Machine (Recording σ) where
  stack := m.stack
  pc := m.pc
  halted := m.halted
  host := ⟨m.host, calls⟩

/-- The end of a run whose host has received some calls. -/
def Finish.recorded (f : Finish σ) (calls : Array HostCall) : Finish (Recording σ) := ⟨f.result, ⟨f.host, calls⟩⟩

/-- The word at the address of a script that has not returned makes a call to the host. -/
def Machine.Calls (m : Machine σ) (s : Script) (c : HostCall) : Prop :=
  ∃ word i, ∃ x : Standard, m.halted = false ∧ s.code[m.pc]? = some word ∧ Instruction.decode? word = some i ∧
    x.opcode = i.opcode ∧ x.Calls s.literals m.stack i.arg0 c

/-- The calls that the words of some states make, in order: one for each word that makes a call. -/
inductive CallsOf (s : Script) : List (Machine σ) → List HostCall → Prop where
  | nil : CallsOf s [] []
  | silent {m : Machine σ} {ms : List (Machine σ)} {calls : List HostCall} : (∀ c, ¬ m.Calls s c) → CallsOf s ms calls →
      CallsOf s (m :: ms) calls
  | call {m : Machine σ} {ms : List (Machine σ)} {c : HostCall} {calls : List HostCall} : m.Calls s c → CallsOf s ms calls →
      CallsOf s (m :: ms) (c :: calls)

/-- The call to the host that the word which is due makes, if it makes one. -/
def Machine.call? (m : Machine σ) (s : Script) : Option HostCall :=
  (m.instruction? s).bind fun i => (Standard.ofOpcode? i.opcode).bind fun x => x.call? i.arg0 s.literals m

/-- The word at the address makes the call that is read off the state. -/
theorem Machine.calls_iff {m : Machine σ} {s : Script} {c : HostCall} : m.Calls s c ↔ m.call? s = some c := by
  have hdue {word : UInt32} : m.due? s = some word ↔ m.halted = false ∧ s.code[m.pc]? = some word := by
    rw [Machine.due?]
    cases m.halted <;> simp
  simp only [Machine.call?, Machine.instruction?_eq, Option.bind_eq_some_iff, Standard.ofOpcode?_eq_some_iff, hdue]
  constructor
  · rintro ⟨word, i, x, hrunning, hword, hdecode, hop, hcalls⟩
    exact ⟨i, ⟨word, ⟨hrunning, hword⟩, hdecode⟩, x, hop, Standard.calls_iff.mp hcalls⟩
  · rintro ⟨i, ⟨word, ⟨hrunning, hword⟩, hdecode⟩, x, hop, hcalls⟩
    exact ⟨word, i, x, hrunning, hword, hdecode, hop, Standard.calls_iff.mpr hcalls⟩

/-- The calls of some states are those that are read off them. -/
theorem callsOf_iff {s : Script} {ms : List (Machine σ)} {calls : List HostCall} :
    CallsOf s ms calls ↔ ms.filterMap (·.call? s) = calls := by
  have hsilent {m : Machine σ} : (∀ c, ¬ m.Calls s c) ↔ m.call? s = none := by
    simp only [Machine.calls_iff, Option.eq_none_iff_forall_ne_some, ne_eq]
  constructor
  · intro h
    induction h with
    | nil => rfl
    | silent hno _ ih => simp only [List.filterMap_cons, hsilent.mp hno, ih]
    | call hcall _ ih => simp only [List.filterMap_cons, Machine.calls_iff.mp hcall, ih]
  · rintro rfl
    induction ms with
    | nil => exact .nil
    | cons m ms ih =>
      cases hcall : m.call? s with
      | none =>
        simp only [List.filterMap_cons, hcall]
        exact .silent (hsilent.mpr hcall) ih
      | some c =>
        simp only [List.filterMap_cons, hcall]
        exact .call (Machine.calls_iff.mpr hcall) ih

/-- The calls of the first `n` words that are executed, in order. -/
def Engine.calls (e : Engine σ) (s : Script) (n : Nat) (m : Machine σ) : List HostCall :=
  (e.states s n m).filterMap (·.call? s)

/-- The calls of one word more are the call of the first word and those of the others. -/
theorem Engine.calls_of_step {e : Engine σ} {s : Script} {m m' : Machine σ} (h : e.step? s m = some (.ok m')) (n : Nat) :
    e.calls s (n + 1) m = (m.call? s).toList ++ e.calls s n m' :=
  filterMap_states_of_step _ h n

/-! ## Instructions -/

namespace Standard

variable [Host σ]

/-- An instruction on a recording host does what it does on the host itself, and its call is put on record. -/
theorem apply_recorded (x : Standard) (arg0 arg1 : Nat) (l : Literals) (m : Machine σ) (calls : Array HostCall) :
    x.handler.apply arg0 arg1 l (m.recorded calls) =
      (x.handler.apply arg0 arg1 l m).recorded (calls ++ (x.call? arg0 l m).toList) := by
  cases x with
  | builtin b =>
    cases b with
    | messageBox | storeGlobal =>
      simp only [handler, Builtin.handler, Handler.apply, Builtin.showMessage_eq, Builtin.writeGlobal_eq, call?]
      rfl
    | storeLocal kind =>
      simp only [handler, Builtin.handler, Handler.apply, Builtin.writeLocal_eq, call?, Option.toList_none,
        Array.appendList_nil]
      have hlocals : Host.getLocals (m.recorded calls).host = Host.getLocals m.host := rfl
      rw [hlocals]
      -- A slot that is there is written through the locals of the host, and any other write leaves both hosts as they are.
      have hpeek : (m.recorded calls).peek 1 = m.peek 1 := rfl
      have htop : (m.recorded calls).top = m.top := rfl
      rw [hpeek, htop]
      cases (Host.getLocals m.host).store? kind (m.peek 1) m.top <;> rfl
    | skipOnZero | skipOnNonZero =>
      simp only [handler, Builtin.handler, Handler.apply, Builtin.skipWhen_eq, call?]
      rfl
    | _ => rfl
  | setControl c enabled | getDisabled c => rfl
  | query q => cases q <;> rfl

end Standard

/-! ## Steps and runs -/

namespace Engine

variable [Host σ] {limit : Nat} {e : Engine σ} {e' : Engine (Recording σ)}

/-- A step on a recording host is the step on the host itself, with the call of the word put on record. A word that fails on the
one fails on the other in the same way, and leaves no state. -/
theorem step?_recorded (he : standard limit = .ok e) (he' : standard limit = .ok e') (s : Script) (m : Machine σ)
    (calls : Array HostCall) :
    e'.step? s (m.recorded calls) =
      (e.step? s m).map fun r => r.map fun m' => m'.recorded (calls ++ (m.call? s).toList) := by
  have hdue : (m.recorded calls).due? s = m.due? s := rfl
  simp only [step?, hdue, Option.map_map]
  cases hword : m.due? s with
  | none => rfl
  | some word =>
    simp only [Option.map_some, Function.comp_apply, Dispatch.execute, Dispatch.actionOf, Dispatch.action,
      handler?_eq_ofOpcode? he, handler?_eq_ofOpcode? he', Machine.call?, Machine.instruction?_of_due? hword]
    cases Instruction.decode? word with
    | none => rfl
    | some i =>
      cases hx : Standard.ofOpcode? i.opcode with
      | none => simp [hx, Except.map]
      | some x =>
        have hnext : (m.recorded calls).next = m.next.recorded calls := rfl
        have hcall : x.call? i.arg0 s.literals m.next = x.call? i.arg0 s.literals m := rfl
        simp [hx, Except.map, hnext, x.apply_recorded, hcall]

/-- The states on a recording host are those on the host itself, with the calls of the words put on record. -/
theorem after?_recorded (he : standard limit = .ok e) (he' : standard limit = .ok e') (s : Script) (n : Nat) (m : Machine σ)
    (calls : Array HostCall) :
    e'.after? s n (m.recorded calls) = (e.after? s n m).map fun m' => m'.recorded (calls ++ e.calls s n m) := by
  induction n generalizing m calls with
  | zero => simp [after?, Engine.calls, states_zero]
  | succ n ih =>
    rw [after?, after?, step?_recorded he he']
    cases hstep : e.step? s m with
    | none => rfl
    | some r =>
      cases r with
      | error fault => rfl
      | ok m' =>
        have hassoc : ∀ calls' : List HostCall,
            calls ++ (m.call? s).toList ++ calls' = calls ++ ((m.call? s).toList ++ calls') := by
          intro calls'
          apply Array.ext'
          simp
        rw [calls_of_step hstep]
        simp [Except.map, ih, hassoc]

/-- A run stops on a recording host where it stops on the host itself, and in the same way. -/
theorem stops_recorded_iff (he : standard limit = .ok e) (he' : standard limit = .ok e') {s : Script} {n : Nat} {m : Machine σ}
    {calls : Array HostCall} {f' : Finish (Recording σ)} :
    e'.Stops s n (m.recorded calls) f' ↔ ∃ f, e.Stops s n m f ∧ f' = f.recorded calls := by
  have hlimit : e'.stepLimit = e.stepLimit := by
    rw [stepLimit_of_build he, stepLimit_of_build he']
  constructor
  · intro h
    cases h with
    | finished hdue hn => exact ⟨_, .finished hdue (hlimit ▸ hn), rfl⟩
    | failed fault hstep hn =>
      rw [step?_recorded he he', Option.map_eq_some_iff] at hstep
      obtain ⟨r, hstep, hr⟩ := hstep
      cases r with
      | error fault' =>
        cases hr
        exact ⟨_, .failed fault hstep (hlimit ▸ hn), rfl⟩
      | ok m' => cases hr
    | limited hdue hne hn =>
      rw [hlimit] at hne hn ⊢
      exact ⟨_, .limited hdue hne hn, rfl⟩
  · rintro ⟨f, h, rfl⟩
    cases h with
    | finished hdue hn => exact .finished hdue (hlimit.symm ▸ hn)
    | failed fault hstep hn =>
      refine .failed fault ?_ (hlimit.symm ▸ hn)
      rw [step?_recorded he he', hstep]
      rfl
    | limited hdue hne hn =>
      rw [← hlimit] at hne hn ⊢
      exact .limited hdue hne hn

/-- The standard engine can be built for a host and for the host under record, whatever the limit; the keyword of every
instruction finds its opcode. What a run on the host under record puts on record is, in order, the one call of each executed word
that makes a call, read off the stack before the word, and nothing else: one step adds the call of its word, a word that fails
adds none, and what is on record after a run, and after any number of words of a run that goes on, are the calls of the words
executed by then. In all other respects the run is the same as on the host itself. -/
theorem run_records_calls_in_order (limit : Nat) : ∃ (e : Engine σ) (e' : Engine (Recording σ)),
    standard limit = .ok e ∧ standard limit = .ok e' ∧
    (∀ x : Standard, ∃ d, e.registry.lookup x.mnemonic = .ok d ∧ d.opcode = x.opcode) ∧
    (∀ s m, ∃ made, CallsOf s [m] made ∧ ∀ calls, e'.step? s (m.recorded calls) =
      (e.step? s m).map fun r => r.map fun m' => m'.recorded (calls ++ made)) ∧
    (∀ s n m, ∃ made, CallsOf s (e.states s n m) made ∧ ∀ calls, e'.after? s n (m.recorded calls) =
      (e.after? s n m).map fun m' => m'.recorded (calls ++ made)) ∧
    ∀ patience s host f', e'.run patience s ⟨host, #[]⟩ = some f' ↔
      ∃ n m f made, e.after? s n (.start host) = some m ∧ e.Stops s n m f ∧ (limit = 0 → n ≤ patience) ∧
        CallsOf s (e.states s n (.start host)) made ∧ f' = f.recorded made.toArray := by
  obtain ⟨e, he⟩ := exists_standard (σ := σ) limit
  obtain ⟨e', he'⟩ := exists_standard (σ := Recording σ) limit
  refine ⟨e, e', he, he', lookup_of_standard he, ?_, ?_, ?_⟩
  · intro s m
    refine ⟨(m.call? s).toList, callsOf_iff.mpr ?_, step?_recorded he he' s m⟩
    cases hcall : m.call? s <;> simp [hcall]
  · intro s n m
    exact ⟨e.calls s n m, callsOf_iff.mpr rfl, after?_recorded he he' s n m⟩
  intro patience s host f'
  have hlimit : e'.stepLimit = limit := stepLimit_of_build he'
  have hstart : Machine.start (⟨host, #[]⟩ : Recording σ) = (Machine.start host).recorded #[] := rfl
  have hcalls : ∀ calls : List HostCall, (#[] : Array HostCall) ++ calls = calls.toArray := by
    intro calls
    apply Array.ext'
    simp
  rw [run_eq_some_iff, hstart, hlimit]
  simp only [after?_recorded he he', hcalls, Option.map_eq_some_iff, callsOf_iff]
  constructor
  · rintro ⟨n, m', ⟨m, hafter, rfl⟩, hstop, hn⟩
    obtain ⟨f, hstop, hf⟩ := (stops_recorded_iff he he').mp hstop
    exact ⟨n, m, f, _, hafter, hstop, hn, rfl, hf⟩
  · rintro ⟨n, m, f, made, hafter, hstop, hn, rfl, hf⟩
    exact ⟨n, _, ⟨m, hafter, rfl⟩, (stops_recorded_iff he he').mpr ⟨f, hstop, hf⟩, hn⟩

end Engine

end ScriptEngine
