import ScriptEngine.Proofs.Engine.Building
import ScriptEngine.Proofs.Engine.Runs
import ScriptEngine.Proofs.Session.Standard

/-!
# Instructions of the standard engine

The standard engine can be built for every host and every limit. Its instructions are those of three groups, and the type
`Standard` has one value for each: registry and dispatch table hold exactly these, under their opcodes. What every instruction
of the standard engine does can so be settled by cases on `Standard`.
-/

namespace ScriptEngine

/-- An instruction of the standard engine. -/
inductive Standard where
  /-- An instruction that comes with every engine. -/
  | builtin (b : Builtin)
  /-- Enables or disables a control. -/
  | setControl (c : Control) (enabled : Bool)
  /-- Tells whether a control is disabled. -/
  | getDisabled (c : Control)
  /-- Asks about the session. -/
  | query (q : Query)
  deriving DecidableEq, Repr

/-! ## Members of the groups -/

theorem Builtin.mem_all (b : Builtin) : b ∈ Builtin.all := by
  cases b with
  | storeLocal kind | fetchLocal kind => cases kind <;> decide
  | arithInt op | arithFloat op => cases op <;> decide
  | compareInt c | compareFloat c => cases c <;> decide
  | _ => decide

theorem Control.mem_all (c : Control) : c ∈ Control.all := by
  cases c <;> decide

theorem Query.mem_all (q : Query) : q ∈ Query.all := by
  cases q <;> decide

namespace Standard

/-- All instructions, in the order in which they are registered and installed. -/
def all : List Standard :=
  Builtin.all.map builtin ++ Control.all.flatMap (fun c => [setControl c true, setControl c false, getDisabled c]) ++
    Query.all.map query

theorem mem_all (x : Standard) : x ∈ all := by
  simp only [all, List.mem_append, List.mem_map, List.mem_flatMap]
  cases x with
  | builtin b => exact Or.inl (Or.inl ⟨b, b.mem_all, rfl⟩)
  | setControl c enabled => exact Or.inl (Or.inr ⟨c, c.mem_all, by cases enabled <;> simp⟩)
  | getDisabled c => exact Or.inl (Or.inr ⟨c, c.mem_all, by simp⟩)
  | query q => exact Or.inr ⟨q, q.mem_all, rfl⟩

/-- The opcode of an instruction. -/
def opcode : Standard → Opcode
  | builtin b => b.opcode
  | setControl c true => c.opcodeFrom Control.enableBase
  | setControl c false => c.opcodeFrom Control.disableBase
  | getDisabled c => c.opcodeFrom Control.getDisabledBase
  | query q => q.opcode

/-- The keyword of an instruction. -/
def mnemonic : Standard → String
  | builtin b => b.mnemonic
  | setControl c true => "enable" ++ c.name
  | setControl c false => "disable" ++ c.name
  | getDisabled c => "get" ++ c.name ++ "disabled"
  | query q => q.mnemonic

/-- The handler of an instruction. -/
def handler {σ : Type} [Host σ] : Standard → Handler σ
  | builtin b => b.handler
  | setControl c enabled => .nullary fun _ m => c.set enabled m
  | getDisabled c => .nullary fun _ m => c.getDisabled m
  | query q => q.handler

/-- No two instructions have the same opcode. -/
theorem nodup_opcodes : (all.map opcode).Nodup := by
  decide +kernel

/-- An instruction is known by its opcode. -/
theorem opcode_inj {x y : Standard} (h : x.opcode = y.opcode) : x = y :=
  List.inj_on_of_nodup_map nodup_opcodes x.mem_all y.mem_all h

/-- The instruction that has an opcode. -/
def ofOpcode? (op : Opcode) : Option Standard := all.find? (·.opcode = op)

theorem ofOpcode?_eq_some_iff {op : Opcode} {x : Standard} : ofOpcode? op = some x ↔ x.opcode = op := by
  rw [ofOpcode?, find?_key_eq_some_iff fun _ _ _ _ => opcode_inj]
  exact and_iff_right x.mem_all

/-- Every opcode fits its segment. -/
theorem opcode_fits (x : Standard) : x.opcode.Fits := by
  have hall : ∀ x ∈ all, x.opcode.Fits := by decide +kernel
  exact hall x x.mem_all

/-- Every handler takes what its segment carries. -/
theorem arity_handler {σ : Type} [Host σ] (x : Standard) : (x.handler (σ := σ)).arity = x.opcode.segment.arity := by
  cases x with
  | builtin b => cases b <;> rfl
  | setControl c enabled => cases enabled <;> rfl
  | getDisabled c => rfl
  | query q => cases q <;> rfl

/-- The instructions that the steps of the standard engine register are these, in this order. -/
theorem registered_eq :
    (Engine.standardRegistrations.filterMap Registration.descriptor?).map (fun d => (d.mnemonic, d.opcode)) =
      all.map fun x => (x.mnemonic, x.opcode) := by
  decide +kernel

/-! ## Registry and dispatch table -/

/-- The registry of the standard engine has one descriptor for each instruction, and no others. -/
theorem exists_registry : ∃ r : Registry, r.Indexed ∧
    (∀ x : Standard, ∃ d ∈ r.all, d.mnemonic = x.mnemonic ∧ d.opcode = x.opcode) ∧
    (∀ d ∈ r.all, ∃ x : Standard, d.mnemonic = x.mnemonic ∧ d.opcode = x.opcode) ∧
    ∀ {σ : Type} [Host σ], Engine.registryOf (Builtin.extension :: standardExtensions (σ := σ)) = .ok r := by
  obtain ⟨r, hload⟩ := Engine.exists_load_standardRegistrations
  have hindexed : r.Indexed := by
    have hr := Registry.Reachable.empty.load Engine.standardRegistrations
    rw [hload] at hr
    exact hr.indexed
  have hnames : ∀ n op, (∃ d ∈ r.all, d.mnemonic = n ∧ d.opcode = op) ↔ ∃ x : Standard, x.mnemonic = n ∧ x.opcode = op := by
    intro n op
    have hmem := congrArg ((n, op) ∈ ·) registered_eq
    simp only [List.mem_map, Prod.mk.injEq, eq_iff_iff] at hmem
    have hempty : ({} : Registry).all = [] := rfl
    simp only [Registry.mem_all_of_load hload, hempty, List.not_mem_nil, false_or, hmem, mem_all, true_and]
  refine ⟨r, hindexed, ?_, ?_, ?_⟩
  · intro x
    exact (hnames x.mnemonic x.opcode).mpr ⟨x, rfl, rfl⟩
  · intro d hd
    obtain ⟨x, hname, hop⟩ := (hnames d.mnemonic d.opcode).mp ⟨d, hd, rfl, rfl⟩
    exact ⟨x, hname.symm, hop.symm⟩
  · intro σ _
    rw [Engine.registryOf, Engine.registrations_of_standard, hload]

variable {σ : Type} [Host σ]

/-- The handlers that the standard engine installs are these, in this order. -/
theorem installed_eq :
    (Builtin.extension :: standardExtensions (σ := σ)).flatMap (·.handlers) = all.map fun x => (x.opcode, x.handler) := by
  rfl

/-- The dispatch table of the standard engine has one handler for each instruction, and no others. -/
theorem exists_dispatch : ∃ d : Dispatch σ,
    Engine.dispatchOf (Builtin.extension :: standardExtensions) = .ok d ∧
      ∀ op h, d.handler? op = some h ↔ ∃ x : Standard, x.opcode = op ∧ x.handler = h := by
  have hfits : ∀ x ∈ all.map (fun x => (x.opcode, x.handler (σ := σ))),
      x.1.Fits ∧ x.2.arity = x.1.segment.arity := by
    simp only [List.forall_mem_map]
    exact fun x _ => ⟨x.opcode_fits, x.arity_handler⟩
  have hdistinct : ((all.map (fun x => (x.opcode, x.handler (σ := σ)))).map (·.1)).Nodup := by
    rw [List.map_map]
    exact nodup_opcodes
  obtain ⟨d, hload, hall⟩ := Dispatch.load_eq_of_fits (d := {}) hfits hdistinct (fun _ _ => rfl)
  refine ⟨d, by rw [Engine.dispatchOf, installed_eq, hload], fun op h => ?_⟩
  rw [hall]
  have hnone : Dispatch.handler? ({} : Dispatch σ) op = none := rfl
  simp [hnone, mem_all]

/-- If the handlers of a dispatch table are those of the instructions, its opcodes are those of the instructions. -/
theorem contains_iff {d : Dispatch σ} (h : ∀ op h, d.handler? op = some h ↔ ∃ x : Standard, x.opcode = op ∧ x.handler = h)
    (op : Opcode) : d.contains op = true ↔ ∃ x : Standard, x.opcode = op := by
  have hcontains : d.contains op = (d.handler? op).isSome := rfl
  simp only [hcontains, Option.isSome_iff_exists, h]
  constructor
  · rintro ⟨h, x, hop, -⟩
    exact ⟨x, hop⟩
  · rintro ⟨x, hop⟩
    exact ⟨x.handler, x, hop, rfl⟩

end Standard

/-! ## The engine -/

namespace Engine

variable {σ : Type} [Host σ] {limit : Nat} {e : Engine σ}

/-- In the standard engine an opcode has a handler exactly when an instruction has the opcode, and it is the handler of that
instruction. -/
theorem handler?_of_standard (he : standard limit = .ok e) {op : Opcode} {h : Handler σ} :
    e.dispatch.handler? op = some h ↔ ∃ x : Standard, x.opcode = op ∧ x.handler = h := by
  obtain ⟨d, hd, hall⟩ := Standard.exists_dispatch (σ := σ)
  obtain rfl : e.dispatch = d := Except.ok.inj ((build_eq_ok he).2.1.symm.trans hd)
  exact hall op h

/-- In the standard engine an opcode has the handler of the instruction that has the opcode, if there is one. -/
theorem handler?_eq_ofOpcode? (he : standard limit = .ok e) (op : Opcode) :
    e.dispatch.handler? op = (Standard.ofOpcode? op).map Standard.handler := by
  refine Option.ext fun h => ?_
  simp only [handler?_of_standard he, Option.map_eq_some_iff, Standard.ofOpcode?_eq_some_iff]

/-- In the standard engine the keyword of an instruction finds the opcode of the instruction. -/
theorem lookup_of_standard (he : standard limit = .ok e) (x : Standard) :
    ∃ d, e.registry.lookup x.mnemonic = .ok d ∧ d.opcode = x.opcode := by
  obtain ⟨r, hindexed, hdescribed, -, hr⟩ := Standard.exists_registry
  obtain rfl : e.registry = r := Except.ok.inj ((build_eq_ok he).1.symm.trans hr)
  obtain ⟨d, hd, hname, hop⟩ := hdescribed x
  refine ⟨d, hindexed.lookup_eq_ok_iff.mpr ⟨hd, ?_⟩, hop⟩
  rw [← hname, hindexed.folded hd]

/-- The standard engine can be built. -/
theorem exists_standard (limit : Nat) : ∃ e : Engine σ, standard limit = .ok e := by
  obtain ⟨r, hindexed, hdescribed, honly, hr⟩ := Standard.exists_registry
  obtain ⟨d, hd, hhandlers⟩ := Standard.exists_dispatch (σ := σ)
  refine ⟨⟨r, d, limit⟩, build_eq_ok_iff.mpr ⟨?_, ?_, ?_, rfl⟩⟩
  · rw [← registryOf_eq_foldlM]
    exact hr
  · rw [← dispatchOf_eq_foldlM]
    exact hd
  · intro op
    have hregistered : (r.byOpcode? op).isSome = true ↔ ∃ x : Standard, x.opcode = op := by
      rw [isSome_byOpcode?_iff hindexed]
      constructor
      · rintro ⟨i, hi, rfl⟩
        obtain ⟨x, -, hop⟩ := honly i hi
        exact ⟨x, hop.symm⟩
      · rintro ⟨x, rfl⟩
        obtain ⟨i, hi, -, hop⟩ := hdescribed x
        exact ⟨i, hi, hop⟩
    exact Bool.eq_iff_iff.mpr (hregistered.trans (Standard.contains_iff hhandlers op).symm)

/-! ## What a step does -/

/-- The standard engine performs an instruction by applying its handler to the arguments. -/
theorem perform_of_standard (he : standard limit = .ok e) (x : Standard) (arg0 arg1 : Nat) (l : Literals) (m : Machine σ) :
    e.dispatch.perform ⟨x.opcode, arg0, arg1⟩ l m = .ok (x.handler.apply arg0 arg1 l m) := by
  have hhandler : e.dispatch.handler? x.opcode = some x.handler := (handler?_of_standard he).mpr ⟨x, rfl, rfl⟩
  rw [Dispatch.perform, Dispatch.action, hhandler]
  rfl

/-- A step of the standard engine applies the handler of the instruction that the word which is due decodes to. -/
theorem step?_of_standard (he : standard limit = .ok e) {s : Script} {m m' : Machine σ} :
    e.step? s m = some (.ok m') ↔
      ∃ word i, ∃ x : Standard, m.due? s = some word ∧ Instruction.decode? word = some i ∧ x.opcode = i.opcode ∧
        x.handler.apply i.arg0 i.arg1 s.literals m.next = m' := by
  rw [step?_eq_ok_iff]
  constructor
  · rintro ⟨word, act, hdue, hact, hm⟩
    obtain ⟨i, h, hdecode, hhandler, rfl⟩ := actionOf_eq_ok_iff.mp hact
    obtain ⟨x, hop, rfl⟩ := (handler?_of_standard he).mp hhandler
    exact ⟨word, i, x, hdue, hdecode, hop, hm⟩
  · rintro ⟨word, i, x, hdue, hdecode, hop, hm⟩
    have hhandler := (handler?_of_standard he).mpr ⟨x, hop, rfl⟩
    exact ⟨word, _, hdue, actionOf_eq_ok_iff.mpr ⟨i, x.handler, hdecode, hhandler, rfl⟩, hm⟩

end Engine

end ScriptEngine
