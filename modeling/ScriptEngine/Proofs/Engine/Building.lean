import ScriptEngine.Proofs.Engine.Consistency
import ScriptEngine.Proofs.Machine.Installation
import ScriptEngine.Proofs.Registry.Correspondence

/-!
# When an engine can be built

An engine is built in passes: the registration pass of each extension in turn, then the installation pass of each, then a
comparison of the opcodes. A pass acts on its table by steps alone and ends with the first that fails. `Engine.Refused` says what
can go wrong and which error it is. The comparison is two scans, each in one direction; since both tables are in order, the scans
find the least opcode that is missing on the other side, and when they find none the two tables list the same opcodes.
-/

namespace ScriptEngine.Engine

variable {σ : Type}

/-! ## Passes -/

/-- The registration pass of an extension: its steps in order, up to the first that fails. -/
def registrationPass (r : Registry) (x : Extension σ) : Except SetupError Registry :=
  x.registrations.foldlM Registry.step r

/-- The installation pass of an extension: its handlers in order, up to the first that is refused. -/
def installationPass (d : Dispatch σ) (x : Extension σ) : Except SetupError (Dispatch σ) :=
  x.handlers.foldlM (fun d installed => d.install installed.1 installed.2) d

/-- The registry of some extensions is what their registration passes leave, one after the other. -/
theorem registryOf_eq_foldlM (extensions : List (Extension σ)) :
    registryOf extensions = extensions.foldlM registrationPass {} := by
  obtain ⟨hok, herror⟩ := foldlM_of_load Registry.step Registry.load (fun _ => rfl) (fun _ _ _ _ => Registry.load_of_ok)
    (fun _ _ _ _ => Registry.load_of_error) {} (extensions.flatMap (·.registrations))
  refine Eq.trans ?_ (foldlM_flatMap _ extensions _)
  unfold registryOf
  split
  · rename_i hload
    exact (hok _ hload).symm
  · rename_i hload
    exact (herror _ _ hload).symm

/-- The dispatch table of some extensions is what their installation passes leave, one after the other. -/
theorem dispatchOf_eq_foldlM (extensions : List (Extension σ)) :
    dispatchOf extensions = extensions.foldlM installationPass {} := by
  obtain ⟨hok, herror⟩ := foldlM_of_load (fun d installed => d.install installed.1 installed.2)
    (Dispatch.load (σ := σ)) (fun _ => rfl) (fun _ _ _ _ => Dispatch.load_of_ok) (fun _ _ _ _ => Dispatch.load_of_error) {}
    (extensions.flatMap (·.handlers))
  refine Eq.trans ?_ (foldlM_flatMap _ extensions _)
  unfold dispatchOf
  split
  · rename_i hload
    exact (hok _ hload).symm
  · rename_i hload
    exact (herror _ _ hload).symm

/-- What every registration step keeps is true at the end of the registration passes. -/
theorem registrationPasses_keep {P : Registry → Prop} (hstep : ∀ r s r', P r → r.step s = .ok r' → P r')
    {extensions : List (Extension σ)} {r r' : Registry} (hr : P r) (h : extensions.foldlM registrationPass r = .ok r') :
    P r' :=
  foldlM_keeps (fun _ _ _ hr hpass => foldlM_keeps hstep hr hpass) hr h

/-- What every installation keeps is true at the end of the installation passes. -/
theorem installationPasses_keep {P : Dispatch σ → Prop} (hinstall : ∀ d op h d', P d → d.install op h = .ok d' → P d')
    {extensions : List (Extension σ)} {d d' : Dispatch σ} (hd : P d) (h : extensions.foldlM installationPass d = .ok d') :
    P d' :=
  foldlM_keeps (fun _ _ _ hd hpass => foldlM_keeps (fun d x d' => hinstall d x.1 x.2 d') hd hpass) hd h

/-- Registration passes lead from a registry that can be reached to another one. -/
theorem reachable_of_passes {extensions : List (Extension σ)} {r r' : Registry} (hr : r.Reachable)
    (h : extensions.foldlM registrationPass r = .ok r') : r'.Reachable :=
  registrationPasses_keep (fun _ _ _ hr hstep => hr.step hstep) hr h

/-- Installation passes keep a dispatch table well-formed. -/
theorem wellFormed_of_passes {extensions : List (Extension σ)} {d d' : Dispatch σ} (hd : d.WellFormed)
    (h : extensions.foldlM installationPass d = .ok d') : d'.WellFormed :=
  installationPasses_keep (fun _ _ _ _ hd hinstall => hd.install hinstall) hd h

/-! ## The comparison -/

/-- The first thing that keeps a registry and a dispatch table from belonging together: the least registered opcode that has no
handler, or, if all have one, the least installed opcode that is not registered. -/
inductive Mismatch (r : Registry) (d : Dispatch σ) : SetupError → Prop where
  | missingHandler (i : Descriptor) : r.byOpcode? i.opcode = some i → d.contains i.opcode = false →
      (∀ op, (r.byOpcode? op).isSome = true → d.contains op = false → op = i.opcode ∨ i.opcode.Before op) →
      Mismatch r d (.missingHandler i.mnemonic i.opcode)
  | missingDescriptor (op : Opcode) : (∀ q, (r.byOpcode? q).isSome = true → d.contains q = true) →
      d.contains op = true → r.byOpcode? op = none →
      (∀ q, d.contains q = true → r.byOpcode? q = none → q = op ∨ op.Before q) →
      Mismatch r d (.missingDescriptor op)

section Comparison

variable {r : Registry} {d : Dispatch σ}

/-- An opcode is registered when a registered instruction has it. -/
theorem isSome_byOpcode?_iff (hr : r.Indexed) {op : Opcode} :
    (r.byOpcode? op).isSome = true ↔ ∃ i ∈ r.all, i.opcode = op := by
  simp only [Option.isSome_iff_exists, hr.byOpcode?_eq_some_iff]

/-- The first scan finds the least registered opcode that has no handler. -/
theorem find?_unhandled_iff (hr : r.Indexed) {i : Descriptor} :
    r.all.find? (fun i => !d.contains i.opcode) = some i ↔
      r.byOpcode? i.opcode = some i ∧ d.contains i.opcode = false ∧
        ∀ op, (r.byOpcode? op).isSome = true → d.contains op = false → op = i.opcode ∨ i.opcode.Before op := by
  rw [find?_eq_some_iff_least hr.all_pairwise, hr.byOpcode?_eq_some_iff, and_iff_left (a := i ∈ r.all) rfl]
  simp only [Bool.not_eq_true']
  refine and_congr_right fun hi => and_congr_right fun _ => ?_
  constructor
  · intro hleast op hop hfree
    obtain ⟨j, hj, rfl⟩ := (isSome_byOpcode?_iff hr).mp hop
    exact (hleast j hj hfree).imp_left (congrArg Descriptor.opcode)
  · intro hleast j hj hfree
    exact (hleast j.opcode ((isSome_byOpcode?_iff hr).mpr ⟨j, hj, rfl⟩) hfree).imp_left (hr.opcode_inj hj hi)

/-- The first scan finds nothing when every registered opcode has a handler. -/
theorem find?_unhandled_eq_none_iff (hr : r.Indexed) :
    r.all.find? (fun i => !d.contains i.opcode) = none ↔
      ∀ op, (r.byOpcode? op).isSome = true → d.contains op = true := by
  simp only [List.find?_eq_none, Bool.not_eq_true, Bool.not_eq_false', isSome_byOpcode?_iff hr, forall_exists_index,
    and_imp, forall_apply_eq_imp_iff₂]

/-- The second scan finds the least installed opcode that is not registered. -/
theorem find?_unregistered_iff (hd : d.handlers.Ordered) {op : Opcode} :
    d.opcodes.find? (fun op => (r.byOpcode? op).isNone) = some op ↔
      d.contains op = true ∧ r.byOpcode? op = none ∧
        ∀ q, d.contains q = true → r.byOpcode? q = none → q = op ∨ op.Before q := by
  have hordered : d.opcodes.Pairwise fun q q' => (id q).Before (id q') := hd.opcodes_pairwise
  rw [find?_eq_some_iff_least hordered]
  simp only [Dispatch.opcodes, OpcodeTable.mem_opcodes_iff, Option.isNone_iff_eq_none, id_eq, Dispatch.contains]

/-- The second scan finds nothing when every installed opcode is registered. -/
theorem find?_unregistered_eq_none_iff :
    d.opcodes.find? (fun op => (r.byOpcode? op).isNone) = none ↔
      ∀ op, d.contains op = true → (r.byOpcode? op).isSome = true := by
  simp only [List.find?_eq_none, Dispatch.opcodes, OpcodeTable.mem_opcodes_iff, Option.isNone_iff_eq_none,
    Option.isSome_iff_ne_none, ne_eq, Dispatch.contains]

/-- The comparison reports the first thing that is wrong. -/
theorem mismatch?_eq_some_iff (hr : r.Indexed) (hd : d.handlers.Ordered) {err : SetupError} :
    mismatch? r d = some err ↔ Mismatch r d err := by
  unfold mismatch?
  constructor
  · intro h
    split at h
    · rename_i i hi
      cases h
      obtain ⟨hreg, hfree, hleast⟩ := (find?_unhandled_iff hr).mp hi
      exact .missingHandler i hreg hfree hleast
    · rename_i hnone
      obtain ⟨op, hop, rfl⟩ := Option.map_eq_some_iff.mp h
      obtain ⟨hinst, hfree, hleast⟩ := (find?_unregistered_iff hd).mp hop
      exact .missingDescriptor op ((find?_unhandled_eq_none_iff hr).mp hnone) hinst hfree hleast
  · intro h
    cases h with
    | missingHandler i hreg hfree hleast => rw [(find?_unhandled_iff hr).mpr ⟨hreg, hfree, hleast⟩]
    | missingDescriptor op hall hinst hfree hleast =>
      rw [(find?_unhandled_eq_none_iff hr).mpr hall, (find?_unregistered_iff hd).mpr ⟨hinst, hfree, hleast⟩]
      rfl

/-- The comparison finds nothing when the same opcodes are registered and installed. -/
theorem mismatch?_eq_none_iff (hr : r.Indexed) :
    mismatch? r d = none ↔ ∀ op, (r.byOpcode? op).isSome = d.contains op := by
  unfold mismatch?
  constructor
  · intro h
    split at h
    · cases h
    rename_i hnone
    have hhandled := (find?_unhandled_eq_none_iff hr).mp hnone
    have hregistered := find?_unregistered_eq_none_iff.mp (Option.map_eq_none_iff.mp h)
    intro op
    exact Bool.eq_iff_iff.mpr ⟨hhandled op, hregistered op⟩
  · intro hsame
    have hhandled : ∀ op, (r.byOpcode? op).isSome = true → d.contains op = true := fun op hop => hsame op ▸ hop
    have hregistered : ∀ op, d.contains op = true → (r.byOpcode? op).isSome = true := fun op hop => hsame op ▸ hop
    rw [(find?_unhandled_eq_none_iff hr).mpr hhandled, find?_unregistered_eq_none_iff.mpr hregistered]
    rfl

/-- A registry and a dispatch table over the same opcodes have equal sizes. -/
theorem size_eq_of_same_opcodes (hr : r.Indexed) (hd : d.WellFormed)
    (hsame : ∀ op, (r.byOpcode? op).isSome = d.contains op) : r.size = d.size := by
  have hopcodes : r.opcodes = d.opcodes := by
    refine hr.ordered.opcodes_eq hd.ordered fun op => ?_
    rw [← hr.isSome_byOpcode?]
    exact hsame op
  calc r.size = (r.all.map (·.opcode)).length := by rw [List.length_map, hr.length_all]
    _ = d.opcodes.length := by rw [hr.map_opcode_all, hopcodes]
    _ = d.size := (OpcodeTable.size_eq_length_opcodes _).symm

end Comparison

/-! ## Building -/

/-- Why no engine is built from some extensions: the first registration pass that fails; if none does, the first installation pass
that fails; if none does, the first thing that keeps the two tables from belonging together. -/
inductive Refused (extensions : List (Extension σ)) : SetupError → Prop where
  | registration {before after : List (Extension σ)} {x : Extension σ} {r : Registry} {err : SetupError} :
      extensions = before ++ x :: after → before.foldlM registrationPass {} = .ok r →
      registrationPass r x = .error err → Refused extensions err
  | installation {r : Registry} {before after : List (Extension σ)} {x : Extension σ} {d : Dispatch σ}
      {err : SetupError} :
      extensions.foldlM registrationPass {} = .ok r → extensions = before ++ x :: after →
      before.foldlM installationPass {} = .ok d → installationPass d x = .error err → Refused extensions err
  | mismatch {r : Registry} {d : Dispatch σ} {err : SetupError} :
      extensions.foldlM registrationPass {} = .ok r → extensions.foldlM installationPass {} = .ok d →
      Mismatch r d err → Refused extensions err

variable [Host σ]

/-- Building is the registration passes, the installation passes and the comparison, in this order. -/
theorem build_eq_passes (extensions : List (Extension σ)) (limit : Nat) :
    build extensions limit =
      ((Builtin.extension :: extensions).foldlM registrationPass {} >>= fun r =>
        (Builtin.extension :: extensions).foldlM installationPass {} >>= fun d =>
          (mismatch? r d).elim (.ok ⟨r, d, limit⟩) .error) := by
  rw [← registryOf_eq_foldlM, ← dispatchOf_eq_foldlM, build]
  refine congrArg _ (funext fun r => congrArg _ (funext fun d => ?_))
  cases mismatch? r d <;> rfl

/-- An engine is built when all passes succeed and the same opcodes are registered and installed. -/
theorem build_eq_ok_iff {extensions : List (Extension σ)} {limit : Nat} {e : Engine σ} :
    build extensions limit = .ok e ↔
      (Builtin.extension :: extensions).foldlM registrationPass {} = .ok e.registry ∧
        (Builtin.extension :: extensions).foldlM installationPass {} = .ok e.dispatch ∧
        (∀ op, (e.registry.byOpcode? op).isSome = e.dispatch.contains op) ∧ e.stepLimit = limit := by
  constructor
  · intro h
    obtain ⟨hr, hd, hmismatch, hlimit⟩ := build_eq_ok h
    rw [registryOf_eq_foldlM] at hr
    rw [dispatchOf_eq_foldlM] at hd
    exact ⟨hr, hd, (mismatch?_eq_none_iff (reachable_of_build h).indexed).mp hmismatch, hlimit⟩
  · rintro ⟨hr, hd, hsame, rfl⟩
    have hi := (reachable_of_passes .empty hr).indexed
    rw [build_eq_passes]
    refine bind_eq_ok_iff.mpr ⟨e.registry, hr, bind_eq_ok_iff.mpr ⟨e.dispatch, hd, ?_⟩⟩
    rw [(mismatch?_eq_none_iff hi).mpr hsame]
    rfl

/-- No engine is built when something is wrong, and the error is the first thing that is. -/
theorem build_eq_error_iff {extensions : List (Extension σ)} {limit : Nat} {err : SetupError} :
    build extensions limit = .error err ↔ Refused (Builtin.extension :: extensions) err := by
  rw [build_eq_passes, bind_eq_error_iff]
  constructor
  · rintro (hfail | ⟨r, hr, h⟩)
    · obtain ⟨before, x, after, r, hsplit, hbefore, hx⟩ := foldlM_eq_error_iff.mp hfail
      exact .registration hsplit hbefore hx
    rcases bind_eq_error_iff.mp h with hfail | ⟨d, hd, h⟩
    · obtain ⟨before, x, after, d, hsplit, hbefore, hx⟩ := foldlM_eq_error_iff.mp hfail
      exact .installation hr hsplit hbefore hx
    have hi := (reachable_of_passes .empty hr).indexed
    have hw := wellFormed_of_passes Dispatch.wellFormed_empty hd
    cases hmismatch : mismatch? r d with
    | none =>
      rw [hmismatch] at h
      cases h
    | some err' =>
      rw [hmismatch] at h
      cases h
      exact .mismatch hr hd ((mismatch?_eq_some_iff hi hw.ordered).mp hmismatch)
  · intro h
    cases h with
    | registration hsplit hbefore hx =>
      exact Or.inl (foldlM_eq_error_iff.mpr ⟨_, _, _, _, hsplit, hbefore, hx⟩)
    | installation hr hsplit hbefore hx =>
      have hfail := foldlM_eq_error_iff.mpr ⟨_, _, _, _, hsplit, hbefore, hx⟩
      exact Or.inr ⟨_, hr, bind_eq_error_iff.mpr (Or.inl hfail)⟩
    | mismatch hr hd hmismatch =>
      have hi := (reachable_of_passes .empty hr).indexed
      have hw := wellFormed_of_passes Dispatch.wellFormed_empty hd
      refine Or.inr ⟨_, hr, bind_eq_error_iff.mpr (Or.inr ⟨_, hd, ?_⟩)⟩
      rw [(mismatch?_eq_some_iff hi hw.ordered).mpr hmismatch]
      rfl

/-- The dispatch table of an engine that was built is well-formed. -/
theorem wellFormed_of_build {extensions : List (Extension σ)} {limit : Nat} {e : Engine σ}
    (h : build extensions limit = .ok e) : e.dispatch.WellFormed :=
  wellFormed_of_passes Dispatch.wellFormed_empty (build_eq_ok_iff.mp h).2.1

/-- An engine is built exactly when all passes succeed, those of the built-in instructions first, and the same opcodes are
registered and installed; otherwise the error says what went wrong first. In an engine that was built an opcode is registered
exactly when it has a handler, it then fits its segment and the handler takes what the segment carries, and the two tables have
equal sizes. -/
theorem build_iff_passes_and_same_opcodes (extensions : List (Extension σ)) (limit : Nat) :
    let loaded := Builtin.extension :: extensions
    (∀ e : Engine σ, build extensions limit = .ok e ↔
      loaded.foldlM registrationPass {} = .ok e.registry ∧ loaded.foldlM installationPass {} = .ok e.dispatch ∧
        (∀ op, (e.registry.byOpcode? op).isSome = e.dispatch.contains op) ∧ e.stepLimit = limit) ∧
      (∀ err, build extensions limit = .error err ↔ Refused loaded err) ∧
      ∀ e : Engine σ, build extensions limit = .ok e →
        (∀ op, (e.registry.byOpcode? op).isSome = e.dispatch.contains op) ∧
          (∀ op h, e.dispatch.handler? op = some h → op.Fits ∧ h.arity = op.segment.arity) ∧
          e.registry.size = e.dispatch.size := by
  intro loaded
  refine ⟨fun _ => build_eq_ok_iff, fun _ => build_eq_error_iff, ?_⟩
  intro e he
  have hsame := (build_eq_ok_iff.mp he).2.2.1
  have hw := wellFormed_of_build he
  exact ⟨hsame, fun op h hh => ⟨hw.fits op h hh, hw.arity op h hh⟩,
    size_eq_of_same_opcodes (reachable_of_build he).indexed hw hsame⟩

end ScriptEngine.Engine
