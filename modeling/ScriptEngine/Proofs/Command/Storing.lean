import ScriptEngine.Command.Perform
import ScriptEngine.Proofs.Assembly.Code
import ScriptEngine.Proofs.Command.Files
import ScriptEngine.Proofs.Script.RoundTrip
import ScriptEngine.Proofs.Session.Instructions
import ScriptEngine.Settings.Document

/-!
# Storing a script

A script that was assembled and stored is the script that its source assembles to, so that listing it and running it do what they
do with the source. There are two ways to load a script, from a source and from a container, and the name of a file alone decides
which one is taken. Storing under a name that is not the name of a source leaves the source where it is (`Files.read_of_write`).
If there is no script, or a string of it cannot be stored, nothing is written.
-/

namespace ScriptEngine

namespace Command

/-! ## Loading -/

section Loading

variable {r : Registry} {files files' : Files} {name : String} {s : Script}

/-- A script is loaded from a file that can be read. -/
theorem exists_read_of_loadScript (h : loadScript r files name = .ok s) : ∃ bytes, files.read name = .ok bytes := by
  cases hread : files.read name with
  | ok bytes => exact ⟨bytes, rfl⟩
  | error err =>
    unfold loadScript Files.readText at h
    rw [hread] at h
    split at h <;> cases h

/-- Loading a script depends on its file alone. -/
theorem loadScript_of_same_read (h : files'.read name = files.read name) :
    loadScript r files' name = loadScript r files name := by
  unfold loadScript Files.readText
  rw [h]

/-- A stored script is loaded from its container. -/
theorem loadScript_of_container (hname : isSource name = false) {bytes : List UInt8} (hread : files.read name = .ok bytes)
    (hbytes : Script.ofBytes bytes = .ok s) : loadScript r files name = .ok s := by
  simp [loadScript, hname, hread, hbytes]

/-- The extension of a source is one that no other name has. -/
theorem extension_of_isSource {input output : String} (hin : isSource input = true) (hout : isSource output = false) :
    ∃ ext, (Route.ofName input).extension? = some ext ∧ (Route.ofName output).extension? ≠ some ext := by
  cases hext : (Route.ofName input).extension? with
  | none => simp [isSource, hext] at hin
  | some ext =>
    refine ⟨ext, rfl, ?_⟩
    intro hsame
    have hequal : isSource output = isSource input := by rw [isSource, isSource, hext, hsame]
    rw [hequal, hin] at hout
    cases hout

end Loading

/-! ## Storing -/

section Storing

variable {r : Registry} {files files' : Files} {input output : String}

/-- Storing is loading, encoding and writing. -/
theorem storeScript_eq_ok_iff :
    storeScript r files input output = .ok files' ↔
      ∃ s bytes, loadScript r files input = .ok s ∧ s.toBytes = .ok bytes ∧ files.write output bytes = .ok files' := by
  unfold storeScript
  rw [bind_eq_ok_iff]
  refine exists_congr fun s => ?_
  cases s.toBytes with
  | error err => simp
  | ok bytes => cases hwrite : files.write output bytes <;> simp [hwrite]

/-- A source that was stored under another name is loaded as before, and so is the script that was stored. -/
theorem loadScript_of_storeScript (hin : isSource input = true) (hout : isSource output = false)
    (h : storeScript r files input output = .ok files') :
    ∃ s, loadScript r files input = .ok s ∧ loadScript r files' input = .ok s ∧
      (s.CountsFit → loadScript r files' output = .ok s) := by
  obtain ⟨s, bytes, hload, hbytes, hwrite⟩ := storeScript_eq_ok_iff.mp h
  obtain ⟨ext, hext, hne⟩ := extension_of_isSource hin hout
  obtain ⟨source, hread⟩ := exists_read_of_loadScript hload
  have hsame : files'.read input = files.read input := (Files.read_of_write hwrite hext hne hread).trans hread.symm
  refine ⟨s, hload, (loadScript_of_same_read hsame).trans hload, ?_⟩
  intro hfit
  exact loadScript_of_container hout (Files.read_written hwrite) (hfit.ofBytes_of_toBytes hbytes)

/-- Nothing is stored if there is no script, or if it cannot be encoded. -/
theorem exists_error_of_storeScript (output : String)
    (h : ∀ s, loadScript r files input = .ok s → ∃ err, s.toBytes = .error err) :
    ∃ f, storeScript r files input output = .error f := by
  cases hstore : storeScript r files input output with
  | error f => exact ⟨f, rfl⟩
  | ok files' =>
    obtain ⟨s, bytes, hload, hbytes, -⟩ := storeScript_eq_ok_iff.mp hstore
    obtain ⟨err, herr⟩ := h s hload
    rw [herr] at hbytes
    cases hbytes

end Storing

/-! ## Commands -/

section Commands

variable {ρ : Type} [Generator ρ] {r : Registry}
  (hr : ∀ limit, ∃ e : Engine (GameSession ρ), Engine.standard limit = .ok e ∧ e.registry = r)

include hr

/-- The engine of a command can be built, whatever the settings are, and has the registry of the standard engine. -/
theorem exists_engine (st : Settings) : ∃ e : Engine (GameSession ρ), engine st = .ok e ∧ e.registry = r := by
  obtain ⟨e, he, hregistry⟩ := hr (st.run?.getD {}).stepLimit.toNat
  refine ⟨e, ?_, hregistry⟩
  rw [engine, he]
  rfl

/-- The engine of a command has the registry of the standard engine. -/
theorem registry_of_engine {st : Settings} {e : Engine (GameSession ρ)} (h : engine st = .ok e) : e.registry = r := by
  obtain ⟨e', he', hregistry⟩ := exists_engine hr st
  rwa [Except.ok.inj (h.symm.trans he')]

/-- Two actions that do the same work with the same registry have the same results under the same options. -/
theorem perform_of_same_act {parse : List UInt8 → Option Settings} {patience : Nat} {g : GameSession ρ} {files : Files}
    {a b : Action} (h : ∀ e : Engine (GameSession ρ), e.registry = r → act e patience g files a = act e patience g files b)
    (i : Invocation) :
    perform parse patience g { i with action := a } files = perform parse patience g { i with action := b } files := by
  have hsettings : settings parse { i with action := a } files = settings parse { i with action := b } files := rfl
  unfold perform
  rw [hsettings]
  cases hengine : (settings parse { i with action := b } files).bind (engine (ρ := ρ)) with
  | error f => rfl
  | ok e =>
    obtain ⟨st, -, he⟩ := bind_eq_ok_iff.mp hengine
    simp only [h e (registry_of_engine hr he)]

/-- Storing a script ends with the files that it leaves, or else fails and leaves the files as they were. -/
theorem perform_asm (parse : List UInt8 → Option Settings) (patience : Nat) (g : GameSession ρ) (i : Invocation) (files : Files)
    (input output : String) :
    perform parse patience g { i with action := .asm input output } files =
      some (match (settings parse i files).bind fun _ => storeScript r files input output with
        | .ok files' => ⟨0, "", "", files'⟩
        | .error f => ⟨1, "", f.report, files⟩) := by
  have hsettings : settings parse { i with action := .asm input output } files = settings parse i files := rfl
  unfold perform
  rw [hsettings]
  cases hengine : (settings parse i files).bind (engine (ρ := ρ)) with
  | error f =>
    rcases bind_eq_error_iff.mp hengine with hfail | ⟨st, -, hfail⟩
    · rw [hfail]
      rfl
    · obtain ⟨e, he, -⟩ := exists_engine hr st
      cases he.symm.trans hfail
  | ok e =>
    obtain ⟨st, hst, he⟩ := bind_eq_ok_iff.mp hengine
    rw [hst]
    simp only [act, registry_of_engine hr he, Except.bind]
    cases storeScript r files input output <;> rfl

end Commands

/-- A source is stored under a name that is not the name of a source. The command always ends. If it ends well, the source is
loaded as before, and what was stored is loaded as the same script, as long as its parts can be counted in the header; so to list
or to run it has the same result as to list or to run the source, whatever the settings, the session and the step limit are. If
there is no script to be stored, or if a string of it has a NUL or it cannot be encoded for any other reason, the command fails
and leaves the files as they were. -/
theorem stored_script_is_the_script {ρ : Type} [Generator ρ] {input output : String} (hin : isSource input = true)
    (hout : isSource output = false) :
    ∃ r : Registry, (∀ limit, ∃ e : Engine (GameSession ρ), Engine.standard limit = .ok e ∧ e.registry = r) ∧
      ∀ parse patience (g : GameSession ρ) (i : Invocation) files, ∃ res,
        perform parse patience g { i with action := .asm input output } files = some res ∧
        (res.status = 0 → ∃ s, loadScript r files input = .ok s ∧ loadScript r res.files input = .ok s ∧
          (s.CountsFit → loadScript r res.files output = .ok s ∧
            ∀ parse patience (g : GameSession ρ) (i : Invocation),
              perform parse patience g { i with action := .disasm output } res.files =
                perform parse patience g { i with action := .disasm input } res.files ∧
              perform parse patience g { i with action := .run output } res.files =
                perform parse patience g { i with action := .run input } res.files)) ∧
        ((∀ s, loadScript r files input = .ok s →
            (∃ err, s.toBytes = .error err) ∨ ∃ t ∈ s.literals.strings, '\x00' ∈ t.toList) →
          res.status = 1 ∧ res.files = files) := by
  obtain ⟨r, -, -, hstandard⟩ := Engine.exists_standard_registry
  have hr : ∀ limit, ∃ e : Engine (GameSession ρ), Engine.standard limit = .ok e ∧ e.registry = r := by
    intro limit
    obtain ⟨e, he⟩ := Engine.exists_standard (σ := GameSession ρ) limit
    exact ⟨e, he, hstandard.2 limit e he⟩
  refine ⟨r, hr, ?_⟩
  intro parse patience g i files
  refine ⟨_, perform_asm hr parse patience g i files input output, ?_, ?_⟩
  · intro hstatus
    split at hstatus
    · rename_i files' hstored
      obtain ⟨st, -, hstore⟩ := bind_eq_ok_iff.mp hstored
      obtain ⟨s, hload, hsource, hcontainer⟩ := loadScript_of_storeScript hin hout hstore
      refine ⟨s, hload, hsource, fun hfit => ⟨hcontainer hfit, ?_⟩⟩
      intro parse patience g i
      have hsame : loadScript r files' output = loadScript r files' input := (hcontainer hfit).trans hsource.symm
      refine ⟨perform_of_same_act hr ?_ i, perform_of_same_act hr ?_ i⟩
      · rintro e rfl
        simp only [act, hsame]
      · rintro e rfl
        simp only [act, hsame]
    · cases hstatus
  · intro hbad
    have hnone : ∀ s, loadScript r files input = .ok s → ∃ err, s.toBytes = .error err := by
      intro s hload
      rcases hbad s hload with herr | ⟨t, ht, hnul⟩
      · exact herr
      · exact Script.toBytes_of_nul ht hnul
    obtain ⟨f, hstore⟩ := exists_error_of_storeScript output hnone
    rw [hstore]
    cases settings parse i files <;> exact ⟨rfl, rfl⟩

/-! ## A source that shows a message -/

/-- A line that names an instruction of the standard engine is assembled to the word of the instruction. -/
theorem assembleLine_of_standard {e : Engine (GameSession StdGen)} {limit : Nat} (he : Engine.standard limit = .ok e) (x : Standard)
    {line : List Char} {operands : List (List Char)} {s : Script} {values : List Nat} {l : Literals}
    (htokens : Assembly.tokens line = .ok (x.mnemonic.toList :: operands))
    (hlength : operands.length = x.opcode.segment.arity)
    (harguments : Assembly.arguments s.literals (operands.zip x.opcode.segment.argBits) = .ok (values, l)) :
    Assembly.assembleLine e.registry line s =
      .ok ⟨s.code.push (Instruction.encode ⟨x.opcode, values.getD 0 0, values.getD 1 0⟩), l⟩ := by
  obtain ⟨d, hlookup, hop⟩ := Engine.lookup_of_standard he x
  rw [← x.mnemonic.ofList_toList] at hlookup
  rw [← hop] at hlength harguments ⊢
  exact Assembly.assembleLine_of_arguments htokens hlookup hlength harguments

/-- A source that shows a message and returns. -/
def doneSource : String := "pushint \"done\"\nmessagebox 0\nreturn\n"

/-- The script that the source writes. -/
def doneScript : Script where
  code := #[Instruction.encode ⟨Builtin.pushInt.opcode, 0, 0⟩, Instruction.encode ⟨Builtin.messageBox.opcode, 0, 0⟩,
    Instruction.encode ⟨Builtin.exit.opcode, 0, 0⟩]
  literals := { strings := ["done"] }

/-- The source is assembled to the script by the standard engine. -/
theorem assemble_doneSource {e : Engine (GameSession StdGen)} {limit : Nat} (he : Engine.standard limit = .ok e) :
    Assembly.assemble e.registry doneSource = .ok doneScript := by
  have hlines : Text.lines doneSource.toList = ["pushint \"done\"".toList, "messagebox 0".toList, "return".toList] := by
    decide +kernel
  have htokens : ["pushint \"done\"".toList, "messagebox 0".toList, "return".toList].map Assembly.tokens =
      [.ok ["pushint".toList, "\"done\"".toList], .ok ["messagebox".toList, "0".toList], .ok ["return".toList]] := by
    decide +kernel
  simp only [List.map_cons, List.map_nil, List.cons.injEq, and_true] at htokens
  obtain ⟨hpush, hmessage, hreturn⟩ := htokens
  have hdone : Assembly.arguments ({} : Script).literals
      (["\"done\"".toList].zip (Standard.builtin .pushInt).opcode.segment.argBits) = .ok ([0], { strings := ["done"] }) := by
    decide +kernel
  have hzero : Assembly.arguments { strings := ["done"] }
      (["0".toList].zip (Standard.builtin .messageBox).opcode.segment.argBits) = .ok ([0], { strings := ["done"] }) := by
    decide +kernel
  rw [Assembly.assemble, hlines, Assembly.assembleLines, assembleLine_of_standard he (.builtin .pushInt) hpush rfl hdone]
  simp only
  rw [Assembly.assembleLines, assembleLine_of_standard he (.builtin .messageBox) hmessage rfl hzero]
  simp only
  rw [Assembly.assembleLines, assembleLine_of_standard he (.builtin .exit) hreturn rfl rfl]
  rfl

/-- A folder that holds the source. -/
def doneFolder : Files := .ofFolder [("done.xsa", Container.textBytes doneSource)]

/-- The script is loaded from the source in the folder. -/
theorem loadScript_doneFolder {e : Engine (GameSession StdGen)} {limit : Nat} (he : Engine.standard limit = .ok e) :
    loadScript e.registry doneFolder "done.xsa" = .ok doneScript := by
  have hname : isSource "done.xsa" = true := by decide +kernel
  have hread : doneFolder.read "done.xsa" = .ok (Container.textBytes doneSource) := rfl
  have htext : doneFolder.readText "done.xsa" = .ok doneSource := by
    refine bind_eq_ok_iff.mpr ⟨_, hread, ?_⟩
    simp only [Container.fromUTF8?_textBytes]
  simp only [loadScript, hname, if_true, htext, assemble_doneSource he]

/-- The source is stored, and what was stored is its script. -/
theorem doneSource_is_stored : ∃ (e : Engine (GameSession StdGen)) (res : Result), Engine.standard 0 = .ok e ∧
    perform Settings.ofBytes? 0 (GameSession.new (mkStdGen 0)) { action := .asm "done.xsa" "done.xsc" } doneFolder = some res ∧
      res.status = 0 ∧
      loadScript e.registry res.files "done.xsc" = .ok doneScript ∧
      ∀ g : GameSession StdGen, perform Settings.ofBytes? 5 g { action := .run "done.xsc" } res.files =
        perform Settings.ofBytes? 5 g { action := .run "done.xsa" } res.files := by
  have hin : isSource "done.xsa" = true := by decide +kernel
  have hout : isSource "done.xsc" = false := by decide +kernel
  obtain ⟨r, hr, hstored⟩ := stored_script_is_the_script (ρ := StdGen) hin hout
  obtain ⟨e, he, rfl⟩ := hr 0
  have hload := loadScript_doneFolder he
  have hbytes : doneScript.toBytes.toOption.isSome = true := by decide +kernel
  obtain ⟨bytes, hbytes⟩ := Option.isSome_iff_exists.mp hbytes
  have hwrite : ∃ files, doneFolder.write "done.xsc" bytes = .ok files := ⟨_, rfl⟩
  obtain ⟨files, hwrite⟩ := hwrite
  have hstore := storeScript_eq_ok_iff.mpr ⟨doneScript, bytes, hload, eq_ok_of_toOption hbytes, hwrite⟩
  have hperform := perform_asm hr Settings.ofBytes? 0 (GameSession.new (mkStdGen 0)) { action := .list } doneFolder "done.xsa"
    "done.xsc"
  rw [hstore] at hperform
  obtain ⟨res, hres, hok, -⟩ := hstored Settings.ofBytes? 0 (GameSession.new (mkStdGen 0)) { action := .list } doneFolder
  have hstatus : res.status = 0 := by
    cases hres.symm.trans hperform
    rfl
  obtain ⟨s, hs, -, hsame⟩ := hok hstatus
  obtain rfl : s = doneScript := Except.ok.inj (hs.symm.trans hload)
  have hfit : doneScript.CountsFit := { code := by decide, ints := by decide, floats := by decide, strings := by decide }
  obtain ⟨hcontainer, hcommands⟩ := hsame hfit
  refine ⟨e, res, he, hres, hstatus, hcontainer, ?_⟩
  intro g
  exact (hcommands Settings.ofBytes? 5 g { action := .list }).2

end Command

end ScriptEngine
