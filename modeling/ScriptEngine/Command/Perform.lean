import ScriptEngine.Assembly.Listing
import ScriptEngine.Command.Failure
import ScriptEngine.Command.Invocation
import ScriptEngine.Session.Basic
import ScriptEngine.Session.Standard
import ScriptEngine.Settings.Basic

/-!
# Performing a command

A command reads its settings and its script, does its work, and leaves behind what it printed, its status, and the files. A
command that fails prints nothing but the failure and leaves the files as they were. How settings are kept in a file and where
random numbers come from is left open.
-/

namespace ScriptEngine.Command

variable {ρ : Type} [Generator ρ]

/-- What a command leaves behind. -/
structure Result where
  status : Nat
  stdout : String
  stderr : String
  files : Files

/-- What a command that succeeds prints, and the files afterwards. -/
structure Success where
  printed : String := ""
  files : Files

/-- The settings of an invocation: those that are read from its settings file, or else the defaults, with the options put over
them. -/
def settings (parse : List UInt8 → Option Settings) (i : Invocation) (files : Files) : Except Failure Settings := do
  let base ←
    match i.settings? with
    | none => .ok {}
    | some name =>
      match files.read name with
      | .error .isFolder => .error (.settingsUnreadable .isFolder)
      | .error _ => .error (.settingsNotFound name)
      | .ok bytes =>
        match parse bytes with
        | none => .error (.settingsMalformed name)
        | some s => .ok s
  let limited := i.stepLimit?.elim base fun stepLimit => base.withRun { stepLimit }
  return if i.verbose then limited.withLog { app := .debug, rest := .info } else limited

/-- The standard engine under the settings. -/
def engine (s : Settings) : Except Failure (Engine (GameSession ρ)) :=
  (Engine.standard (s.run?.getD {}).stepLimit.toNat).mapError .setup

/-- A file with a source text in it, to judge by its name. -/
def isSource (name : String) : Bool := (Route.ofName name).extension?.map Text.fold == some "xsa"

/-- The script of a file: assembled from a source, or else read from a container. -/
def loadScript (r : Registry) (files : Files) (name : String) : Except Failure Script :=
  if isSource name then
    match files.readText name with
    | .error e => .error (.reading name e)
    | .ok source =>
      match Assembly.assemble r source with
      | .error e => .error (.assembling name e)
      | .ok s => .ok s
  else
    match files.read name with
    | .error e => .error (.reading name e)
    | .ok bytes =>
      match Script.ofBytes bytes with
      | .error e => .error (.loading name e)
      | .ok s => .ok s

/-- The line of an instruction in the list of all instructions. -/
def descriptorLine (d : Descriptor) : String :=
  let name := Text.padRight 28 ' ' d.mnemonic
  let signature := Text.padRight 12 ' ' d.signature.text
  let kind := Text.padLeft 2 ' ' d.kind.text
  s!"{name} {signature} {kind} {d.opcode.text}\n"

/-- The messages of a session, then its locked controls. -/
def sessionReport (g : GameSession ρ) : String :=
  String.join (g.messages.toList.map fun m => s!"[message] {m.text} {Text.quoteList m.buttons}\n") ++
    String.join (g.disabledControls.map fun c => s!"[disabled] {c.name}\n")

/-- Stores the script of one file under another name. -/
def storeScript (r : Registry) (files : Files) (input output : String) : Except Failure Files := do
  let s ← loadScript r files input
  match s.toBytes with
  | .error e => .error (.encoding input e)
  | .ok bytes =>
    match files.write output bytes with
    | .error e => .error (.writing output e)
    | .ok files => .ok files

/-- Runs a script in a session and reports on it. There is no result if an unlimited run goes on for longer than `patience`. -/
def runScript (e : Engine (GameSession ρ)) (patience : Nat) (s : Script) (g : GameSession ρ) : Option (Except Failure String) :=
  (e.run patience s g).map fun finish =>
    match finish.result with
    | .error a => .error (.aborted a)
    | .ok _ => .ok (sessionReport finish.host)

/-- Does the work of an action. -/
def act (e : Engine (GameSession ρ)) (patience : Nat) (g : GameSession ρ) (files : Files) :
    Action → Option (Except Failure Success)
  | .list => some (.ok { printed := String.join (e.registry.all.map descriptorLine), files })
  | .asm input output => some ((storeScript e.registry files input output).map fun files => { files })
  | .disasm input =>
    some ((loadScript e.registry files input).map fun s => { printed := Assembly.listing e.registry s.code, files })
  | .run input =>
    match loadScript e.registry files input with
    | .error f => some (.error f)
    | .ok s => (runScript e patience s g).map fun r => r.map fun printed => { printed, files }

/-- Performs an invocation, running a script in the session given. -/
def perform (parse : List UInt8 → Option Settings) (patience : Nat) (g : GameSession ρ) (i : Invocation) (files : Files) :
    Option Result :=
  let outcome : Option (Except Failure Success) :=
    match (settings parse i files).bind engine with
    | .error f => some (.error f)
    | .ok e => act e patience g files i.action
  outcome.map fun
    | .ok s => ⟨0, s.printed, "", s.files⟩
    | .error f => ⟨1, "", f.report, files⟩

end ScriptEngine.Command
