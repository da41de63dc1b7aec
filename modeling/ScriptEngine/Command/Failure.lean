import ScriptEngine.Assembly.Assemble
import ScriptEngine.Command.Files
import ScriptEngine.Machine.Fault
import ScriptEngine.Script.Container
import ScriptEngine.SetupError

/-!
# Failures of the command line

A command that fails says what it was doing, and below that why it could not be done; a cause may have a cause in turn.
-/

namespace ScriptEngine.Command

/-- Why a command failed. Files are given by their names. -/
inductive Failure where
  | settingsNotFound (name : String)
  | settingsUnreadable (cause : FileError)
  | settingsMalformed (name : String)
  | setup (cause : SetupError)
  | reading (name : String) (cause : FileError)
  | assembling (name : String) (cause : Assembly.AssemblyError)
  | loading (name : String) (cause : ContainerError)
  | encoding (name : String) (cause : ContainerError)
  | writing (name : String) (cause : FileError)
  | aborted (a : Abort)
  deriving DecidableEq, Repr

namespace Failure

/-- What the command was doing. -/
def message : Failure → String
  | settingsNotFound name => s!"configuration file {name} not found"
  | settingsUnreadable cause => cause.message
  | settingsMalformed name => s!"parsing {name}"
  | setup _ => "instruction set configuration is inconsistent"
  | reading name _ => s!"reading {name}"
  | assembling name _ => s!"assembling {name}"
  | loading name _ => s!"loading {name}"
  | encoding name _ => s!"encoding {name}"
  | writing name _ => s!"writing {name}"
  | aborted a => a.message

/-- The causes, each one the cause of the one before it. -/
def causes : Failure → List String
  | settingsNotFound _ | settingsUnreadable _ => []
  | settingsMalformed _ => ["the settings are not well-formed"]
  | setup cause => [cause.message]
  | reading _ cause | writing _ cause => [cause.message]
  | assembling _ cause =>
    cause.message ::
      match cause.error with
      | .lookup e => [e.message]
      | _ => []
  | loading _ cause | encoding _ cause => [cause.message]
  | aborted a => [a.fault.message]

/-- A text with its later lines moved to the right. -/
def indented (width : Nat) (s : String) : String :=
  String.ofList (s.toList.flatMap fun c => if c = '\n' then '\n' :: List.replicate width ' ' else [c])

/-- The causes as they are printed. A single cause is not numbered. -/
def causeLines : List String → List String
  | [cause] => ["    " ++ indented 4 cause]
  | causes => causes.zipIdx.map fun (cause, i) => Text.padLeft 5 ' ' i.repr ++ ": " ++ indented 7 cause

/-- A failure as it is printed. -/
def report (f : Failure) : String :=
  let lines := if f.causes.isEmpty then [] else "" :: "Caused by:" :: causeLines f.causes
  "".intercalate ((s!"Error: {f.message}" :: lines).map (· ++ "\n"))

end Failure

end ScriptEngine.Command
