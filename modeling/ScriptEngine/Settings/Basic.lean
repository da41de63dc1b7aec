import ScriptEngine.Engine.Basic
import ScriptEngine.Text.Case

/-!
# Settings

The settings of the command line: the name under which it logs, how much is logged, and how long a run may take. The last two
sections may be missing altogether, which is not the same as having their defaults.
-/

namespace ScriptEngine

/-- How much is logged. -/
inductive LogLevel where
  | off | error | warn | info | debug | trace
  deriving DecidableEq, Repr, Inhabited

/-- The log levels of the engine and of everything else. -/
structure LogSettings where
  app : LogLevel := .info
  rest : LogLevel := .warn
  deriving DecidableEq, Repr, Inhabited

/-- How long a run may take; a limit of zero is no limit. -/
structure RunSettings where
  stepLimit : UInt64 := UInt64.ofNat defaultStepLimit
  deriving DecidableEq, Repr, Inhabited

/-- The settings of the command line. -/
structure Settings where
  appName : String := "xscript"
  log? : Option LogSettings := some {}
  run? : Option RunSettings := some {}
  deriving DecidableEq, Repr, Inhabited

namespace LogLevel

/-- The levels, from nothing to everything. -/
def all : List LogLevel := [off, error, warn, info, debug, trace]

/-- The name of a level. -/
def name : LogLevel → String
  | off => "OFF"
  | error => "ERROR"
  | warn => "WARN"
  | info => "INFO"
  | debug => "DEBUG"
  | trace => "TRACE"

/-- The level of a name, ignoring case. -/
def ofName? (s : String) : Option LogLevel := all.find? fun l => Text.fold l.name = Text.fold s

end LogLevel

namespace LogSettings

/-- The filter that the logger is started with: a level for everything, then one for each part of the engine. -/
def directives (s : LogSettings) : String :=
  let app := Text.fold s.app.name
  let rest := Text.fold s.rest.name
  s!"{rest},xscript={app},xscript_core={app},xscript_ext={app}"

end LogSettings

namespace Settings

/-- The settings with other log levels. -/
def withLog (s : Settings) (log : LogSettings) : Settings := { s with log? := some log }

/-- The settings with another limit for runs. -/
def withRun (s : Settings) (run : RunSettings) : Settings := { s with run? := some run }

end Settings

end ScriptEngine
