import ScriptEngine.Settings.Basic
import ScriptEngine.Settings.Json

/-!
# The settings file

Settings are kept as a JSON document. Each group of settings is an object with a field for each setting, or an array with the
settings in order. Fields of other names are ignored, and a field may not occur twice. What is missing has its default, but log
levels are given both or not at all. `null` stands for a section that is absent.

A level is given by its name in any case, or as the only field of an object, with the value `null`. A step limit is a natural
number below `2 ^ 64`, written without point or exponent.
-/

namespace ScriptEngine

namespace Json

/-- The value of the field of that name, if there is one; the outer option fails if there are two. -/
def field? (fields : List (String × Json)) (name : String) : Option (Option Json) :=
  match fields.filter (·.1 = name) with
  | [] => some none
  | [(_, v)] => some (some v)
  | _ => none

/-- The settings of a group under the given names, in order. -/
def group? (names : List String) : Json → Option (List (Option Json))
  | object fields => do
    let fields ← fields.mapM fun (ps, v) => (text? ps).map (·, v)
    names.mapM (field? fields)
  | array items =>
    if items.length ≤ names.length then
      some (items.map some ++ List.replicate (names.length - items.length) none)
    else none
  | _ => none

end Json

namespace LogLevel

/-- The level that a value gives. -/
def ofJson? : Json → Option LogLevel
  | .string ps => (Json.text? ps).bind ofName?
  | .object [(ps, .null)] => (Json.text? ps).bind ofName?
  | _ => none

end LogLevel

namespace LogSettings

/-- The log levels that a value gives. -/
def ofJson? (v : Json) : Option LogSettings := do
  match ← v.group? ["app_level_filter", "level_filter"] with
  | [some app, some rest] => return { app := ← LogLevel.ofJson? app, rest := ← LogLevel.ofJson? rest }
  | _ => none

end LogSettings

namespace RunSettings

/-- The step limit that a value gives. -/
def stepLimit? : Json → Option UInt64
  | .number written =>
    (Json.natural? written).bind fun n => if n < 2 ^ 64 then some (UInt64.ofNat n) else none
  | _ => none

/-- The run settings that a value gives. -/
def ofJson? (v : Json) : Option RunSettings := do
  match ← v.group? ["step_limit"] with
  | [none] => return {}
  | [some limit] => return { stepLimit := ← stepLimit? limit }
  | _ => none

end RunSettings

namespace Settings

/-- A section that may be absent: its default if it is not mentioned, nothing if it is `null`. -/
def section? {α : Type} (default : Option α) (read : Json → Option α) : Option Json → Option (Option α)
  | none => some default
  | some .null => some none
  | some v => (read v).map some

/-- The settings that a value gives. -/
def ofJson? (v : Json) : Option Settings := do
  match ← v.group? ["app_name", "logger_config", "vm_config"] with
  | [name, log, run] =>
    let standard : Settings := {}
    let appName ←
      match name with
      | none => some standard.appName
      | some (.string ps) => Json.text? ps
      | some _ => none
    return {
      appName
      log? := ← section? standard.log? LogSettings.ofJson? log
      run? := ← section? standard.run? RunSettings.ofJson? run }
  | _ => none

/-- The settings in a file. -/
def ofBytes? (bytes : List UInt8) : Option Settings := (Json.ofBytes? bytes).bind ofJson?

end Settings

end ScriptEngine
