import ScriptEngine.Settings.Basic
import ScriptEngine.Text.Numeral

/-!
# Settings as values

Settings are handed to a writer as a value: a group of settings is an object with a field for each setting, in order, a level is
the text of its name, and a section that is absent is `null`. The compact text of a value is the JSON text that has no blanks and
no escapes but those that are needed.
-/

namespace ScriptEngine

/-- A value of the kinds that settings are made of. -/
inductive Value where
  | null
  | natural (n : Nat)
  | text (s : String)
  | object (fields : List (String × Value))
  deriving Inhabited

namespace Value

/-- One character of a string as it is written. -/
def writtenChar (c : Char) : List Char :=
  if c = '"' ∨ c = '\\' then ['\\', c]
  else if c = '\x08' then ['\\', 'b']
  else if c = '\x0c' then ['\\', 'f']
  else if c = '\n' then ['\\', 'n']
  else if c = '\r' then ['\\', 'r']
  else if c = '\t' then ['\\', 't']
  else if c < ' ' then "\\u".toList ++ (Text.hexPadded 4 c.toNat).toList
  else [c]

/-- A string as it is written. -/
def writtenString (s : String) : List Char := '"' :: s.toList.flatMap writtenChar ++ ['"']

mutual

/-- The characters that are written for a value. -/
def written : Value → List Char
  | .null => "null".toList
  | .natural n => Nat.toDigits 10 n
  | .text s => writtenString s
  | .object fields => '\x7b' :: writtenFields fields ++ ['\x7d']

/-- The characters that are written for the fields of an object. -/
def writtenFields : List (String × Value) → List Char
  | [] => []
  | [(name, v)] => writtenString name ++ ':' :: written v
  | (name, v) :: field :: fields => writtenString name ++ ':' :: (written v ++ ',' :: writtenFields (field :: fields))

end

/-- The compact text of a value. -/
def compact (v : Value) : String := String.ofList v.written

/-- The value of what may be absent. -/
def ofOption {α : Type} (value : α → Value) : Option α → Value
  | none => .null
  | some a => value a

end Value

/-- The value of log settings. -/
def LogSettings.value (s : LogSettings) : Value :=
  .object [("app_level_filter", .text s.app.name), ("level_filter", .text s.rest.name)]

/-- The value of run settings. -/
def RunSettings.value (s : RunSettings) : Value := .object [("step_limit", .natural s.stepLimit.toNat)]

/-- The value of settings. -/
def Settings.value (s : Settings) : Value :=
  .object [("app_name", .text s.appName), ("logger_config", .ofOption LogSettings.value s.log?),
    ("vm_config", .ofOption RunSettings.value s.run?)]

end ScriptEngine
