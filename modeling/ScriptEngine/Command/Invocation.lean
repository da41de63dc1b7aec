import ScriptEngine.Text.Numeral

/-!
# Invocations

What a user asks of the command line: an action, and before it the options that hold for all actions.
-/

namespace ScriptEngine.Command

/-- What is to be done. -/
inductive Action where
  /-- Prints every registered instruction. -/
  | list
  /-- Assembles a source, or reads a compiled script, and stores the script. -/
  | asm (input output : String)
  /-- Prints the listing of a script. -/
  | disasm (input : String)
  /-- Runs a script in a fresh session. -/
  | run (input : String)
  deriving DecidableEq, Repr

/-- An action with the options that hold for all actions. -/
structure Invocation where
  settings? : Option String := none
  stepLimit? : Option UInt64 := none
  verbose : Bool := false
  action : Action
  deriving DecidableEq, Repr

namespace Action

/-- The action that the arguments after the options ask for. The output of `asm` may be named before or after its input. -/
def ofArgs? : List String → Option Action
  | ["list"] => some list
  | ["asm", input, option, output] =>
    if option = "-o" ∨ option = "--output" then some (asm input output)
    else if input = "-o" ∨ input = "--output" then some (asm output option)
    else none
  | ["disasm", input] => some (disasm input)
  | ["run", input] => some (run input)
  | _ => none

/-- The file that an action reads. -/
def input? : Action → Option String
  | list => none
  | asm input _ | disasm input | run input => some input

/-- The file that an action writes. -/
def output? : Action → Option String
  | asm _ output => some output
  | _ => none

end Action

namespace Invocation

/-- The number that an argument gives, if it is below `2 ^ 64`. -/
def limit? (s : String) : Option UInt64 :=
  let digits :=
    match s.toList with
    | '+' :: ds => ds
    | ds => ds
  (Text.digits? 10 digits).bind fun n => if n < 2 ^ 64 then some (UInt64.ofNat n) else none

/-- The invocation that a list of arguments asks for. -/
def ofArgs? : List String → Option Invocation
  | "--config" :: file :: rest => (ofArgs? rest).map fun i => { i with settings? := some file }
  | "-c" :: file :: rest => (ofArgs? rest).map fun i => { i with settings? := some file }
  | "--step-limit" :: n :: rest =>
    match limit? n with
    | some n => (ofArgs? rest).map fun i => { i with stepLimit? := some n }
    | none => none
  | "--verbose" :: rest => (ofArgs? rest).map fun i => { i with verbose := true }
  | "-v" :: rest => (ofArgs? rest).map fun i => { i with verbose := true }
  | rest => (Action.ofArgs? rest).map fun action => { action }

end Invocation

end ScriptEngine.Command
