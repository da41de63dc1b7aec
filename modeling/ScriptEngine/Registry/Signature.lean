/-!
# Argument signatures

What the script compiler reads after a keyword: a list of required parameters, and optionally a list of further ones that may be
left out. A signature is written with one letter for each parameter and a slash before the optional ones; a slash with nothing
after it is a signature of its own.
-/

namespace ScriptEngine

/-- The kinds of parameters. An ignored parameter can only be an optional one. -/
inductive Param where
  | long | short | float | identifier | string | ignored
  deriving DecidableEq, Repr, Inhabited

/-- The parameters of an instruction: those required and, after a slash, those that may be left out. -/
structure Signature where
  required : List Param := []
  optional? : Option (List Param) := none
  deriving DecidableEq, Repr, Inhabited

/-- Why a text is no signature; the first character that cannot continue one decides. -/
inductive SignatureError where
  | repeatedSlash
  | earlyIgnored
  | unknownParam (c : Char)
  deriving DecidableEq, Repr

namespace Param

/-- The letter of a parameter. -/
def letter : Param → Char
  | long => 'l'
  | short => 's'
  | float => 'f'
  | identifier => 'c'
  | string => 'S'
  | ignored => 'x'

/-- The parameter of a letter. -/
def ofLetter? : Char → Option Param
  | 'l' => some long
  | 's' => some short
  | 'f' => some float
  | 'c' => some identifier
  | 'S' => some string
  | 'x' => some ignored
  | _ => none

end Param

namespace SignatureError

/-- The text of an error. -/
def message : SignatureError → String
  | repeatedSlash => "`/` appears more than once"
  | earlyIgnored => "`x` is only allowed after `/`"
  | unknownParam c => s!"unknown argument type `{c}`"

end SignatureError

namespace Signature

/-- The parameters after the slash. -/
def readOptional : List Char → Except SignatureError (List Param)
  | [] => .ok []
  | c :: cs =>
    if c = '/' then .error .repeatedSlash
    else
      match Param.ofLetter? c with
      | none => .error (.unknownParam c)
      | some p => (p :: ·) <$> readOptional cs

/-- The signature that a sequence of characters writes. -/
def read : List Char → Except SignatureError Signature
  | [] => .ok {}
  | c :: cs =>
    if c = '/' then ({ optional? := some · }) <$> readOptional cs
    else
      match Param.ofLetter? c with
      | none => .error (.unknownParam c)
      | some .ignored => .error .earlyIgnored
      | some p => (fun s => { s with required := p :: s.required }) <$> read cs

/-- The signature that a text writes. -/
def ofText (s : String) : Except SignatureError Signature := read s.toList

/-- The written form. -/
def text (s : Signature) : String :=
  String.ofList (s.required.map Param.letter ++
    match s.optional? with
    | none => []
    | some ps => '/' :: ps.map Param.letter)

/-- How many parameters are required. -/
def requiredCount (s : Signature) : Nat := s.required.length

/-- How many parameters may be left out. -/
def optionalCount (s : Signature) : Nat := (s.optional?.getD []).length

/-- The instruction takes nothing and has no slash. -/
def isEmpty (s : Signature) : Bool := s.required.isEmpty && s.optional?.isNone

end Signature

end ScriptEngine
