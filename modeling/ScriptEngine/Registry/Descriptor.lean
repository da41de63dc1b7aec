import ScriptEngine.Registry.Signature
import ScriptEngine.Word.Opcode

/-!
# Descriptors

What the script compiler knows of an instruction: its mnemonic, its parameters, its opcode, and whether it leaves a value.
-/

namespace ScriptEngine

/-- The type of the value that a function leaves on the stack. -/
inductive ReturnType where
  | long | short | float
  deriving DecidableEq, Repr, Inhabited

/-- Whether an instruction leaves a value. -/
inductive Kind where
  | instruction
  | function (returns : ReturnType)
  deriving DecidableEq, Repr, Inhabited

/-- A registered instruction. The mnemonic is in lower case. -/
structure Descriptor where
  mnemonic : String
  signature : Signature
  opcode : Opcode
  kind : Kind
  deriving DecidableEq, Repr, Inhabited

namespace ReturnType

/-- The letter of a return type. -/
def letter : ReturnType → Char
  | long => 'l'
  | short => 's'
  | float => 'f'

/-- The return type of a letter. -/
def ofLetter? : Char → Option ReturnType
  | 'l' => some long
  | 's' => some short
  | 'f' => some float
  | _ => none

end ReturnType

namespace Kind

/-- How listings show a kind: the letter of the return type, or a dash. -/
def text : Kind → String
  | instruction => "-"
  | function r => r.letter.toString

end Kind

end ScriptEngine
