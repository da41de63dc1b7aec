import ScriptEngine.Builtin.Arithmetic
import ScriptEngine.Locals
import ScriptEngine.Word.Opcode

/-!
# Built-in instructions

The instructions that the script compiler emits for expressions, control flow and variables. They lie in the core regions of
three segments. Within a segment the opcode values follow the order of `Builtin.ofSegment`, so new instructions go to the end.
-/

namespace ScriptEngine

/-- The built-in instructions. -/
inductive Builtin where
  /-- Pushes its argument. -/
  | pushInt
  /-- Continues as many words after itself as its argument says. -/
  | jumpForward
  /-- Continues as many words before itself as its argument says. -/
  | jumpBackward
  /-- Shows a message with as many buttons as its argument says. -/
  | messageBox
  /-- Writes a local variable. -/
  | storeLocal (kind : LocalKind)
  /-- Replaces a slot number by the local variable there. -/
  | fetchLocal (kind : LocalKind)
  /-- Calculates with two integers. -/
  | arithInt (op : Arith)
  /-- Calculates with two floats. -/
  | arithFloat (op : Arith)
  /-- Replaces an integer by the nearest float. -/
  | intToFloat
  /-- Replaces a float by its integer part. -/
  | floatToInt
  /-- Changes the sign of an integer. -/
  | negateInt
  /-- Changes the sign of a float. -/
  | negateFloat
  /-- Ends the run. -/
  | exit
  /-- Takes a condition and passes over the next word if it is zero. -/
  | skipOnZero
  /-- Takes a condition and passes over the next word unless it is zero. -/
  | skipOnNonZero
  /-- Compares two integers. -/
  | compareInt (c : Comparison)
  /-- Compares two floats. -/
  | compareFloat (c : Comparison)
  /-- Replaces a position by the integer literal there. -/
  | fetchIntLiteral
  /-- Replaces a position by the float literal there. -/
  | fetchFloatLiteral
  /-- Writes a global variable. -/
  | storeGlobal
  /-- Replaces the name of a global variable by its value. -/
  | fetchGlobal
  /-- Takes a cell off the stack. -/
  | pop
  deriving DecidableEq, Repr, Inhabited

namespace LocalKind

/-- The kinds in the order of their opcodes. -/
def all : List LocalKind := [short, long, float]

/-- The part of a mnemonic that names the kind. -/
def name : LocalKind → String
  | short => "short"
  | long => "long"
  | float => "float"

end LocalKind

namespace Builtin

/-- The segment of an instruction: those with an argument have a segment with one. -/
def segment : Builtin → Segment
  | pushInt | jumpForward | jumpBackward => .zero
  | messageBox => .three
  | _ => .five

/-- The built-in instructions of a segment, in the order of their opcode values. -/
def ofSegment : Segment → List Builtin
  | .zero => [pushInt, jumpForward, jumpBackward]
  | .three => [messageBox]
  | .five =>
    LocalKind.all.map storeLocal ++ LocalKind.all.map fetchLocal ++ Arith.all.map arithInt ++ Arith.all.map arithFloat ++
      [intToFloat, floatToInt, negateInt, negateFloat, exit, skipOnZero, skipOnNonZero] ++
      Comparison.all.map compareInt ++ Comparison.all.map compareFloat ++
      [fetchIntLiteral, fetchFloatLiteral, storeGlobal, fetchGlobal, pop]
  | _ => []

/-- All built-in instructions, in the order of their opcodes. -/
def all : List Builtin := Segment.all.flatMap ofSegment

/-- The opcode of an instruction: its position among those of its segment. -/
def opcode (b : Builtin) : Opcode := ⟨b.segment, (ofSegment b.segment).idxOf b⟩

/-- The keyword of an instruction. -/
def mnemonic : Builtin → String
  | pushInt => "pushint"
  | jumpForward => "jumpforward"
  | jumpBackward => "jumpbackward"
  | messageBox => "messagebox"
  | storeLocal kind => "storelocal" ++ kind.name
  | fetchLocal kind => "fetchlocal" ++ kind.name
  | arithInt op => op.name ++ "int"
  | arithFloat op => op.name ++ "float"
  | intToFloat => "inttofloat"
  | floatToInt => "floattoint"
  | negateInt => "negateint"
  | negateFloat => "negatefloat"
  | exit => "return"
  | skipOnZero => "skiponzero"
  | skipOnNonZero => "skiponnonzero"
  | compareInt c => c.name ++ "int"
  | compareFloat c => c.name ++ "float"
  | fetchIntLiteral => "fetchintliteral"
  | fetchFloatLiteral => "fetchfloatliteral"
  | storeGlobal => "storeglobal"
  | fetchGlobal => "fetchglobal"
  | pop => "pop"

/-- What the compiler reads after the keyword. Most built-in instructions are written by the compiler itself and take nothing
from the source. -/
def signature : Builtin → String
  | messageBox => "S/SSSSSSSSS"
  | _ => ""

end Builtin

end ScriptEngine
