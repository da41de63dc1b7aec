import ScriptEngine.Assembly.Operand
import ScriptEngine.Assembly.Token
import ScriptEngine.Registry.Basic
import ScriptEngine.Script.Basic
import ScriptEngine.Text.Line
import ScriptEngine.Word.Instruction

/-!
# Assembling a source text

Each line with a token on it becomes one word: the first token is the name of an instruction, and the others are its operands,
as many as the words of its segment carry. Literals are collected over all lines. The first line that is not well-formed ends
the assembly, and on a line the first thing that is wrong: a quote that is not closed, an unknown name, the number of operands,
then each operand in turn.
-/

namespace ScriptEngine.Assembly

/-- What is wrong with a line. -/
inductive LineError where
  /-- No instruction has the name. -/
  | lookup (cause : LookupError)
  /-- The instruction takes another number of operands. -/
  | operandCount (mnemonic : String) (expected got : Nat)
  /-- The value does not fit the bits of its field. -/
  | operandRange (value : Int) (bits : Nat)
  /-- The token is no operand, or its quote is not closed. -/
  | badOperand (token : String)
  deriving DecidableEq, Repr

/-- The first line that is wrong, counted from one. -/
structure AssemblyError where
  line : Nat
  error : LineError
  deriving DecidableEq, Repr

namespace LineError

/-- The text of an error. -/
def message : LineError → String
  | lookup cause => cause.message
  | operandCount mnemonic expected got => s!"`{mnemonic}` takes {expected} operand(s), got {got}"
  | operandRange value bits => s!"operand {value} does not fit in {bits} bits"
  | badOperand token => s!"cannot parse operand `{token}`"

end LineError

namespace AssemblyError

/-- The text of an error. -/
def message (e : AssemblyError) : String := s!"line {e.line}: {e.error.message}"

end AssemblyError

/-- The argument that a token gives for a field of some bits. -/
def argument (l : Literals) (token : List Char) (bits : Nat) : Except LineError (Nat × Literals) :=
  match Operand.ofToken? token with
  | none => .error (.badOperand (String.ofList token))
  | some operand =>
    let (value, l) := operand.resolve l
    if 0 ≤ value ∧ value < 2 ^ bits then .ok (value.toNat, l) else .error (.operandRange value bits)

/-- The arguments that tokens give for fields of some bits each. -/
def arguments (l : Literals) : List (List Char × Nat) → Except LineError (List Nat × Literals)
  | [] => .ok ([], l)
  | (token, bits) :: rest => do
    let (value, l) ← argument l token bits
    let (values, l) ← arguments l rest
    return (value :: values, l)

/-- The script with the word of one more line. -/
def assembleLine (r : Registry) (line : List Char) (s : Script) : Except LineError Script :=
  match tokens line with
  | .error unfinished => .error (.badOperand (String.ofList unfinished))
  | .ok [] => .ok s
  | .ok (name :: operands) =>
    match r.lookup (String.ofList name) with
    | .error e => .error (.lookup e)
    | .ok d =>
      let segment := d.opcode.segment
      if operands.length ≠ segment.arity then .error (.operandCount d.mnemonic segment.arity operands.length)
      else
        match arguments s.literals (operands.zip segment.argBits) with
        | .error e => .error e
        | .ok (values, literals) =>
          let word := Instruction.encode ⟨d.opcode, values.getD 0 0, values.getD 1 0⟩
          .ok { code := s.code.push word, literals }

/-- The script with the words of further lines, the first of them having the given number. -/
def assembleLines (r : Registry) (number : Nat) (s : Script) : List (List Char) → Except AssemblyError Script
  | [] => .ok s
  | line :: rest =>
    match assembleLine r line s with
    | .error e => .error ⟨number, e⟩
    | .ok s => assembleLines r (number + 1) s rest

/-- The script that a source text writes. -/
def assemble (r : Registry) (source : String) : Except AssemblyError Script :=
  assembleLines r 1 {} (Text.lines source.toList)

end ScriptEngine.Assembly
