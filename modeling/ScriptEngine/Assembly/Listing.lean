import ScriptEngine.Registry.Basic
import ScriptEngine.Word.Instruction

/-!
# Listings

The readable form of code: one line for each word, with its address, the word in hexadecimal, and the instruction as the
assembler would read it. A word that is no instruction is described in angle brackets.
-/

namespace ScriptEngine.Assembly

/-- The name and the arguments of the instruction that a word stands for. -/
def describe (r : Registry) (word : UInt32) : String :=
  match Instruction.decode? word with
  | none => "<invalid>"
  | some i =>
    match r.byOpcode? i.opcode with
    | none => s!"<unknown {i.opcode.text}>"
    | some d => " ".intercalate (d.mnemonic :: i.args.map Nat.repr)

/-- The line of a word at an address. -/
def listingLine (r : Registry) (pc : Nat) (word : UInt32) : String :=
  let address := Text.padLeft 4 '0' pc.repr
  s!"{address}  {Text.hexPadded 8 word.toNat}  {describe r word}\n"

/-- The listing of some code. -/
def listing (r : Registry) (code : Array UInt32) : String :=
  String.join ((code.toList.zipIdx).map fun (word, pc) => listingLine r pc word)

end ScriptEngine.Assembly
