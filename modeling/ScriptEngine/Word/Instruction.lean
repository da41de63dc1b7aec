import ScriptEngine.Word.Opcode

/-!
# Instructions and their words

An instruction is an opcode with its two inline arguments; an argument that the segment does not carry is zero. `encode` packs
an instruction into a word and drops the bits of each field that do not fit, so callers check ranges beforehand. `decode?`
undoes it, and is defined for exactly the words whose selector is assigned.

Both are written with division and remainder on natural numbers, once for every layout.
-/

namespace ScriptEngine

/-- An opcode and its inline arguments. -/
structure Instruction where
  opcode : Opcode
  arg0 : Nat := 0
  arg1 : Nat := 0
  deriving DecidableEq, Repr, Inhabited

namespace Layout

/-- The word with the given opcode value and arguments, each cut to its field. -/
def pack (l : Layout) (code arg0 arg1 : Nat) : Nat :=
  l.selector * 2 ^ (l.opcodeBits + l.firstBits + l.secondBits) +
    code % 2 ^ l.opcodeBits * 2 ^ (l.firstBits + l.secondBits) +
    arg0 % 2 ^ l.firstBits * 2 ^ l.secondBits +
    arg1 % 2 ^ l.secondBits

/-- The opcode value of a word. -/
def codeOf (l : Layout) (word : Nat) : Nat := word / 2 ^ (l.firstBits + l.secondBits) % 2 ^ l.opcodeBits

/-- The first inline argument of a word. -/
def firstOf (l : Layout) (word : Nat) : Nat := word / 2 ^ l.secondBits % 2 ^ l.firstBits

/-- The second inline argument of a word. -/
def secondOf (l : Layout) (word : Nat) : Nat := word % 2 ^ l.secondBits

end Layout

namespace Instruction

/-- The word of an instruction. -/
def encode (i : Instruction) : UInt32 :=
  UInt32.ofNat (i.opcode.segment.layout.pack i.opcode.code i.arg0 i.arg1)

/-- The instruction that a word stands for; nothing if the word's selector is not assigned. -/
def decode? (word : UInt32) : Option Instruction :=
  (Segment.ofWord? word.toNat).map fun s =>
    { opcode := ⟨s, s.layout.codeOf word.toNat⟩
      arg0 := s.layout.firstOf word.toNat
      arg1 := s.layout.secondOf word.toNat }

/-- As many of the two arguments as the segment carries. -/
def args (i : Instruction) : List Nat := [i.arg0, i.arg1].take i.opcode.segment.arity

end Instruction

end ScriptEngine
