import ScriptEngine.Number.Power

/-!
# Segments of the instruction word

An instruction word has 32 bits. Its topmost bits, the selector, say which of six segments the word belongs to; the segment
says how the remaining bits split into an opcode field and up to two inline arguments. The layouts are data
(`Segment.layout`), so that encoding and decoding are each written once for all segments.

Opcode values are part of every compiled script. The table of layouts is therefore fixed for good.
-/

namespace ScriptEngine

/-- The six classes of instruction words. -/
inductive Segment where
  | zero | one | two | three | four | five
  deriving DecidableEq, Repr, Inhabited

/-- The two parts of a segment: the opcodes of the built-in instructions, and those left to extensions. -/
inductive Region where
  | core | extension
  deriving DecidableEq, Repr, Inhabited

/-- How a segment divides its words, from the topmost bit down: a selector, the opcode field, two inline arguments. An argument
that the segment does not carry has no bits. -/
structure Layout where
  selector : Nat
  selectorBits : Nat
  opcodeBits : Nat
  firstBits : Nat
  secondBits : Nat
  deriving DecidableEq, Repr

namespace Region

/-- The name of a region in messages. -/
def name : Region → String
  | core => "core"
  | extension => "extension"

end Region

namespace Segment

/-- All segments, in the order of their numbers. -/
def all : List Segment := [zero, one, two, three, four, five]

/-- The number of a segment. -/
def number : Segment → Nat
  | zero => 0
  | one => 1
  | two => 2
  | three => 3
  | four => 4
  | five => 5

/-- The name of a segment in messages and listings. -/
def name (s : Segment) : String := s!"segment {s.number}"

/-- The layout of each segment. -/
def layout : Segment → Layout
  | zero => ⟨0b00, 2, 6, 24, 0⟩
  | one => ⟨0b01, 2, 6, 12, 12⟩
  | two => ⟨0b10, 2, 10, 20, 0⟩
  | three => ⟨0b110000, 6, 18, 8, 0⟩
  | four => ⟨0b110001, 6, 10, 8, 8⟩
  | five => ⟨0b110010, 6, 26, 0, 0⟩

/-- Every layout fills the word. -/
theorem layout_width (s : Segment) :
    s.layout.selectorBits + s.layout.opcodeBits + s.layout.firstBits + s.layout.secondBits = 32 := by
  cases s <;> rfl

/-- The first value that no longer fits the opcode field. -/
def opcodeLimit (s : Segment) : Nat := 2 ^ s.layout.opcodeBits

/-- The widths of the two inline arguments. -/
def argBits (s : Segment) : List Nat := [s.layout.firstBits, s.layout.secondBits]

/-- How many inline arguments a word of this segment carries. A handler for the segment takes as many. -/
def arity (s : Segment) : Nat := s.argBits.countP (· ≠ 0)

/-- Where the extension region begins, in a segment that has one. -/
def extensionBase? : Segment → Option Nat
  | three => some 0x20000
  | five => some 0x2000000
  | _ => none

/-- The opcodes of a region, as a half-open interval. A segment without an extension region gives the empty interval for it. -/
def bounds (s : Segment) (r : Region) : Nat × Nat :=
  match r, s.extensionBase? with
  | .core, some base => (0, base)
  | .core, none => (0, s.opcodeLimit)
  | .extension, some base => (base, s.opcodeLimit)
  | .extension, none => (0, 0)

/-- The region an opcode value lies in. Without an extension region all of a segment is core. -/
def regionOf (s : Segment) (code : Nat) : Region :=
  match s.extensionBase? with
  | some base => if base ≤ code then .extension else .core
  | none => .core

/-- The segment that a word's selector names, if there is one: two bits decide between the first three segments, and below the
selector `11` four more bits decide between the others. -/
def ofWord? (word : Nat) : Option Segment :=
  match word / 2 ^ 30 with
  | 0 => some zero
  | 1 => some one
  | 2 => some two
  | _ =>
    match word / 2 ^ 26 with
    | 0b110000 => some three
    | 0b110001 => some four
    | 0b110010 => some five
    | _ => none

end Segment

end ScriptEngine
