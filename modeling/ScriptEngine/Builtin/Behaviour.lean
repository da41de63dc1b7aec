import ScriptEngine.Builtin.Basic
import ScriptEngine.Machine.Handler

/-!
# What the built-in instructions do

The handler of each built-in instruction. In the comments a stack is written from the bottom to the top, and `..` stands for the
cells below the operands.
-/

namespace ScriptEngine

namespace Locals

/-- The variable of a kind in the slot that a cell names. A negative number names no slot. -/
def fetch (l : Locals) (kind : LocalKind) (slot : Cell) : Cell :=
  match slot.index? with
  | none => .zero
  | some i =>
    match kind with
    | .short => .ofInt (l.short i)
    | .long => .ofInt (l.long i)
    | .float => .ofFloat (l.float i)

/-- The locals after writing a cell into the slot that another one names; nothing if there is no such slot. -/
def store? (l : Locals) (kind : LocalKind) (slot value : Cell) : Option Locals :=
  slot.index?.bind fun i =>
    match kind with
    | .short => l.setShort? i value.int
    | .long => l.setLong? i value.int
    | .float => l.setFloat? i value.float

end Locals

namespace Literals

/-- The integer literal that a cell names; zero if it names none. -/
def intAt (l : Literals) (c : Cell) : Cell := .ofInt ((c.index?.bind l.int?).getD 0)

/-- The float literal that a cell names; zero if it names none. -/
def floatAt (l : Literals) (c : Cell) : Cell := .ofFloat ((c.index?.bind l.float?).getD .zero)

end Literals

namespace Builtin

variable {σ : Type} [Host σ]

/-- Stack `.. message button₁ … buttonₙ` to `..`, all of them names of string literals. -/
def showMessage (n : Nat) (l : Literals) (m : Machine σ) : Machine σ :=
  let (buttons, m) := m.popTexts l n []
  let (text, m) := m.pop
  { m with host := Host.messageBox m.host (l.textAt text) buttons }

/-- Stack `.. slot value` to `..`. A write to a slot that is not there has no effect. -/
def writeLocal (kind : LocalKind) (m : Machine σ) : Machine σ :=
  let (value, m) := m.pop
  let (slot, m) := m.pop
  match (Host.getLocals m.host).store? kind slot value with
  | some l => { m with host := Host.setLocals m.host l }
  | none => m

/-- Stack `.. slot` to `.. value`. -/
def readLocal (kind : LocalKind) (m : Machine σ) : Machine σ :=
  m.mapTop ((Host.getLocals m.host).fetch kind)

/-- Stack `.. name value` to `..`. -/
def writeGlobal (l : Literals) (m : Machine σ) : Machine σ :=
  let (value, m) := m.pop
  let (name, m) := m.pop
  { m with host := Host.setGlobal m.host (l.textAt name) value }

/-- Stack `.. name` to `.. value`. -/
def readGlobal (l : Literals) (m : Machine σ) : Machine σ :=
  let (value, host) := Host.global m.host (l.textAt m.top)
  { m with host }.replace 0 value

/-- Stack `.. condition` to `..`, and the next word is passed over if the condition is as wanted. -/
def skipWhen (wanted : Cell → Bool) (m : Machine σ) : Machine σ :=
  let (condition, m) := m.pop
  if wanted condition then m.skip else m

/-- The handler of a built-in instruction. -/
def handler : Builtin → Handler σ
  | pushInt => .unary fun arg0 _ m => m.push (.ofNat arg0)
  | jumpForward => .unary fun arg0 _ m => m.forward arg0
  | jumpBackward => .unary fun arg0 _ m => m.backward arg0
  | messageBox => .unary showMessage
  | storeLocal kind => .nullary fun _ m => writeLocal kind m
  | fetchLocal kind => .nullary fun _ m => readLocal kind m
  | arithInt op => .nullary fun _ m => m.combine fun l r => .ofInt (op.onInts l.int r.int)
  | arithFloat op => .nullary fun _ m => m.combine fun l r => .ofFloat (op.onFloats l.float r.float)
  | intToFloat => .nullary fun _ m => m.mapTop fun c => .ofFloat (.ofInt c.int)
  | floatToInt => .nullary fun _ m => m.mapTop fun c => .ofInt c.float.toInt
  | negateInt => .nullary fun _ m => m.mapTop fun c => .ofInt (-c.int)
  | negateFloat => .nullary fun _ m => m.mapTop fun c => .ofFloat c.float.negate
  | exit => .nullary fun _ m => m.halt
  | skipOnZero => .nullary fun _ m => skipWhen (·.int == 0) m
  | skipOnNonZero => .nullary fun _ m => skipWhen (·.int != 0) m
  | compareInt c => .nullary fun _ m => m.combine fun l r => .ofBool (c.onInts l.int r.int)
  | compareFloat c => .nullary fun _ m => m.combine fun l r => .ofBool (c.onFloats l.float r.float)
  | fetchIntLiteral => .nullary fun l m => m.mapTop l.intAt
  | fetchFloatLiteral => .nullary fun l m => m.mapTop l.floatAt
  | storeGlobal => .nullary writeGlobal
  | fetchGlobal => .nullary readGlobal
  | pop => .nullary fun _ m => m.drop

end Builtin

end ScriptEngine
