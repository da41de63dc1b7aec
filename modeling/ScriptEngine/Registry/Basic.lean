import ScriptEngine.NameTable
import ScriptEngine.Registry.Descriptor
import ScriptEngine.Registry.Reservation
import ScriptEngine.Text.Case
import ScriptEngine.Word.OpcodeTable

/-!
# The registry of instructions

The registry is what the script compiler may emit: the granted opcode ranges, and the registered instructions. It keeps the
descriptors by their mnemonics, and the mnemonics by their opcodes; a registration writes both tables. Keywords ignore the case of
ASCII letters, so a mnemonic is kept, and looked up, in lower case. A mnemonic names one opcode and an opcode has one mnemonic. A
step that fails leaves the registry as it was.
-/

namespace ScriptEngine

/-- Granted ranges and registered instructions: the descriptors by mnemonic, and the mnemonics by opcode. -/
structure Registry where
  space : OpcodeSpace := {}
  descriptors : NameTable Descriptor := .empty
  mnemonics : OpcodeTable String := {}
  deriving Inhabited

/-- No instruction has the name, which is given as it was asked for. -/
structure LookupError where
  mnemonic : String
  deriving DecidableEq, Repr

/-- One step of filling a registry. -/
inductive Registration where
  | reserve (range : Reservation)
  | instruction (mnemonic signature : String) (opcode : Opcode)
  | function (mnemonic : String) (returns : Char) (signature : String) (opcode : Opcode)
  deriving DecidableEq, Repr

namespace LookupError

/-- The text of an error. -/
def message (e : LookupError) : String := s!"unknown instruction `{e.mnemonic}`"

end LookupError

namespace Registry

/-- The registered instructions, in the order of their opcodes. -/
def all (r : Registry) : List Descriptor := r.mnemonics.values.filterMap r.descriptors.get?

/-- The instruction of that name, ignoring case. -/
def find? (r : Registry) (mnemonic : String) : Option Descriptor := r.descriptors.get? (Text.fold mnemonic)

/-- The instruction of that name, ignoring case, or an error that gives the name back. -/
def lookup (r : Registry) (mnemonic : String) : Except LookupError Descriptor :=
  match r.find? mnemonic with
  | some d => .ok d
  | none => .error ⟨mnemonic⟩

/-- A name is registered. -/
def contains (r : Registry) (mnemonic : String) : Bool := r.descriptors.contains (Text.fold mnemonic)

/-- The instruction with that opcode. -/
def byOpcode? (r : Registry) (op : Opcode) : Option Descriptor := (r.mnemonics.get? op).bind r.descriptors.get?

/-- The registered opcodes, in order. -/
def opcodes (r : Registry) : List Opcode := r.mnemonics.opcodes

/-- How many instructions are registered. -/
def size (r : Registry) : Nat := r.descriptors.size

/-! ## Registering -/

/-- Grants an opcode range and gives it back. -/
def reserveInPlace (range : Reservation) : Setup Registry Reservation := do
  let r ← get
  let (granted, space) := (OpcodeSpace.reserveInPlace range).on r.space
  set { r with space }
  MonadExcept.ofExcept granted

/-- Registers an instruction of either kind: its name must be new, its signature well-formed, and its opcode reserved and free.
The first of these that fails is the error. -/
def registerInPlace (mnemonic signature : String) (opcode : Opcode) (kind : Kind) : Setup Registry Unit := do
  let key := Text.fold mnemonic
  if (← get).descriptors.contains key then throw (.duplicateMnemonic key)
  match Signature.ofText signature with
  | .error reason => throw (.invalidSignature key signature reason)
  | .ok parsed =>
    if (← get).space.owner? opcode = none then throw (.unreserved key opcode)
    if let some other := (← get).mnemonics.get? opcode then throw (.opcodeTaken key other opcode)
    modify fun r => { r with mnemonics := r.mnemonics.insert opcode key }
    modify fun r => { r with descriptors := r.descriptors.insert key ⟨key, parsed, opcode, kind⟩ }

/-- Registers an instruction that leaves a value. The letter of the return type is checked before anything else. -/
def registerFunctionInPlace (mnemonic : String) (returns : Char) (signature : String) (opcode : Opcode) : Setup Registry Unit :=
  match ReturnType.ofLetter? returns with
  | none => throw (.invalidReturnType mnemonic returns)
  | some t => registerInPlace mnemonic signature opcode (.function t)

/-- Takes one step. -/
def stepInPlace : Registration → Setup Registry Unit
  | .reserve range => do
    let _ ← reserveInPlace range
    return
  | .instruction mnemonic signature opcode => registerInPlace mnemonic signature opcode .instruction
  | .function mnemonic returns signature opcode => registerFunctionInPlace mnemonic returns signature opcode

/-- The registry after granting a range, unless it is refused. -/
def reserve (r : Registry) (range : Reservation) : Except SetupError Registry := (reserveInPlace range).outcome r

/-- The registry after registering an instruction of either kind, unless it is refused. -/
def register (r : Registry) (mnemonic signature : String) (opcode : Opcode) (kind : Kind) : Except SetupError Registry :=
  (registerInPlace mnemonic signature opcode kind).outcome r

/-- The registry after registering an instruction that leaves no value, unless it is refused. -/
def registerInstruction (r : Registry) (mnemonic signature : String) (opcode : Opcode) : Except SetupError Registry :=
  r.register mnemonic signature opcode .instruction

/-- The registry after registering an instruction that leaves a value, unless it is refused. -/
def registerFunction (r : Registry) (mnemonic : String) (returns : Char) (signature : String) (opcode : Opcode) :
    Except SetupError Registry :=
  (registerFunctionInPlace mnemonic returns signature opcode).outcome r

/-- The registry after one step, unless it fails. -/
def step (r : Registry) (s : Registration) : Except SetupError Registry := (stepInPlace s).outcome r

/-- The registry after one step, whether it fails or not. -/
def attempt (r : Registry) (s : Registration) : Registry := (stepInPlace s).after r

/-- Takes steps in order up to the first that fails. What was done before it stays done. -/
def load (r : Registry) : List Registration → Registry × Option SetupError
  | [] => (r, none)
  | s :: ss =>
    match (stepInPlace s).on r with
    | (.error e, r) => (r, some e)
    | (.ok _, r) => r.load ss

end Registry

end ScriptEngine
