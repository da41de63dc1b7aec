import ScriptEngine.Registry.Signature
import ScriptEngine.Text.Quoted
import ScriptEngine.Word.Opcode

/-!
# Setup errors

The ways in which the instructions and handlers of an engine can fail to fit together. Any of them means that the engine is not
built; none of them arises once scripts run.
-/

namespace ScriptEngine

/-- Why an engine could not be put together. -/
inductive SetupError where
  /-- The mnemonic, ignoring case, is registered already. -/
  | duplicateMnemonic (mnemonic : String)
  /-- The text is no signature. -/
  | invalidSignature (mnemonic signature : String) (reason : SignatureError)
  /-- The letter is no return type. -/
  | invalidReturnType (mnemonic : String) (letter : Char)
  /-- A range of no opcodes was asked for. -/
  | emptyReservation (group : String)
  /-- An opcode lies beyond the opcode field of its segment. -/
  | outOfSegment (segment : Segment) (code : Nat)
  /-- A range leaves the region that it was asked for in. -/
  | regionViolation (group : String) (segment : Segment) (base count : Nat) (region : Region)
  /-- A range shares opcodes with one that was granted before. -/
  | rangeOverlap (group other : String) (segment : Segment) (base count : Nat)
  /-- An instruction uses an opcode in no granted range. -/
  | unreserved (mnemonic : String) (opcode : Opcode)
  /-- An instruction uses an opcode that another one has. -/
  | opcodeTaken (mnemonic other : String) (opcode : Opcode)
  /-- The opcode has a handler already. -/
  | alreadyInstalled (opcode : Opcode)
  /-- The handler takes another number of arguments than the words of the segment carry. -/
  | arityMismatch (opcode : Opcode) (got : Nat)
  /-- A registered instruction has no handler. -/
  | missingHandler (mnemonic : String) (opcode : Opcode)
  /-- A handler belongs to no registered instruction. -/
  | missingDescriptor (opcode : Opcode)
  deriving DecidableEq, Repr

namespace SetupError

/-- A range as messages show it. -/
def rangeText (base count : Nat) : String := s!"[0x{Text.hex base}, +{count})"

/-- The text of an error. -/
def message : SetupError → String
  | duplicateMnemonic mnemonic => s!"mnemonic `{mnemonic}` is already registered"
  | invalidSignature mnemonic signature reason =>
    s!"invalid argument signature {Text.quote signature} for `{mnemonic}`: {reason.message}"
  | invalidReturnType mnemonic letter => s!"invalid return type {Text.quoteChar letter} for `{mnemonic}`"
  | emptyReservation group => s!"group `{group}` reserves an empty opcode range"
  | outOfSegment segment code =>
    s!"opcode 0x{Text.hex code} does not fit {segment.name} (limit 0x{Text.hex segment.opcodeLimit})"
  | regionViolation group segment base count region =>
    s!"group `{group}` range {rangeText base count} in {segment.name} leaves the {region.name} region"
  | rangeOverlap group other segment base count =>
    s!"group `{group}` range {rangeText base count} in {segment.name} overlaps group `{other}`"
  | unreserved mnemonic opcode => s!"`{mnemonic}` uses {opcode.text}, which no group has reserved"
  | opcodeTaken mnemonic other opcode => s!"`{mnemonic}` uses {opcode.text}, already taken by `{other}`"
  | alreadyInstalled opcode => s!"a handler is already installed for {opcode.text}"
  | arityMismatch opcode got => s!"{opcode.text} needs a {opcode.segment.arity}-argument handler, got {got}"
  | missingHandler mnemonic opcode => s!"`{mnemonic}` ({opcode.text}) is registered but has no handler"
  | missingDescriptor opcode => s!"handler installed for {opcode.text} has no registered instruction"

end SetupError

end ScriptEngine
