import ScriptEngine.Engine.Extension

/-!
# Queries

Functions that ask about the session: whether a menu is open, whether the game runs on a console, and a random number.
-/

namespace ScriptEngine

/-- The queries. -/
inductive Query where
  | menuMode | xbox | random
  deriving DecidableEq, Repr, Inhabited

namespace Query

/-- The queries in the order of their opcodes. -/
def all : List Query := [menuMode, xbox, random]

/-- The keyword of a query. -/
def mnemonic : Query → String
  | menuMode => "menumode"
  | xbox => "xbox"
  | random => "random"

/-- What the compiler reads after the keyword. -/
def signature : Query → String
  | random => "l"
  | _ => ""

/-- The first opcode value. -/
def base : Nat := 0x200000b

/-- The opcode of a query. -/
def opcode (q : Query) : Opcode := ⟨.five, base + all.idxOf q⟩

variable {σ : Type} [Host σ]

/-- Stack `..` to `.. open`. -/
def pushMenuMode (m : Machine σ) : Machine σ :=
  let (isOpen, host) := Host.menuMode m.host
  { m with host }.push (.ofBool isOpen)

/-- Stack `.. limit` to `.. number`. -/
def draw (m : Machine σ) : Machine σ :=
  let (limit, m) := m.pop
  let (n, host) := Host.random m.host limit.int
  { m with host }.pushInt n

/-- The handler of a query. There is no console to run on. -/
def handler : Query → Handler σ
  | menuMode => .nullary fun _ m => pushMenuMode m
  | xbox => .nullary fun _ m => m.pushInt 0
  | random => .nullary fun _ m => draw m

/-- The extension that lets scripts ask about the session. -/
def extension : Extension σ where
  name := "misc"
  registrations :=
    .reserve ⟨"misc", .five, base, all.length, .extension⟩ :: all.map fun q => .function q.mnemonic 'l' q.signature q.opcode
  handlers := all.map fun q => (q.opcode, q.handler)

end Query

end ScriptEngine
