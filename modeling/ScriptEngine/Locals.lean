import ScriptEngine.Number.Binary32

/-!
# Local variables

The variables of the object that a script is attached to, in three kinds with a fixed number of slots each. A read beyond the
last slot gives zero and a write there is refused, so a script cannot resize the storage of its host. A short keeps 16 bits of
what is written and reads back with its sign.
-/

namespace ScriptEngine

/-- The three kinds of local variables. -/
inductive LocalKind where
  | short | long | float
  deriving DecidableEq, Repr, Inhabited

/-- How many slots there are of each kind. -/
structure LocalSizes where
  shorts : Nat := 16
  longs : Nat := 16
  floats : Nat := 16
  deriving DecidableEq, Repr

/-- The local variables of one object. -/
structure Locals where
  shorts : Array Int16
  longs : Array Int32
  floats : Array Binary32
  deriving DecidableEq, Repr

namespace Locals

/-- Locals of the given sizes, all zero. -/
def ofSizes (sizes : LocalSizes) : Locals where
  shorts := Array.replicate sizes.shorts 0
  longs := Array.replicate sizes.longs 0
  floats := Array.replicate sizes.floats .zero

instance : Inhabited Locals := ⟨ofSizes {}⟩

/-- The numbers of slots. -/
def sizes (l : Locals) : LocalSizes := ⟨l.shorts.size, l.longs.size, l.floats.size⟩

/-- The short in a slot. -/
def short (l : Locals) (i : Nat) : Int32 := (l.shorts[i]?.getD 0).toInt32

/-- The long in a slot. -/
def long (l : Locals) (i : Nat) : Int32 := l.longs[i]?.getD 0

/-- The float in a slot. -/
def float (l : Locals) (i : Nat) : Binary32 := l.floats[i]?.getD .zero

/-- The locals after writing a short; nothing if there is no such slot. -/
def setShort? (l : Locals) (i : Nat) (v : Int32) : Option Locals :=
  if h : i < l.shorts.size then some { l with shorts := l.shorts.set i v.toInt16 h } else none

/-- The locals after writing a long; nothing if there is no such slot. -/
def setLong? (l : Locals) (i : Nat) (v : Int32) : Option Locals :=
  if h : i < l.longs.size then some { l with longs := l.longs.set i v h } else none

/-- The locals after writing a float; nothing if there is no such slot. -/
def setFloat? (l : Locals) (i : Nat) (v : Binary32) : Option Locals :=
  if h : i < l.floats.size then some { l with floats := l.floats.set i v h } else none

/-- The same sizes and numerically equal values in every slot. -/
def agrees (a b : Locals) : Bool :=
  a.shorts == b.shorts && a.longs == b.longs && a.floats.isEqv b.floats Binary32.equal

end Locals

end ScriptEngine
