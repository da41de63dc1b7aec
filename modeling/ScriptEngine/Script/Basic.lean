import ScriptEngine.Script.Literals

/-!
# Scripts

A compiled script: its instruction words and its literals.
-/

namespace ScriptEngine

/-- A compiled script. -/
structure Script where
  code : Array UInt32 := #[]
  literals : Literals := {}
  deriving DecidableEq, Repr, Inhabited

namespace Script

/-- The same code and the same literals, with numerically equal floats. A script with a NaN does not agree with itself. -/
def agrees (a b : Script) : Bool := a.code == b.code && a.literals.agrees b.literals

end Script

end ScriptEngine
