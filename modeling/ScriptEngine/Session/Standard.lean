import ScriptEngine.Engine.Run
import ScriptEngine.Session.Control
import ScriptEngine.Session.Query

/-!
# The standard engine

The engine of the command line: the built-in instructions, player controls, and queries, in this order.
-/

namespace ScriptEngine

variable {σ : Type} [Host σ]

/-- The extensions of the standard engine, besides the built-in instructions. -/
def standardExtensions : List (Extension σ) := [Control.extension, Query.extension]

/-- The standard engine under a step limit. -/
def Engine.standard (stepLimit : Nat := defaultStepLimit) : Except SetupError (Engine σ) :=
  Engine.build standardExtensions stepLimit

end ScriptEngine
