import ScriptEngine.Cell
import ScriptEngine.Locals

/-!
# Hosts

A host is the game around a running script: the object that the script is attached to and the session that the object lives in.
The engine reaches it through the calls of this class only. A call takes the state of the host and gives the next one, so that
what a script does to its host is part of the result of a run.
-/

namespace ScriptEngine

/-- What a running script may ask of its host, whose state is of type `σ`. -/
class Host (σ : Type) where
  /-- The local variables of the script's object, and the state with other ones in their place. -/
  locals : σ → Locals × (Locals → σ)
  /-- Reads a global variable. -/
  global : σ → String → Cell × σ
  /-- Writes a global variable. -/
  setGlobal : σ → String → Cell → σ
  /-- Shows a message with its buttons. -/
  messageBox : σ → String → List String → σ
  /-- Enables or disables a player control. -/
  setControlEnabled : σ → String → Bool → σ
  /-- Asks whether a player control is enabled. -/
  controlEnabled : σ → String → Bool × σ
  /-- Asks whether a menu is open. -/
  menuMode : σ → Bool × σ
  /-- Draws a number from zero up to the limit, which it stays below; zero if the limit is not positive. -/
  random : σ → Int32 → Int32 × σ

namespace Host

variable {σ : Type} [Host σ]

/-- The local variables of the script's object. -/
def getLocals (h : σ) : Locals := (locals h).1

/-- The state with other local variables. -/
def setLocals (h : σ) (l : Locals) : σ := (locals h).2 l

end Host

end ScriptEngine
