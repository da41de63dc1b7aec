import ScriptEngine.Host.Basic

/-!
# A host that replays

A host without a game behind it, for trying scripts out. Globals and controls are kept under exactly the names given, every
control is enabled until it is disabled, and random draws come from a list prepared in advance, whatever the limit.
-/

namespace ScriptEngine

/-- The state of a host that replays prepared draws. -/
structure Replay where
  locals : Locals := default
  globals : List (String × Cell) := []
  disabled : List String := []
  menuMode : Bool := false
  draws : List Int32 := []
  deriving Repr, Inhabited

namespace Replay

instance : Host Replay where
  locals h := (h.locals, fun l => { h with locals := l })
  global h name := ((h.globals.lookup name).getD .zero, h)
  setGlobal h name v := { h with globals := (name, v) :: h.globals.filter (·.1 != name) }
  messageBox h _ _ := h
  setControlEnabled h name enabled :=
    let rest := h.disabled.filter (· != name)
    { h with disabled := if enabled then rest else name :: rest }
  controlEnabled h name := (!h.disabled.contains name, h)
  menuMode h := (h.menuMode, h)
  random h _ := (h.draws.headD 0, { h with draws := h.draws.tail })

end Replay

end ScriptEngine
