import ScriptEngine.Session.Control
import ScriptEngine.Text.Case

/-!
# Game sessions

A host that keeps the state which scripts act on: the local variables of the object, the globals, the locked controls, the
messages shown so far, and whether a menu is open. Names of globals ignore the case of ASCII letters. A control that does not
exist cannot be locked and counts as enabled.

Random numbers come from a generator that the session is begun with, and of which it only knows how to draw from it. So a session
that is begun with the same generator draws the same numbers.
-/

namespace ScriptEngine

/-- A generator of random numbers, which has a state of type `ρ`. -/
class Generator (ρ : Type) where
  /-- Draws a number from zero up to a positive limit, which it stays below, and gives the next state. -/
  draw : ρ → Int32 → Int32 × ρ

/-- The generator of the standard library. -/
instance : Generator StdGen where
  draw gen limit :=
    let (n, gen) := randNat gen 0 (limit.toInt.toNat - 1)
    (Int32.ofNat n, gen)

/-- A message with its buttons. -/
structure Message where
  text : String
  buttons : List String
  deriving DecidableEq, Repr, Inhabited

/-- The state that one running script sees, with a generator of random numbers. Globals are kept under their names in lower case. -/
structure GameSession (ρ : Type) where
  locals : Locals := default
  globals : List (String × Cell) := []
  disabled : List Control := []
  messages : Array Message := #[]
  menuMode : Bool := false
  rng : ρ
  deriving Repr, Inhabited

namespace GameSession

variable {ρ : Type}

/-- A new session. -/
def new (rng : ρ) : GameSession ρ := { rng }

/-- The value of a global; zero if it was never written. -/
def global (g : GameSession ρ) (name : String) : Cell := (g.globals.lookup (Text.fold name)).getD .zero

/-- The session after writing a global. -/
def setGlobal (g : GameSession ρ) (name : String) (v : Cell) : GameSession ρ :=
  let key := Text.fold name
  { g with globals := (key, v) :: g.globals.filter (·.1 != key) }

/-- A control is enabled. -/
def isEnabled (g : GameSession ρ) (c : Control) : Bool := !g.disabled.contains c

/-- The session after enabling or disabling a control. -/
def setEnabled (g : GameSession ρ) (c : Control) (enabled : Bool) : GameSession ρ :=
  let rest := g.disabled.filter (· != c)
  { g with disabled := if enabled then rest else c :: rest }

/-- The locked controls, in the order of the controls. -/
def disabledControls (g : GameSession ρ) : List Control := Control.all.filter (!g.isEnabled ·)

/-- Hands over the messages shown so far and forgets them. -/
def takeMessages (g : GameSession ρ) : Array Message × GameSession ρ := (g.messages, { g with messages := #[] })

variable [Generator ρ]

/-- Draws a number from zero up to the limit, which it stays below. It is zero, and nothing is drawn, if the limit is not
positive. -/
def draw (g : GameSession ρ) (limit : Int32) : Int32 × GameSession ρ :=
  if limit.toInt ≤ 0 then (0, g)
  else
    let (n, rng) := Generator.draw g.rng limit
    (n, { g with rng })

/-- Drawing a number changes nothing but the generator. -/
theorem draw_snd (g : GameSession ρ) (limit : Int32) : ∃ rng, (g.draw limit).2 = { g with rng } := by
  unfold draw
  split
  · exact ⟨g.rng, rfl⟩
  · exact ⟨_, rfl⟩

instance : Host (GameSession ρ) where
  locals g := (g.locals, fun l => { g with locals := l })
  global g name := (g.global name, g)
  setGlobal := setGlobal
  messageBox g text buttons := { g with messages := g.messages.push ⟨text, buttons⟩ }
  setControlEnabled g name enabled :=
    match Control.ofName? name with
    | some c => g.setEnabled c enabled
    | none => g
  controlEnabled g name := ((Control.ofName? name).elim true g.isEnabled, g)
  menuMode g := (g.menuMode, g)
  random := draw

end GameSession

end ScriptEngine
