import ScriptEngine.Engine.Extension

/-!
# Player controls

A script may lock single player controls. For each control there is an instruction that enables it, one that disables it, and a
function that tells whether it is disabled. The three families have a contiguous range of opcodes each, in the order of the
controls.
-/

namespace ScriptEngine

/-- The controls that a script may lock. -/
inductive Control where
  | playerControls | playerFighting | playerJumping | playerLooking | playerMagic | playerViewSwitch | vanityMode
  deriving DecidableEq, Repr, Inhabited

namespace Control

/-- The controls in the order of their opcodes. -/
def all : List Control :=
  [playerControls, playerFighting, playerJumping, playerLooking, playerMagic, playerViewSwitch, vanityMode]

/-- The name of a control, as hosts and mnemonics use it. -/
def name : Control → String
  | playerControls => "playercontrols"
  | playerFighting => "playerfighting"
  | playerJumping => "playerjumping"
  | playerLooking => "playerlooking"
  | playerMagic => "playermagic"
  | playerViewSwitch => "playerviewswitch"
  | vanityMode => "vanitymode"

/-- The control of exactly that name. -/
def ofName? (s : String) : Option Control := all.find? (·.name = s)

/-- The first opcode value of the instructions that enable a control. -/
def enableBase : Nat := 0x200007e

/-- The first opcode value of the instructions that disable a control. -/
def disableBase : Nat := 0x2000085

/-- The first opcode value of the functions that tell whether a control is disabled. -/
def getDisabledBase : Nat := 0x2000160

/-- The opcode of a control in the family that begins at `base`. -/
def opcodeFrom (base : Nat) (c : Control) : Opcode := ⟨.five, base + all.idxOf c⟩

/-- The range of the family that begins at `base`. -/
def family (group : String) (base : Nat) : Registration := .reserve ⟨group, .five, base, all.length, .extension⟩

/-- The registration of the three instructions of a control. -/
def registrations (c : Control) : List Registration :=
  [.instruction ("enable" ++ c.name) "" (c.opcodeFrom enableBase),
    .instruction ("disable" ++ c.name) "" (c.opcodeFrom disableBase),
    .function ("get" ++ c.name ++ "disabled") 'l' "" (c.opcodeFrom getDisabledBase)]

variable {σ : Type} [Host σ]

/-- Enables or disables a control. -/
def set (c : Control) (enabled : Bool) (m : Machine σ) : Machine σ :=
  { m with host := Host.setControlEnabled m.host c.name enabled }

/-- Stack `..` to `.. disabled`. -/
def getDisabled (c : Control) (m : Machine σ) : Machine σ :=
  let (enabled, host) := Host.controlEnabled m.host c.name
  { m with host }.push (.ofBool !enabled)

/-- The handlers of the three instructions of a control. -/
def handlers (c : Control) : List (Opcode × Handler σ) :=
  [(c.opcodeFrom enableBase, .nullary fun _ m => c.set true m),
    (c.opcodeFrom disableBase, .nullary fun _ m => c.set false m),
    (c.opcodeFrom getDisabledBase, .nullary fun _ m => c.getDisabled m)]

/-- The extension that lets scripts lock player controls. -/
def extension : Extension σ where
  name := "control"
  registrations :=
    [family "control.enable" enableBase, family "control.disable" disableBase,
      family "control.getdisabled" getDisabledBase] ++ all.flatMap registrations
  handlers := all.flatMap handlers

end Control

end ScriptEngine
