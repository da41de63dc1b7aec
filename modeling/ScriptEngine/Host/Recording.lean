import ScriptEngine.Host.Basic

/-!
# Recording hosts

Any host can be made to keep a record of the calls it receives, the latest call last. Only access to the local variables is not
recorded. Recording changes nothing else: every call is passed on and its answer handed back.
-/

namespace ScriptEngine

/-- A call to a host, with its arguments. -/
inductive HostCall where
  | global (name : String)
  | setGlobal (name : String) (value : Cell)
  | messageBox (text : String) (buttons : List String)
  | setControlEnabled (name : String) (enabled : Bool)
  | controlEnabled (name : String)
  | menuMode
  | random (limit : Int32)
  deriving DecidableEq, Repr

/-- A host together with the calls it has received. -/
structure Recording (σ : Type) where
  host : σ
  calls : Array HostCall := #[]
  deriving Repr

namespace Recording

variable {σ : Type}

/-- One more call, after which the host is in a new state. -/
def push (r : Recording σ) (c : HostCall) (host : σ) : Recording σ := ⟨host, r.calls.push c⟩

instance [Host σ] : Host (Recording σ) where
  locals r :=
    let (l, put) := Host.locals r.host
    (l, fun l => { r with host := put l })
  global r name :=
    let (v, h) := Host.global r.host name
    (v, r.push (.global name) h)
  setGlobal r name v := r.push (.setGlobal name v) (Host.setGlobal r.host name v)
  messageBox r text buttons := r.push (.messageBox text buttons) (Host.messageBox r.host text buttons)
  setControlEnabled r name enabled :=
    r.push (.setControlEnabled name enabled) (Host.setControlEnabled r.host name enabled)
  controlEnabled r name :=
    let (b, h) := Host.controlEnabled r.host name
    (b, r.push (.controlEnabled name) h)
  menuMode r :=
    let (b, h) := Host.menuMode r.host
    (b, r.push .menuMode h)
  random r limit :=
    let (v, h) := Host.random r.host limit
    (v, r.push (.random limit) h)

end Recording

end ScriptEngine
