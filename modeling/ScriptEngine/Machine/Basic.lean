import ScriptEngine.Host.Basic
import ScriptEngine.Script.Literals

/-!
# The machine

The state of one run: an operand stack, the address of the next word, whether the script has returned, and the host. While a
handler runs, the address is already one past its own word.

Reading an empty stack gives zero, and overwriting a cell that is not there does nothing. Addresses have 64 bits.
-/

namespace ScriptEngine

/-- The state of one run. The top of the stack is the head of the list. -/
structure Machine (σ : Type) where
  stack : List Cell := []
  pc : Nat := 0
  halted : Bool := false
  host : σ
  deriving Repr

namespace Literals

/-- The string that a cell names by its position. A cell that names no string stands for the empty one. -/
def textAt (l : Literals) (c : Cell) : String := (c.index?.bind l.string?).getD ""

end Literals

namespace Machine

variable {σ : Type}

/-- The number of addresses. -/
def addressCount : Nat := 2 ^ 64

/-- The state in which a run begins. -/
def start (host : σ) : Machine σ := { host }

/-- Puts a cell on the stack. -/
def push (m : Machine σ) (c : Cell) : Machine σ := { m with stack := c :: m.stack }

/-- Puts an integer on the stack. -/
def pushInt (m : Machine σ) (n : Int32) : Machine σ := m.push (.ofInt n)

/-- The cell some way below the top. -/
def peek (m : Machine σ) (depth : Nat) : Cell := (m.stack[depth]?).getD .zero

/-- The cell on top. -/
def top (m : Machine σ) : Cell := m.stack.headD .zero

/-- The state without the cell on top. -/
def drop (m : Machine σ) : Machine σ := { m with stack := m.stack.tail }

/-- Takes the cell on top off the stack. -/
def pop (m : Machine σ) : Cell × Machine σ := (m.top, m.drop)

/-- Overwrites the cell some way below the top. -/
def replace (m : Machine σ) (depth : Nat) (c : Cell) : Machine σ := { m with stack := m.stack.set depth c }

/-- Overwrites the cell on top with a function of it. -/
def mapTop (m : Machine σ) (f : Cell → Cell) : Machine σ := m.replace 0 (f m.top)

/-- Takes the right operand off the stack and overwrites the left one, which lies below it, with the result. -/
def combine (m : Machine σ) (f : Cell → Cell → Cell) : Machine σ :=
  let (right, m) := m.pop
  m.mapTop (f · right)

/-- Ends the run after the current word. -/
def halt (m : Machine σ) : Machine σ := { m with halted := true }

/-- Continues at an address. -/
def goto (m : Machine σ) (pc : Nat) : Machine σ := { m with pc }

/-- Passes over the next word. -/
def skip (m : Machine σ) : Machine σ := m.goto ((m.pc + 1) % addressCount)

/-- The address of the word that is being executed. -/
def own (m : Machine σ) : Nat := m.pc - 1

/-- Continues some way after the word that is being executed, at the last address at most. -/
def forward (m : Machine σ) (distance : Nat) : Machine σ := m.goto (min (m.own + distance) (addressCount - 1))

/-- Continues some way before the word that is being executed, at the first address at least. -/
def backward (m : Machine σ) (distance : Nat) : Machine σ := m.goto (m.own - distance)

/-- Takes `n` cells off the stack and puts the strings they name in front of `after`: the topmost cell names the last string. -/
def popTexts (l : Literals) (m : Machine σ) : Nat → List String → List String × Machine σ
  | 0, after => (after, m)
  | n + 1, after =>
    let (c, m) := m.pop
    m.popTexts l n (l.textAt c :: after)

end Machine

end ScriptEngine
