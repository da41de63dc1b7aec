import ScriptEngine.Machine.Basic

/-!
# Handlers

A handler is the behaviour of one opcode: what it does to the machine, given the literals of the script and as many inline
arguments as the words of its segment carry.
-/

namespace ScriptEngine

/-- The behaviour of one opcode, by the number of inline arguments it takes. -/
inductive Handler (σ : Type) where
  | nullary (run : Literals → Machine σ → Machine σ)
  | unary (run : Nat → Literals → Machine σ → Machine σ)
  | binary (run : Nat → Nat → Literals → Machine σ → Machine σ)

namespace Handler

variable {σ : Type}

/-- How many inline arguments a handler takes. -/
def arity : Handler σ → Nat
  | nullary _ => 0
  | unary _ => 1
  | binary _ => 2

/-- What a handler does when it is given both arguments of an instruction: it takes those it needs. -/
def apply : Handler σ → Nat → Nat → Literals → Machine σ → Machine σ
  | nullary run, _, _ => run
  | unary run, arg0, _ => run arg0
  | binary run, arg0, arg1 => run arg0 arg1

end Handler

end ScriptEngine
