import ScriptEngine.Number.Binary32

/-!
# Literals

The constants of a script, in one pool for each kind; code refers to them by position. Adding a value that its pool already
holds gives the position of the first occurrence, and any other value goes to the end, so positions once given out stay valid.
Floats are the same when their bits are.
-/

namespace ScriptEngine

/-- The position of a value in a pool, and the pool with the value in it. A value that is missing is not found before the end of
the pool, which is where it goes. -/
def intern {α : Type} [DecidableEq α] (pool : List α) (v : α) : Nat × List α :=
  let i := pool.idxOf v
  (i, if i < pool.length then pool else pool ++ [v])

/-- The position that interning gives holds the value. -/
theorem getElem?_intern {α : Type} [DecidableEq α] (pool : List α) (v : α) :
    (intern pool v).2[(intern pool v).1]? = some v := by
  unfold intern
  by_cases h : v ∈ pool
  · have hi := List.idxOf_lt_length_iff.mpr h
    simp [hi]
  · have hi : pool.idxOf v = pool.length := List.idxOf_eq_length h
    simp [hi]

/-- The constants of a script. -/
structure Literals where
  ints : List Int32 := []
  floats : List Binary32 := []
  strings : List String := []
  deriving DecidableEq, Repr, Inhabited

namespace Literals

/-- The position of an integer, adding it if it is missing. -/
def addInt (l : Literals) (v : Int32) : Nat × Literals :=
  let (i, ints) := intern l.ints v
  (i, { l with ints })

/-- The position of a float, adding it if it is missing. -/
def addFloat (l : Literals) (v : Binary32) : Nat × Literals :=
  let (i, floats) := intern l.floats v
  (i, { l with floats })

/-- The position of a string, adding it if it is missing. -/
def addString (l : Literals) (v : String) : Nat × Literals :=
  let (i, strings) := intern l.strings v
  (i, { l with strings })

/-- The integer at a position. -/
def int? (l : Literals) (i : Nat) : Option Int32 := l.ints[i]?

/-- The float at a position. -/
def float? (l : Literals) (i : Nat) : Option Binary32 := l.floats[i]?

/-- The string at a position. -/
def string? (l : Literals) (i : Nat) : Option String := l.strings[i]?

/-- The same pools, with numerically equal floats. -/
def agrees (a b : Literals) : Bool :=
  a.ints == b.ints && a.floats.length == b.floats.length &&
    (a.floats.zip b.floats).all (fun p => p.1.equal p.2) && a.strings == b.strings

end Literals

end ScriptEngine
