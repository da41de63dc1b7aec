import ScriptEngine.Command.Route

/-!
# Places

A place is where a file or a folder is, or could be. Each place has one form, however the routes to it are written.
-/

namespace ScriptEngine.Command

/-- Where a file or a folder is, or could be. -/
structure Place where
  /-- The place is given from the root, else from the current folder. -/
  fromRoot : Bool
  /-- How many folders to leave first. -/
  above : Nat
  /-- The names on the way from there. -/
  names : List (List Char)
  deriving DecidableEq, Repr

namespace Place

/-- The place where a route begins. -/
def start (r : Route) : Place := ⟨r.fromRoot, 0, []⟩

/-- The place after a step. The folder around the root is the root. -/
def after (p : Place) : Step → Place
  | .stay => p
  | .enter name => { p with names := p.names ++ [name] }
  | .up =>
    if p.names ≠ [] then { p with names := p.names.dropLast }
    else if p.fromRoot then p
    else { p with above := p.above + 1 }

/-- The most bytes that the name of a file in its folder can have. -/
def maxNameBytes : Nat := 255

-- The sum is that of the core library, also where the zero of an algebraic structure could be meant.
attribute [local instance (20000)] Zero.ofOfNat0

/-- There can be a file or a folder at a place: its name there is not too long. -/
def isNameable (p : Place) : Bool := p.names.getLast?.all fun name => (name.map Char.utf8Size).sum ≤ maxNameBytes

/-- The place that a name leads to if all its steps can be taken. -/
def ofName (name : String) : Place :=
  let r := Route.ofName name
  r.steps.foldl after (start r)

end Place

end ScriptEngine.Command
