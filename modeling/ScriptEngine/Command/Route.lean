/-!
# Routes

A file name is a route through folders: the parts between its slashes are steps, taken from the root if the name begins with a slash
and from the current folder if it does not. Slashes in a row count as one. A slash at the end asks for a folder there.
-/

namespace ScriptEngine.Command

/-- A step of a route, taken in a folder. -/
inductive Step where
  /-- To the same folder. -/
  | stay
  /-- To the folder around it. -/
  | up
  /-- To what has the name in it. -/
  | enter (name : List Char)
  deriving DecidableEq, Repr

/-- What a file name says. -/
structure Route where
  /-- The route begins at the root. -/
  fromRoot : Bool
  steps : List Step
  /-- The name ends with a slash. -/
  asksFolder : Bool
  deriving DecidableEq, Repr

/-- The parts of a name, between its slashes. -/
def nameParts : List Char → List (List Char)
  | [] => [[]]
  | c :: cs =>
    if c = '/' then [] :: nameParts cs
    else
      match nameParts cs with
      | [] => [[c]]
      | p :: ps => (c :: p) :: ps

/-- The step that a part of a name stands for. -/
def Step.ofPart : List Char → Step
  | ['.'] => stay
  | ['.', '.'] => up
  | name => enter name

namespace Route

/-- The most bytes that a name with all its steps can have. -/
def maxBytes : Nat := 4095

/-- The route that a name stands for. -/
def ofName (name : String) : Route where
  fromRoot := name.toList.head? == some '/'
  steps := ((nameParts name.toList).filter (· != [])).map Step.ofPart
  asksFolder := name.toList.getLast? == some '/'

/-- What follows the last point of the name that the route ends with, unless that point is the first character there. -/
def extension? (r : Route) : Option String :=
  match (r.steps.filter (· != .stay)).getLast? with
  | some (.enter name) =>
    let reversed := name.reverse
    let ext := reversed.takeWhile (· != '.')
    if ext.length + 1 < reversed.length then some (String.ofList ext.reverse) else none
  | _ => none

end Route

end ScriptEngine.Command
