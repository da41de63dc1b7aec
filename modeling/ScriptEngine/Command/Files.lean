import ScriptEngine.Command.Place

/-!
# Files

The files that a command works on, each at its place. Two names that lead to one place name one file. A step can only be taken in a
folder, so a name that goes through a file or through nothing leads nowhere, even if its later steps would come back.
-/

namespace ScriptEngine.Command

/-- The files and folders that a command may reach. -/
structure Files where
  /-- The bytes of the file at a place, if there is a file. -/
  contents : Place → Option (List UInt8)
  /-- The places of the folders. -/
  isFolder : Place → Bool

/-- Why a file could not be used. -/
inductive FileError where
  /-- There is no such file, or no such folder on the way to it. -/
  | notFound
  /-- A file is where the name asks for a folder. -/
  | notFolder
  /-- A folder is where the file should be. -/
  | isFolder
  /-- No file can have the name. -/
  | nameTooLong
  /-- The bytes of a text are not UTF-8. -/
  | notUtf8
  deriving DecidableEq, Repr

namespace FileError

/-- The text of an error. -/
def message : FileError → String
  | notFound => "No such file or directory (os error 2)"
  | notFolder => "Not a directory (os error 20)"
  | isFolder => "Is a directory (os error 21)"
  | nameTooLong => "File name too long (os error 36)"
  | notUtf8 => "stream did not contain valid UTF-8"

end FileError

namespace Files

/-- The files of a folder without folders in it, by their names. Of two with one name the later counts. The only folders are this
one and those above it. -/
def ofFolder (held : List (String × List UInt8)) : Files where
  contents := fun place => (held.reverse.find? fun file => Place.ofName file.1 = place).map (·.2)
  isFolder := fun place => place.names.isEmpty

/-- Why there is no file and no folder at a place. -/
def absence (place : Place) : FileError := if place.isNameable then .notFound else .nameTooLong

/-- The place that steps lead to. What the last step leads to need not be there. -/
def walk (f : Files) : Place → List Step → Except FileError Place
  | place, [] => .ok place
  | place, step :: steps =>
    if f.isFolder place then f.walk (place.after step) steps
    else .error (if (f.contents place).isSome then .notFolder else absence place)

/-- The place that a name leads to. -/
def locate (f : Files) (name : String) : Except FileError Place :=
  let r := Route.ofName name
  if name.utf8ByteSize ≤ Route.maxBytes then f.walk (.start r) r.steps else .error .nameTooLong

/-- The bytes of a file. -/
def read (f : Files) (name : String) : Except FileError (List UInt8) := do
  let place ← f.locate name
  if f.isFolder place then .error .isFolder
  else
    match f.contents place with
    | none => .error (absence place)
    | some bytes => if (Route.ofName name).asksFolder then .error .notFolder else .ok bytes

/-- The text of a file. -/
def readText (f : Files) (name : String) : Except FileError String := do
  let bytes ← f.read name
  match String.fromUTF8? ⟨bytes.toArray⟩ with
  | some s => .ok s
  | none => .error .notUtf8

/-- The files after one of them was written. A file that is not there yet comes to be; a folder does not. -/
def write (f : Files) (name : String) (bytes : List UInt8) : Except FileError Files := do
  let place ← f.locate name
  if f.isFolder place || (Route.ofName name).asksFolder then .error .isFolder
  else if !place.isNameable then .error .nameTooLong
  else .ok { f with contents := fun p => if p = place then some bytes else f.contents p }

end Files

end ScriptEngine.Command
