import ScriptEngine.Command.Perform
import ScriptEngine.Settings.Document

/-!
# The program

Reads the files that an invocation names, performs it, and writes what it left behind.
-/

namespace ScriptEngine.Command

/-- Why the system did not let a file be used. -/
def fileError : IO.Error → FileError
  | .inappropriateType _ code _ => if code = 21 ∨ code = -21 then .isFolder else .notFolder
  | .invalidArgument _ code _ => if code = 36 ∨ code = -36 then .nameTooLong else .notFound
  | _ => .notFound

/-- The bytes of a file. -/
def readBytes (name : String) : IO (Except FileError (List UInt8)) := do
  try
    return .ok (← IO.FS.readBinFile name).data.toList
  catch e => return .error (fileError e)

/-- Writes a file. A file that cannot be written is a failure of the command. -/
def writeBytes (name : String) (bytes : List UInt8) : IO UInt32 := do
  try
    IO.FS.writeBinFile name ⟨bytes.toArray⟩
    return 0
  catch e =>
    IO.eprint (Failure.writing name (fileError e)).report
    return 1

end ScriptEngine.Command

open ScriptEngine ScriptEngine.Command

/-- Performs the invocation that the arguments ask for. The places that it does not name count as folders while it is performed:
whether they are shows when the system is asked for the file behind them. -/
def main (args : List String) : IO UInt32 := do
  match Invocation.ofArgs? args with
  | none =>
    IO.eprintln "usage: [--config FILE] [--step-limit N] [--verbose] (list | asm IN -o OUT | disasm IN | run IN)"
    return 2
  | some i =>
    let names := i.settings?.toList ++ i.action.input?.toList
    let held ← names.mapM fun name => return (Place.ofName name, ← readBytes name)
    let output? := i.action.output?.map Place.ofName
    let files : Files := {
      contents := fun place => (held.lookup place).bind (·.toOption)
      isFolder := fun place =>
        match held.lookup place with
        | some (.ok _) => false
        | some (.error e) => e = .isFolder
        | none => output? != some place || place.names.isEmpty }
    let seed ← IO.rand 0 (2 ^ 62)
    match perform Settings.ofBytes? (2 ^ 62) (.new (mkStdGen seed)) i files with
    | none => return 1
    | some r =>
      IO.print r.stdout
      IO.eprint r.stderr
      if r.status = 0 then
        if let some name := i.action.output? then
          if let some bytes := r.files.contents (Place.ofName name) then
            return ← writeBytes name bytes
      return UInt32.ofNat r.status
