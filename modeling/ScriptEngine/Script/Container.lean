import ScriptEngine.Script.Basic

/-!
# The container of a compiled script

A script is stored as a sequence of bytes: a header of four words (the numbers of code words, integers and floats, and the
length of the string section in bytes), the code, the integers, the floats, and the strings. Words are little-endian. A string
is its UTF-8 text, a NUL, and as many further NULs as bring it to a multiple of four bytes.

Reading takes what the header announces and ignores what follows. Padding bytes may have any value, and the last string may
lack padding.
-/

namespace ScriptEngine

/-- The parts of a container, in order. -/
inductive Section where
  | header | code | ints | floats | strings
  deriving DecidableEq, Repr, Inhabited

namespace Section

/-- The name of a part in messages. -/
def name : Section → String
  | header => "header"
  | code => "code"
  | ints => "integer literals"
  | floats => "float literals"
  | strings => "string literals"

end Section

/-- Why a script could not be stored or read. Strings are named by their position. -/
inductive ContainerError where
  /-- A part needs more bytes than are left. -/
  | truncated (part : Section) (needed available : Nat)
  /-- No NUL follows the beginning of a string. -/
  | unterminatedString (index : Nat)
  /-- The bytes of a string are not UTF-8. -/
  | invalidString (index : Nat)
  /-- A string holds a NUL and could not be told from its end. -/
  | nulInString (index : Nat)
  deriving DecidableEq, Repr

namespace ContainerError

/-- The text of an error. -/
def message : ContainerError → String
  | truncated part needed available =>
    s!"script is truncated: {part.name} needs {needed} bytes, {available} left"
  | unterminatedString index => s!"string literal #{index} is not terminated"
  | invalidString index => s!"string literal #{index} is not valid UTF-8"
  | nulInString index => s!"string literal #{index} contains a NUL byte"

end ContainerError

namespace Container

/-- The bytes of a word, the lowest first. -/
def wordBytes (w : UInt32) : List UInt8 :=
  [UInt8.ofNat w.toNat, UInt8.ofNat (w.toNat / 2 ^ 8), UInt8.ofNat (w.toNat / 2 ^ 16), UInt8.ofNat (w.toNat / 2 ^ 24)]

/-- The word of four bytes, the lowest first. -/
def wordOfBytes (b0 b1 b2 b3 : UInt8) : UInt32 :=
  UInt32.ofNat (b0.toNat + b1.toNat * 2 ^ 8 + b2.toNat * 2 ^ 16 + b3.toNat * 2 ^ 24)

/-- A length rounded up to a multiple of four. -/
def padded (n : Nat) : Nat := (n + 3) / 4 * 4

/-- The UTF-8 text of a string. -/
def textBytes (s : String) : List UInt8 := s.toUTF8.data.toList

/-- A string in the string section. -/
def stringBytes (s : String) : List UInt8 :=
  let text := textBytes s
  text ++ List.replicate (padded (text.length + 1) - text.length) 0

/-- The string section. -/
def stringSection (strings : List String) : List UInt8 := strings.flatMap stringBytes

-- The sum is that of the core library, also where the zero of an algebraic structure could be meant.
attribute [local instance (20000)] Zero.ofOfNat0

/-- The length of the string section in bytes. -/
def stringSectionSize (strings : List String) : Nat := (strings.map fun s => padded (s.utf8ByteSize + 1)).sum

/-- The position of the first string with a NUL in it. -/
def nulPosition? (strings : List String) : Option Nat :=
  strings.findIdx? fun s => s.toList.contains '\x00'

/-- The first `n` words of a byte sequence that has as many, and the bytes after them. -/
def takeWords : Nat → List UInt8 → List UInt32 × List UInt8
  | n + 1, b0 :: b1 :: b2 :: b3 :: rest =>
    let (ws, rest) := takeWords n rest
    (wordOfBytes b0 b1 b2 b3 :: ws, rest)
  | _, rest => ([], rest)

/-- The words of one part, if the part is complete. -/
def wordsOf (part : Section) (count : Nat) (bytes : List UInt8) : Except ContainerError (List UInt32 × List UInt8) :=
  if bytes.length < count * 4 then .error (.truncated part (count * 4) bytes.length) else .ok (takeWords count bytes)

/-- The strings of a string section, the first of them being at position `index`. -/
def stringsFrom (index : Nat) : List UInt8 → Except ContainerError (List String)
  | [] => .ok []
  | b :: bs =>
    let bytes := b :: bs
    let text := bytes.takeWhile (· != 0)
    if text.length = bytes.length then .error (.unterminatedString index)
    else
      match String.fromUTF8? ⟨text.toArray⟩ with
      | none => .error (.invalidString index)
      | some s => (s :: ·) <$> stringsFrom (index + 1) (bytes.drop (padded (text.length + 1)))
termination_by bytes => bytes.length
decreasing_by
  simp only [List.length_drop, List.length_cons, padded]
  omega

end Container

namespace Script

open Container

/-- The words of the header. A count is stored in 32 bits, and only its low bits are kept. -/
def header (s : Script) : List UInt32 :=
  [UInt32.ofNat s.code.size, UInt32.ofNat s.literals.ints.length, UInt32.ofNat s.literals.floats.length,
    UInt32.ofNat (stringSectionSize s.literals.strings)]

/-- The words of a container: the header and the sections that consist of words. -/
def words (s : Script) : List UInt32 :=
  s.header ++ s.code.toList ++ s.literals.ints.map (·.toUInt32) ++ s.literals.floats.map (·.bits)

/-- Stores a script behind what was written before, and says what went wrong. Nothing is written when a string holds a NUL. -/
def writeTo (s : Script) (written : List UInt8) : Except ContainerError Unit × List UInt8 :=
  match nulPosition? s.literals.strings with
  | some index => (.error (.nulInString index), written)
  | none => (.ok (), written ++ (s.words.flatMap wordBytes ++ stringSection s.literals.strings))

/-- The container of a script. -/
def toBytes (s : Script) : Except ContainerError (List UInt8) :=
  let (result, bytes) := s.writeTo []
  result.map fun _ => bytes

/-- The script in a container. Each part has to be complete before it is read. -/
def ofBytes (bytes : List UInt8) : Except ContainerError Script := do
  let (counts, rest) ← wordsOf .header 4 bytes
  let count (i : Nat) : Nat := (counts.getD i 0).toNat
  let (code, rest) ← wordsOf .code (count 0) rest
  let (ints, rest) ← wordsOf .ints (count 1) rest
  let (floats, rest) ← wordsOf .floats (count 2) rest
  if rest.length < count 3 then .error (.truncated .strings (count 3) rest.length)
  let strings ← stringsFrom 0 (rest.take (count 3))
  return { code := code.toArray, literals := { ints := ints.map (·.toInt32), floats := floats.map (⟨·⟩), strings } }

end Script

end ScriptEngine
