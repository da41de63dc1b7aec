import ScriptEngine.Text.Numeral

/-!
# JSON documents

A strict reader of JSON documents, from bytes. It checks the form of the whole document, but it does not decode strings: a
string is kept as a sequence of bytes and code units, and `Json.text?` decodes it where its text is needed. So a string that is
only passed over may hold bytes that are not UTF-8, and halves of surrogate pairs. Numbers are kept as they are written.
-/

namespace ScriptEngine

/-- A part of a string as written: a byte that stands for itself, or a code unit of UTF-16 given by its number. -/
inductive JsonPiece where
  | byte (b : UInt8)
  | unit (u : Nat)
  deriving DecidableEq, Repr

/-- A JSON value. Strings and numbers are kept as written; the fields of an object are in order, and a name may occur twice. -/
inductive Json where
  | null
  | bool (b : Bool)
  | number (written : List UInt8)
  | string (pieces : List JsonPiece)
  | array (items : List Json)
  | object (fields : List (List JsonPiece × Json))
  deriving Repr, Inhabited

namespace Json

/-- The byte of an ASCII character. -/
def ascii (c : Char) : UInt8 := UInt8.ofNat c.toNat

/-- A blank of the JSON grammar. -/
def isBlank (b : UInt8) : Bool := b == ascii ' ' || b == ascii '\n' || b == ascii '\t' || b == ascii '\r'

/-- What follows the blanks at the beginning. -/
def skipBlanks (bs : List UInt8) : List UInt8 := bs.dropWhile isBlank

/-- A decimal digit. -/
def isDigit (b : UInt8) : Bool := ascii '0' ≤ b && b ≤ ascii '9'

/-- What follows a word at the beginning, if the word is there. -/
def after? (word : String) (bs : List UInt8) : Option (List UInt8) :=
  let w := word.toList.map ascii
  if w.isPrefixOf bs then some (bs.drop w.length) else none

/-- The byte that a short escape stands for. -/
def escape? (b : UInt8) : Option UInt8 :=
  if b = ascii '"' ∨ b = ascii '\\' ∨ b = ascii '/' then some b
  else if b = ascii 'b' then some 8
  else if b = ascii 'f' then some 12
  else if b = ascii 'n' then some 10
  else if b = ascii 'r' then some 13
  else if b = ascii 't' then some 9
  else none

/-- The number that four hexadecimal digits write. -/
def unit? (a b c d : UInt8) : Option Nat := Text.digits? 16 ([a, b, c, d].map fun x => Char.ofNat x.toNat)

/-- The rest of a string after its opening quote, and what follows the closing one. Control characters have to be escaped. -/
def stringBody : List UInt8 → Option (List JsonPiece × List UInt8)
  | [] => none
  | b :: bs =>
    if b = ascii '"' then some ([], bs)
    else if b < 0x20 then none
    else if b ≠ ascii '\\' then (stringBody bs).map fun (ps, r) => (.byte b :: ps, r)
    else
      match bs with
      | [] => none
      | e :: bs =>
        match escape? e with
        | some b => (stringBody bs).map fun (ps, r) => (.byte b :: ps, r)
        | none =>
          if e = ascii 'u' then
            match bs with
            | h0 :: h1 :: h2 :: h3 :: bs =>
              match unit? h0 h1 h2 h3 with
              | some u => (stringBody bs).map fun (ps, r) => (.unit u :: ps, r)
              | none => none
            | _ => none
          else none

/-- One digit or more, and what follows them. -/
def digits? (bs : List UInt8) : Option (List UInt8 × List UInt8) :=
  let ds := bs.takeWhile isDigit
  if ds.isEmpty then none else some (ds, bs.dropWhile isDigit)

/-- An optional part of a number that begins with `mark`: the mark, a sign where `signs` allows one, and digits. -/
def numberPart (mark : UInt8 → Bool) (signs : Bool) : List UInt8 → Option (List UInt8 × List UInt8)
  | [] => some ([], [])
  | b :: bs =>
    if mark b then
      let (sign, rest) :=
        match bs with
        | s :: rest => if signs ∧ (s = ascii '+' ∨ s = ascii '-') then ([s], rest) else ([], bs)
        | [] => ([], bs)
      (digits? rest).map fun (ds, r) => (b :: sign ++ ds, r)
    else some ([], b :: bs)

/-- The number at the beginning, and what follows it. A leading zero stands alone before the point. -/
def number? (bs : List UInt8) : Option (List UInt8 × List UInt8) := do
  let (sign, bs) :=
    match bs with
    | b :: rest => if b = ascii '-' then ([b], rest) else ([], bs)
    | [] => ([], bs)
  let (whole, bs) ← digits? bs
  if whole.head? = some (ascii '0') ∧ whole.length ≠ 1 then none
  let (fraction, bs) ← numberPart (· == ascii '.') false bs
  let (exponent, bs) ← numberPart (fun b => b == ascii 'e' || b == ascii 'E') true bs
  return (sign ++ whole ++ fraction ++ exponent, bs)

mutual

/-- The value at the beginning, and what follows it. -/
def value : Nat → List UInt8 → Option (Json × List UInt8)
  | 0, _ => none
  | fuel + 1, bs =>
    match skipBlanks bs with
    | [] => none
    | b :: rest =>
      if b = ascii '"' then (stringBody rest).map fun (ps, r) => (.string ps, r)
      else if b = ascii '[' then
        match skipBlanks rest with
        | c :: r => if c = ascii ']' then some (.array [], r) else (items fuel rest).map fun (vs, r) => (.array vs, r)
        | [] => none
      else if b = ascii '\x7b' then
        match skipBlanks rest with
        | c :: r => if c = ascii '\x7d' then some (.object [], r) else (fields fuel rest).map fun (fs, r) => (.object fs, r)
        | [] => none
      else if b = ascii 't' then (after? "rue" rest).map fun r => (.bool true, r)
      else if b = ascii 'f' then (after? "alse" rest).map fun r => (.bool false, r)
      else if b = ascii 'n' then (after? "ull" rest).map fun r => (.null, r)
      else (number? (b :: rest)).map fun (n, r) => (.number n, r)

/-- The values of an array up to its closing bracket, of which there is at least one. -/
def items : Nat → List UInt8 → Option (List Json × List UInt8)
  | 0, _ => none
  | fuel + 1, bs => do
    let (v, rest) ← value fuel bs
    match skipBlanks rest with
    | b :: rest =>
      if b = ascii ',' then (items fuel rest).map fun (vs, r) => (v :: vs, r)
      else if b = ascii ']' then some ([v], rest)
      else none
    | [] => none

/-- The fields of an object up to its closing brace, of which there is at least one. -/
def fields : Nat → List UInt8 → Option (List (List JsonPiece × Json) × List UInt8)
  | 0, _ => none
  | fuel + 1, bs => do
    let rest ← after? "\"" (skipBlanks bs)
    let (name, rest) ← stringBody rest
    let rest ← after? ":" (skipBlanks rest)
    let (v, rest) ← value fuel rest
    match skipBlanks rest with
    | b :: rest =>
      if b = ascii ',' then (fields fuel rest).map fun (fs, r) => ((name, v) :: fs, r)
      else if b = ascii '\x7d' then some ([(name, v)], rest)
      else none
    | [] => none

end

/-- The value that a document consists of: nothing but blanks may follow it. A call consumes a byte or hands over to one that
does, so twice the length of the document is enough for all of them. -/
def ofBytes? (bs : List UInt8) : Option Json :=
  match value (2 * bs.length + 2) bs with
  | some (v, rest) => if (skipBlanks rest).isEmpty then some v else none
  | none => none

/-- The UTF-8 bytes of a code point. -/
def codePointBytes (n : Nat) : List UInt8 := (String.singleton (Char.ofNat n)).toUTF8.data.toList

/-- The UTF-8 bytes of a string. A code unit of the upper surrogates has to be followed by one of the lower surrogates, and one
of the lower ones has to follow such. -/
def pieceBytes? : List JsonPiece → Option (List UInt8)
  | [] => some []
  | .byte b :: ps => (pieceBytes? ps).map (b :: ·)
  | .unit u :: ps =>
    if u < 0xd800 ∨ 0xdfff < u then (pieceBytes? ps).map (codePointBytes u ++ ·)
    else
      match ps with
      | .unit v :: ps =>
        if u < 0xdc00 ∧ 0xdc00 ≤ v ∧ v ≤ 0xdfff then
          (pieceBytes? ps).map (codePointBytes (0x10000 + (u - 0xd800) * 0x400 + (v - 0xdc00)) ++ ·)
        else none
      | _ => none

/-- The text of a string, which has to be UTF-8. -/
def text? (ps : List JsonPiece) : Option String :=
  (pieceBytes? ps).bind fun bs => String.fromUTF8? ⟨bs.toArray⟩

/-- The natural number that a number writes, without sign, point or exponent. -/
def natural? (written : List UInt8) : Option Nat := Text.digits? 10 (written.map fun b => Char.ofNat b.toNat)

end Json

end ScriptEngine
