import ScriptEngine.Text.EscapedRanges
import ScriptEngine.Text.Numeral

/-!
# Quoted texts

Diagnostics and program output show a text between quotes, with the characters escaped that would not be visible or would be
mistaken for the closing quote. A text stands between double quotes and escapes the double quote; a single character stands
between single quotes and escapes the single quote.
-/

namespace ScriptEngine.Text

/-- A character that is shown by its number. -/
def isEscaped (c : Char) : Bool :=
  escapedRanges.any fun r => r.1 ≤ c.toNat && c.toNat ≤ r.2

/-- One character inside the given quotes. -/
def quotedChar (quote c : Char) : List Char :=
  if c = quote ∨ c = '\\' then ['\\', c]
  else if c = '\x00' then ['\\', '0']
  else if c = '\t' then ['\\', 't']
  else if c = '\n' then ['\\', 'n']
  else if c = '\r' then ['\\', 'r']
  else if ' ' ≤ c ∧ c ≤ '~' then [c]
  else if isEscaped c then s!"\\u\x7b{hex c.toNat}\x7d".toList
  else [c]

/-- A text between double quotes. -/
def quote (s : String) : String :=
  String.ofList ('"' :: s.toList.flatMap (quotedChar '"') ++ ['"'])

/-- A character between single quotes. -/
def quoteChar (c : Char) : String :=
  String.ofList ('\'' :: quotedChar '\'' c ++ ['\''])

/-- A list of texts, each quoted, between square brackets. -/
def quoteList (ss : List String) : String :=
  "[" ++ ", ".intercalate (ss.map quote) ++ "]"

end ScriptEngine.Text
