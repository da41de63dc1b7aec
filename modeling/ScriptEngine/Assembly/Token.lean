import ScriptEngine.Text.Blank

/-!
# Tokens of a source line

A token is a run of characters other than blanks, commas and semicolons, in which a part between double quotes may hold any
characters. Blanks and commas separate tokens, and a semicolon outside quotes begins a comment that reaches to the end of the
line. A line that ends inside quotes has no tokens; what was read of its last token is the error.
-/

namespace ScriptEngine.Assembly

/-- A blank or a comma. -/
def isSeparator (c : Char) : Bool := Text.isBlank c || c == ','

/-- Finishes the token whose characters were read so far, the latest first; no characters are no token. -/
def finish (read : List Char) : List (List Char) := if read.isEmpty then [] else [read.reverse]

/-- The tokens of what is left of a line, after some characters of a token have been read; `quoted` says whether the line stands
between quotes there. -/
def tokensFrom (quoted : Bool) (read : List Char) : List Char → Except (List Char) (List (List Char))
  | [] => if quoted then .error read.reverse else .ok (finish read)
  | c :: cs =>
    if c = '"' then tokensFrom (!quoted) (c :: read) cs
    else if quoted then tokensFrom true (c :: read) cs
    else if c = ';' then .ok (finish read)
    else if isSeparator c then (finish read ++ ·) <$> tokensFrom false [] cs
    else tokensFrom false (c :: read) cs

/-- The tokens of a line. -/
def tokens (line : List Char) : Except (List Char) (List (List Char)) := tokensFrom false [] line

end ScriptEngine.Assembly
