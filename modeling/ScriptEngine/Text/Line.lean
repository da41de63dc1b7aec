/-!
# Lines

A text is a sequence of lines. A line feed ends a line, together with the one carriage return right before it if there is one;
what follows the last line feed is a line of its own unless it is empty. A carriage return anywhere else is part of its line.
-/

namespace ScriptEngine.Text

/-- The lines of a text, without their ends. -/
def lines : List Char → List (List Char)
  | [] => []
  | '\n' :: cs => [] :: lines cs
  | '\r' :: '\n' :: cs => [] :: lines cs
  | c :: cs =>
    match lines cs with
    | [] => [[c]]
    | l :: ls => (c :: l) :: ls

end ScriptEngine.Text
