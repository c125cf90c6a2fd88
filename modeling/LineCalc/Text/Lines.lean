/-
  LineCalc/Text/Lines.lean
  ========================
  **The lines of a text.**  A line ends with a line feed, or with a carriage
  return and a line feed; neither belongs to it.  What follows the last line end
  is one more line unless it is empty.  A carriage return that no line feed
  follows is a character of its line.
-/
namespace LineCalc.Text

/-- The lines of a list of characters, without their line ends. -/
def splitLines : List Char → List (List Char)
  | [] => []
  | '\n' :: cs => [] :: splitLines cs
  | '\r' :: '\n' :: cs => [] :: splitLines cs
  | c :: cs =>
    match splitLines cs with
    | [] => [[c]]
    | line :: rest => (c :: line) :: rest

/-- The lines of a text. -/
def lines (text : String) : List String := (splitLines text.toList).map String.ofList

end LineCalc.Text
