/-
  LineCalc/Text/Blank.lean
  ========================
  **Blank lines.**  A line is blank when it holds nothing but white space, and
  white space is the property White_Space of Unicode: twenty-five characters,
  the space and the usual controls among them.
-/
import LineCalc.Text.Ranges

namespace LineCalc.Text

def whiteSpaceRanges : List (Nat × Nat) :=
  [(0x9, 0xd), (0x20, 0x20), (0x85, 0x85), (0xa0, 0xa0), (0x1680, 0x1680), (0x2000, 0x200a),
    (0x2028, 0x2029), (0x202f, 0x202f), (0x205f, 0x205f), (0x3000, 0x3000)]

def isWhiteSpace (c : Char) : Bool := inRanges c.toNat whiteSpaceRanges

/-- Nothing but white space. -/
def isBlank (line : String) : Bool := line.toList.all isWhiteSpace

/-- A line without the white space around it. -/
def trim (line : String) : String :=
  String.ofList ((line.toList.dropWhile isWhiteSpace).reverse.dropWhile isWhiteSpace).reverse

end LineCalc.Text
