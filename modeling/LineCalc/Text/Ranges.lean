/-
  LineCalc/Text/Ranges.lean
  =========================
  **Character classes as tables.**  A class is a list of code point ranges, both
  ends included, in ascending order; a search stops at the first range that
  starts beyond the character.
-/
namespace LineCalc.Text

/-- Whether a code point lies in one of the ascending ranges. -/
def inRanges (n : Nat) : List (Nat × Nat) → Bool
  | [] => false
  | (first, last) :: ranges => first ≤ n && (n ≤ last || inRanges n ranges)

end LineCalc.Text
