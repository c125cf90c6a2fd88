/-
  LineCalc/Decimal/Plain.lean
  ===========================
  **Numbers written as plain decimals.**  A whole number is written with all its
  digits, whatever its size, and without a point.  Any other finite number is
  written with sixteen decimal places, a tie going to the even neighbour, and is
  then cut after the last digit that is not zero; what this leaves of a number
  too small for sixteen places is zero, and zero is written without a sign.
-/
import LineCalc.Binary64.Rounding

namespace LineCalc.Decimal

/-- The decimal places that are written before zeros are cut off. -/
def places : Nat := 16

/-- The steps of the last of so many decimal places that make up one. -/
def stepsPerOne (precision : Nat) : Nat := Nat.pow 10 precision

/-- A list without the copies of a character at its end. -/
def trimEnd (c : Char) (cs : List Char) : List Char :=
  (cs.reverse.dropWhile (· = c)).reverse

/-- Exactly `width` digits of a natural below `10^width`. -/
def padded (width n : Nat) : List Char :=
  List.leftpad width '0' (Nat.toDigits 10 n)

/-- The decimal of `n` steps, with exactly so many places and no point if there
    are none. -/
def fixedChars (precision n : Nat) : List Char :=
  Nat.toDigits 10 (n / stepsPerOne precision) ++
    if precision = 0 then [] else '.' :: padded precision (n % stepsPerOne precision)

end LineCalc.Decimal

namespace LineCalc.Binary64

open Decimal

/-- The magnitude in steps of the last of so many decimal places, to nearest and
    ties to even. -/
def decimalSteps (precision units : Nat) : Nat :=
  roundDiv (units * stepsPerOne precision) unitsPerOne

/-- A number written with so many decimal places.  The sign is that of the
    number, also where nothing but zeros follows it. -/
def fixed (precision : Nat) (negative : Bool) (units : Nat) : List Char :=
  (if negative then ['-'] else []) ++ fixedChars precision (decimalSteps precision units)

/-- The text of a number. -/
def render (x : Binary64) : String :=
  match x with
  | .nan => "NaN"
  | .infinite negative => if negative then "-inf" else "inf"
  | .finite negative units _ =>
    if x.isIntegral then
      if x.eqv (zero false) then "0" else String.ofList (fixed 0 negative units)
    else
      let trimmed := String.ofList (trimEnd '.' (trimEnd '0' (fixed places negative units)))
      -- a number smaller than the last place leaves a zero with a sign
      if trimmed = "-0" then "0" else trimmed

end LineCalc.Binary64
