/-
  LineCalc/Decimal/Numeral.lean
  =============================
  **Numbers read from text.**  A numeral is an optional sign and then either one
  of the words `inf`, `infinity`, `nan` in any letter case, or decimal digits
  with an optional point and an optional exponent.  At least one digit stands
  beside the point, and at least one after the exponent mark.  Nothing else is
  a numeral, blanks included.

  A decimal denotes `significand * 10^exponent` exactly and is rounded once.
-/
import LineCalc.Binary64.Rounding

namespace LineCalc

/-! ### Rounding a decimal -/

/-- The number nearest to `significand * 10^exponent`.

    Beyond `10^310` every number is infinite, and below `10^-400` it is zero:
    answering these at once keeps the powers of ten small. -/
def Binary64.ofDecimal (negative : Bool) (significand : Nat) (exponent : Int) : Binary64 :=
  if significand = 0 then .zero negative
  else if 310 ≤ exponent then .infinite negative
  else if exponent + significand.log2 < -400 then .zero negative
  else
    .ofRatio negative
      (significand * Nat.pow 10 exponent.toNat * Binary64.unitsPerOne)
      (Nat.pow 10 (-exponent).toNat)

namespace Numeral

/-! ### The parts of a numeral -/

/-- The leading decimal digits and what follows them. -/
def spanDigits (cs : List Char) : List Char × List Char := cs.span Char.isDigit

/-- A leading sign, `true` for minus, and what follows it. -/
def splitSign : List Char → Bool × List Char
  | '-' :: cs => (true, cs)
  | '+' :: cs => (false, cs)
  | cs => (false, cs)

/-- The value of a run of decimal digits. -/
def natOfDigits (digits : List Char) : Nat := Nat.ofDigitChars 10 digits 0

/-- The digits after a point, if there is one, and what follows them. -/
def splitFraction : List Char → List Char × List Char
  | '.' :: cs => spanDigits cs
  | cs => ([], cs)

/-- The exponent that fills the rest of a numeral; no rest is exponent zero. -/
def exponent? : List Char → Option Int
  | [] => some 0
  | mark :: cs =>
    let (negative, digits) := splitSign cs
    if (mark = 'e' ∨ mark = 'E') ∧ digits ≠ [] ∧ digits.all Char.isDigit then
      some (Binary64.signed negative (natOfDigits digits))
    else none

/-- A numeral written with digits. -/
def decimal? (negative : Bool) (cs : List Char) : Option Binary64 :=
  let (whole, rest) := spanDigits cs
  let (fraction, rest) := splitFraction rest
  if whole = [] ∧ fraction = [] then none
  else
    (exponent? rest).map fun exponent =>
      .ofDecimal negative (natOfDigits (whole ++ fraction)) (exponent - fraction.length)

/-- A numeral written as a word. -/
def special? (negative : Bool) (cs : List Char) : Option Binary64 :=
  let word := String.ofList (cs.map Char.toLower)
  if word = "inf" ∨ word = "infinity" then some (.infinite negative)
  else if word = "nan" then some .nan
  else none

end Numeral

/-- The number that a text denotes, if it is a numeral. -/
def Binary64.ofText? (text : String) : Option Binary64 :=
  let (negative, cs) := Numeral.splitSign text.toList
  (Numeral.special? negative cs).or (Numeral.decimal? negative cs)

end LineCalc
