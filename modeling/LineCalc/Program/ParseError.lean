/-
  LineCalc/Program/ParseError.lean
  ================================
  **What can be wrong with a list of tokens,** as causes, with the wording of
  each in one place.
-/
import LineCalc.Token.Basic
import LineCalc.Program.Dump

namespace LineCalc

/-- What a parser was looking for when it met something else. -/
inductive Expected where
  | identifier
  | expression
  | numberAfterSign
  | operator (op : Operator)
  deriving DecidableEq, Repr

def Expected.text : Expected → String
  | .identifier => "an identifier"
  | .expression => "an expression"
  | .numberAfterSign => "a number after the sign"
  | .operator op => s!"'{op.symbol}'"

inductive ParseError where
  | unexpectedToken (expected : Expected) (found : Token)
  /-- Only a variable can stand to the left of `=`. -/
  | invalidTarget (target : Expr)
  | invalidNumber (literal : String)
  /-- The tokens ran out before the end of the line. -/
  | unexpectedEnd
  deriving DecidableEq

def ParseError.message : ParseError → String
  | .unexpectedToken expected found =>
    s!"Unexpected token: expected {expected.text}, got {found.display}."
  | .invalidTarget target =>
    s!"Cannot assign to {target.dump}, only variables can be assigned."
  | .invalidNumber literal => s!"Invalid number literal '{literal}'."
  | .unexpectedEnd => "Unexpected end of input."

end LineCalc
