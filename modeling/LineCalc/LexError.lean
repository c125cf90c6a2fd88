/-
  LineCalc/LexError.lean
  ======================
  **What can be wrong with the text of a token,** as causes, with the wording of
  each in one place.
-/
namespace LineCalc

inductive LexError where
  /-- No token starts with this character. -/
  | unexpectedChar (c : Char)
  /-- The text ended before the closing quote; this much of the string was read. -/
  | unterminatedString (text : String)
  /-- The symbol names no operator. -/
  | unknownOperator (symbol : String)
  deriving DecidableEq, Repr

def LexError.message : LexError → String
  | .unexpectedChar c => s!"Wrong lexing: Token: '{c}' is not allowed."
  | .unterminatedString text =>
    s!"Wrong lexing: Ending double quote not found after \"{text}\"."
  | .unknownOperator symbol => s!"Operator: '{symbol}' is not allowed."

end LineCalc
