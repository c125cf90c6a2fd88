/-
  LineCalc/Text/Quoted.lean
  =========================
  **Text in double quotes.**  A quoted text shows every character that could be
  mistaken or missed as an escape: the quote, the backslash, the four named
  controls, and by its code point every character that has no visible form or is
  drawn onto the one before it.  All other characters stand for themselves.
-/
import LineCalc.Text.GraphemeExtend
import LineCalc.Text.Unprintable

namespace LineCalc.Text

/-- A character by its code point, in lower-case hexadecimal without leading
    zeros. -/
def codePointEscape (c : Char) : List Char :=
  '\\' :: 'u' :: '\x7b' :: Nat.toDigits 16 c.toNat ++ ['\x7d']

/-- The halfwidth voiced and semi-voiced sound marks.  They extend the character
    before them, but each fills a cell of its own and can be seen. -/
def isHalfwidthSoundMark (c : Char) : Bool := c = '\uff9e' || c = '\uff9f'

/-- A character that a reader would mistake or miss: one without a visible form,
    or one drawn onto the character before it. -/
def isObscure (c : Char) : Bool :=
  isGraphemeExtend c && !isHalfwidthSoundMark c || isUnprintable c

/-- A character as it is written between quotes. -/
def escape (c : Char) : List Char :=
  if c = '\x00' then ['\\', '0']
  else if c = '\t' then ['\\', 't']
  else if c = '\r' then ['\\', 'r']
  else if c = '\n' then ['\\', 'n']
  else if c = '\\' then ['\\', '\\']
  else if c = '"' then ['\\', '"']
  else if isObscure c then codePointEscape c
  else [c]

/-- A text in double quotes. -/
def quote (text : String) : String :=
  String.ofList ('"' :: text.toList.flatMap escape ++ ['"'])

end LineCalc.Text
