/-
  LineCalc/Token/Scanner.lean
  ===========================
  **Text into tokens.**  `Lexeme.read` reads what stands at the start of a text:
  a token, a fault, or the end.  The first character decides what it is, and
  every token but a string is as long as its class of characters allows.

    * A blank run starts with a space or a tab; further white space, line ends
      included, may follow.
    * A string runs to the next quote that no backslash precedes; a backslash
      before a quote stands for nothing but the quote.
    * `=` and `!` take a following `=` with them.
    * The character NUL ends the text, also inside a string.

  Line feeds are counted where they can stand: in a blank run, all at once, and
  in a string, one by one while it is collected.  A string that is not closed
  has counted for nothing.

  A `Scanner` reads lexeme after lexeme and goes on after a fault: an unexpected
  character is skipped, and of an unterminated string only the opening quote.
  `Token.ofText` is the whole text up to its end or its first fault.
-/
import LineCalc.Token.Basic

namespace LineCalc

/-- What stands at the start of a text, and what follows it. -/
inductive Lexeme where
  | endOfText
  /-- A token, and the line feeds counted while it was read. -/
  | token (token : Token) (feeds : Nat) (rest : List Char)
  | fault (error : LexError) (rest : List Char)
  deriving Repr

namespace Lexeme

/-! ### Character classes -/

/-- A blank run starts with one of these. -/
def isBlankStart (c : Char) : Bool := c = ' ' || c = '\t'

/-- A blank run goes on with one of these. -/
def isBlankPart (c : Char) : Bool :=
  c = ' ' || c = '\t' || c = '\n' || c = '\r' || c = '\x0b' || c = '\x0c'

/-- An operator starts with one of these. -/
def isOperatorStart (c : Char) : Bool :=
  ['!', '(', ')', '*', '+', '-', '/', '=', '\x7b', '\x7d'].contains c

/-! ### Strings and operators -/

/-- How a string ends. -/
inductive StringEnd where
  /-- With its quote: the text, the line feeds counted and what follows. -/
  | closed (text : List Char) (feeds : Nat) (rest : List Char)
  /-- Before its quote, after this much of the text. -/
  | unterminated (text : List Char)
  deriving DecidableEq, Repr

/-- The rest of a string of which some has been collected, the last character
    first, and some line feeds have been counted. -/
def collect (collected : List Char) (feeds : Nat) : List Char → StringEnd
  | [] => .unterminated collected.reverse
  | c :: cs =>
    if c = '\x00' then .unterminated collected.reverse
    else if c = '"' then
      if collected.head? = some '\\' then collect ('"' :: collected.tail) feeds cs
      else .closed collected.reverse feeds cs
    else if c = '\n' then collect (c :: collected) (feeds + 1) cs
    else collect (c :: collected) feeds cs

/-- The longest operator that starts with `c`. -/
def readOperator (c : Char) (cs : List Char) : Except LexError (Operator × List Char) :=
  match Operator.ofSymbol (String.ofList [c]) with
  | .error error => .error error
  | .ok op =>
    if op.extensible then
      match cs with
      | [] => .ok (op, [])
      | d :: rest =>
        match Operator.ofSymbol (String.ofList [c, d]) with
        | .ok longer => .ok (longer, rest)
        | .error _ => .ok (op, cs)
    else .ok (op, cs)

/-! ### One lexeme -/

/-- A blank run, with its line feeds counted. -/
def blankRun (run rest : List Char) : Lexeme :=
  .token ⟨.whitespace, String.ofList run, none⟩ (run.count '\n') rest

/-- What stands at the start of a text. -/
def read : List Char → Lexeme
  | [] => .endOfText
  | c :: cs =>
    if c = '\x00' then .endOfText
    else if isBlankStart c then
      blankRun (c :: cs.takeWhile isBlankPart) (cs.dropWhile isBlankPart)
    else if c.isDigit then
      .token ⟨.number, String.ofList (c :: cs.takeWhile Char.isDigit), none⟩ 0
        (cs.dropWhile Char.isDigit)
    else if c.isAlpha then
      .token (.ofWord (String.ofList (c :: cs.takeWhile Char.isAlphanum))) 0
        (cs.dropWhile Char.isAlphanum)
    else if c = '"' then
      match collect [] 0 cs with
      | .closed text feeds rest => .token ⟨.string, String.ofList text, none⟩ feeds rest
      | .unterminated text => .fault (.unterminatedString (String.ofList text)) cs
    else if isOperatorStart c then
      match readOperator c cs with
      | .ok (op, rest) => .token (.ofOperator op) 0 rest
      | .error error => .fault error cs
    else .fault (.unexpectedChar c) cs

theorem length_dropWhile_le (p : Char → Bool) (cs : List Char) :
    (cs.dropWhile p).length ≤ cs.length :=
  (List.dropWhile_sublist p).length_le

theorem length_collect_lt {collected cs text rest : List Char} {feeds feeds' : Nat}
    (h : collect collected feeds cs = .closed text feeds' rest) : rest.length < cs.length := by
  fun_induction collect collected feeds cs with
  | case1 | case2 => cases h
  | case3 _ _ _ _ _ ih | case5 _ _ _ _ _ ih | case6 _ _ _ _ _ _ _ ih =>
    exact Nat.lt_succ_of_lt (ih h)
  | case4 => cases h; exact Nat.lt_succ_self _

theorem length_readOperator_le {c : Char} {cs rest : List Char} {op : Operator}
    (h : readOperator c cs = .ok (op, rest)) : rest.length ≤ cs.length := by
  unfold readOperator at h
  split at h
  · cases h
  split at h
  · split at h
    · cases h; exact Nat.le_refl _
    · split at h
      · cases h; exact Nat.le_succ _
      · cases h; exact Nat.le_refl _
  · cases h; exact Nat.le_refl _

/-- Reading a token takes at least one character off the text. -/
theorem length_rest_lt {cs rest : List Char} {t : Token} {feeds : Nat}
    (h : read cs = .token t feeds rest) : rest.length < cs.length := by
  cases cs with
  | nil => simp [read] at h
  | cons c cs =>
    refine Nat.lt_succ_of_le ?_
    simp only [read] at h
    split at h
    · cases h
    split at h
    · cases h; exact length_dropWhile_le _ _
    split at h
    · cases h; exact length_dropWhile_le _ _
    split at h
    · cases h; exact length_dropWhile_le _ _
    split at h
    · split at h
      · next heq => cases h; exact Nat.le_of_lt (length_collect_lt heq)
      · cases h
    split at h
    · split at h
      · next heq => cases h; exact length_readOperator_le heq
      · cases h
    · cases h

end Lexeme

/-! ### Lexeme after lexeme -/

/-- A text being read. -/
structure Scanner where
  /-- What has not been read yet. -/
  rest : List Char
  /-- The line that has been reached, counted from one. -/
  line : Nat
  /-- The end of the text has been met. -/
  exhausted : Bool
  deriving Repr

namespace Scanner

/-- A scanner at the start of a text. -/
def start (text : String) : Scanner := ⟨text.toList, 1, false⟩

/-- The next token or fault.  Once the end has been met, every token is the end
    of the line. -/
def next (s : Scanner) : Except LexError Token × Scanner :=
  if s.exhausted then (.ok .endOfLine, s)
  else
    match Lexeme.read s.rest with
    | .endOfText => (.ok .endOfLine, { s with exhausted := true })
    | .token t feeds rest => (.ok t, { s with rest := rest, line := s.line + feeds })
    | .fault error rest => (.error error, { s with rest := rest })

end Scanner

/-- The tokens of a list of characters, the end of the line as the last one. -/
def Token.ofChars (cs : List Char) : Except LexError (List Token) :=
  match _h : Lexeme.read cs with
  | .endOfText => .ok [.endOfLine]
  | .token t _ rest =>
    match Token.ofChars rest with
    | .ok ts => .ok (t :: ts)
    | .error error => .error error
  | .fault error _ => .error error
termination_by cs.length
decreasing_by exact Lexeme.length_rest_lt ‹_›

/-- The tokens of a text, the end of the line as the last one. -/
def Token.ofText (text : String) : Except LexError (List Token) := Token.ofChars text.toList

end LineCalc
