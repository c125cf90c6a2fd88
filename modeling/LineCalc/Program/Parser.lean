/-
  LineCalc/Program/Parser.lean
  ============================
  **Tokens into programs,** by recursive descent with one token of lookahead.

      program        := statement* end-of-line
      statement      := set NAME | set NAME = expression | expression
      expression     := assignment
      assignment     := comparison ('=' assignment)?       left side a variable
      comparison     := additive (('==' | '!=') additive)*
      additive       := multiplicative (('+' | '-') multiplicative)*
      multiplicative := primary (('*' | '/') primary)*
      primary        := NAME | NUMBER | STRING | null | true | false
                      | '(' expression ')' | ('+' | '-')+ NUMBER

  Chains nest to the left and assignments to the right.  White space may stand
  between any two tokens.  A bare `set NAME` is only possible before the end of
  the line.

  A parser is a state machine over the tokens that are left.  A failure keeps
  that state too, so which tokens a failing parser has taken is part of its
  answer: a token that should have been an operator, a name or a number is
  taken, one that starts no expression is not.

  The levels of expressions are written for any `inner` parser of nested
  expressions and then tied by the depth of nesting.  Every level of nesting
  takes a token, so the number of tokens is depth enough; with no depth left
  there is no token left either, and `unexpectedEnd` is the true answer.
-/
import LineCalc.Program.ParseError
import LineCalc.Decimal.Numeral

namespace LineCalc

/-- A parser takes tokens from the front of a list, whether it fails or not. -/
abbrev Parser := EStateM ParseError (List Token)

namespace Parser

/-! ### Single tokens -/

/-- Tokens without the white space at their front. -/
def skipSpace (ts : List Token) : List Token := ts.dropWhile (·.kind = .whitespace)

def space : Parser Unit := modify skipSpace

/-- The next token, left in place. -/
def peek : Parser Token := fun ts =>
  match ts with
  | [] => .error .unexpectedEnd []
  | t :: rest => .ok t (t :: rest)

/-- The next token, taken. -/
def next : Parser Token := fun ts =>
  match ts with
  | [] => .error .unexpectedEnd []
  | t :: rest => .ok t rest

/-- The next token has to carry this operator; it is taken in any case. -/
def expectOperator (op : Operator) : Parser Unit := do
  let t ← next
  if t.isOperator op then pure () else throw (.unexpectedToken (.operator op) t)

/-- The next token has to be a name; it is taken in any case. -/
def identifier : Parser String := do
  let t ← next
  if t.kind = .identifier then pure t.text else throw (.unexpectedToken .identifier t)

/-- The number that a literal denotes. -/
def number (literal : String) : Parser Binary64 :=
  match Binary64.ofText? literal with
  | some value => pure value
  | none => throw (.invalidNumber literal)

/-! ### Primary expressions -/

def isSign (t : Token) : Bool := t.isOperator .plus || t.isOperator .minus

/-- The signs at the front of the tokens, with the white space between and after
    them: whether an odd number of them is a minus, and what follows. -/
def spanSigns (negative : Bool) : List Token → Bool × List Token
  | [] => (negative, [])
  | t :: ts =>
    if t.kind = .whitespace then spanSigns negative ts
    else if isSign t then spanSigns (negative ^^ t.isOperator .minus) ts
    else (negative, t :: ts)

def signs : Parser Bool := fun ts =>
  let (negative, rest) := spanSigns false ts
  .ok negative rest

/-- Signs and the number that they apply to. -/
def signedNumber : Parser Expr := do
  let negative ← signs
  let t ← next
  if t.kind = .number then
    let value ← number t.text
    pure (.number (if negative then value.neg else value))
  else throw (.unexpectedToken .numberAfterSign t)

/-- A nested expression after its opening parenthesis, with the closing one. -/
def group (inner : Parser Expr) : Parser Expr := do
  space
  let e ← inner
  space
  expectOperator .rightParen
  pure e

/-- A single token's expression, a group or a signed number. -/
def primary (inner : Parser Expr) : Parser Expr := fun ts =>
  match ts with
  | [] => .error .unexpectedEnd []
  | t :: rest =>
    match t.kind with
    | .identifier => .ok (.variable t.text) rest
    | .string => .ok (.string t.text) rest
    | .whitespace => .ok (.whitespace t.text) rest
    | .keyword .null => .ok .null rest
    | .keyword .trueLiteral => .ok (.boolean true) rest
    | .keyword .falseLiteral => .ok (.boolean false) rest
    | .number =>
      match Binary64.ofText? t.text with
      | some value => .ok (.number value) rest
      | none => .error (.invalidNumber t.text) (t :: rest)
    | .operator =>
      match t.operator with
      | some .leftParen => group inner rest
      | some .plus | some .minus => signedNumber (t :: rest)
      | _ => .error (.unexpectedToken .expression t) (t :: rest)
    | _ => .error (.unexpectedToken .expression t) (t :: rest)

/-! ### Chains of operators -/

/-- The levels whose operators chain to the left, the tightest first. -/
inductive Level where
  | multiplicative
  | additive
  | comparison
  deriving DecidableEq, Repr

/-- What an operator makes of the two sides, if it belongs to the level. -/
def Level.join? : Level → Operator → Option (Expr → Expr → Expr)
  | .multiplicative, .star => some (.arith .mul)
  | .multiplicative, .slash => some (.arith .div)
  | .additive, .plus => some (.arith .add)
  | .additive, .minus => some (.arith .sub)
  | .comparison, .equal => some (.compare .equal)
  | .comparison, .notEqual => some (.compare .notEqual)
  | _, _ => none

/-- The rest of a chain after `left`, of at most `rounds` further operands. -/
def chainTail (level : Level) (operand : Parser Expr) : Nat → Expr → Parser Expr
  | 0, left => pure left
  | rounds + 1, left => fun ts =>
    match ts with
    | [] => .ok left []
    | t :: rest =>
      match t.operator.bind level.join? with
      | none => .ok left (t :: rest)
      | some join =>
        (do
          space
          let right ← operand
          space
          chainTail level operand rounds (join left right) : Parser Expr) rest

/-- Operands joined by the operators of a level.  Every further operand follows
    an operator, so there are fewer of them than tokens. -/
def chain (level : Level) (operand : Parser Expr) : Parser Expr := do
  let left ← operand
  space
  let ts ← get
  chainTail level operand ts.length left

def multiplicativeWith (inner : Parser Expr) : Parser Expr :=
  chain .multiplicative (primary inner)

def additiveWith (inner : Parser Expr) : Parser Expr :=
  chain .additive (multiplicativeWith inner)

def comparisonWith (inner : Parser Expr) : Parser Expr :=
  chain .comparison (additiveWith inner)

/-! ### Assignments -/

/-- What follows the `=` of an assignment to `target`. -/
def assignTo (inner : Parser Expr) (target : Expr) : Parser Expr := do
  space
  match target with
  | .variable name =>
    let value ← inner
    space
    pure (.assign name value)
  | _ => throw (.invalidTarget target)

def assignmentWith (inner : Parser Expr) : Parser Expr := do
  let left ← comparisonWith inner
  space
  fun ts =>
    match ts with
    | [] => .ok left []
    | t :: rest => if t.isOperator .assign then assignTo inner left rest else .ok left (t :: rest)

/-! ### Expressions, statements, programs -/

/-- Expressions nested at most `depth` deep. -/
def nested : Nat → Parser Expr
  | 0 => throw .unexpectedEnd
  | depth + 1 => assignmentWith (nested depth)

/-- A level of expressions with nesting as deep as there are tokens. -/
def tied (level : Parser Expr → Parser Expr) : Parser Expr := fun ts =>
  level (nested ts.length) ts

def multiplicative : Parser Expr := tied multiplicativeWith

def additive : Parser Expr := tied additiveWith

def comparison : Parser Expr := tied comparisonWith

def assignment : Parser Expr := tied assignmentWith

def expression : Parser Expr := assignment

/-- A declaration after the word `set`. -/
def declaration : Parser Statement := do
  space
  let name ← identifier
  space
  let t ← peek
  if t.kind = .endOfLine then pure (.declare name .null)
  else
    expectOperator .assign
    space
    let value ← expression
    space
    pure (.declare name value)

def statement : Parser Statement := fun ts =>
  match ts with
  | [] => .error .unexpectedEnd []
  | t :: rest =>
    if t.kind = .keyword .set then declaration rest
    else (Statement.expr <$> expression) (t :: rest)

/-- At most `rounds` statements and the end of the line. -/
def statements : Nat → Parser Program
  | 0 => throw .unexpectedEnd
  | rounds + 1 => do
    space
    let t ← peek
    if t.kind = .endOfLine then
      let _ ← next
      pure []
    else
      let first ← statement
      let others ← statements rounds
      pure (first :: others)

/-- A program up to the end of its line.  Every statement takes a token, so there
    are no more statements than tokens. -/
def program : Parser Program := fun ts => statements ts.length ts

end Parser

/-- The program that a list of tokens starts with. -/
def Program.ofTokens (ts : List Token) : Except ParseError Program :=
  match Parser.program ts with
  | .ok program _ => .ok program
  | .error error _ => .error error

end LineCalc
