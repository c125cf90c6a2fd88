/-
  LineCalc/Token/Basic.lean
  =========================
  **Tokens.**  A token is a kind, a text and, when it stands for an operator,
  that operator.  Nothing ties the three together here: `Token.Scanner` only
  produces tokens whose parts agree, while the parser takes any token list and
  looks at the kind or at the operator as each of its rules says.
-/
import LineCalc.Operator

namespace LineCalc

/-- The reserved words. -/
inductive Keyword where
  | set
  | trueLiteral
  | falseLiteral
  | null
  | ifWord
  | forWord
  | function
  | returnWord
  deriving DecidableEq, Repr

namespace Keyword

/-- How the word is written. -/
def word : Keyword → String
  | set => "set"
  | trueLiteral => "true"
  | falseLiteral => "false"
  | null => "null"
  | ifWord => "if"
  | forWord => "for"
  | function => "func"
  | returnWord => "return"

def all : List Keyword :=
  [set, trueLiteral, falseLiteral, null, ifWord, forWord, function, returnWord]

/-- The reserved word that a text is, if it is one. -/
def ofWord? (word : String) : Option Keyword := all.find? (·.word = word)

/-- The word as the name of a token. -/
def display : Keyword → String
  | set => "Set"
  | trueLiteral => "True"
  | falseLiteral => "False"
  | null => "Null"
  | ifWord => "If"
  | forWord => "For"
  | function => "Function"
  | returnWord => "Return"

end Keyword

inductive Token.Kind where
  | endOfLine
  | invalid
  | identifier
  | whitespace
  | number
  | string
  | operator
  | keyword (word : Keyword)
  deriving DecidableEq, Repr

def Token.Kind.display : Token.Kind → String
  | .endOfLine => "End of line"
  | .invalid => "Invalid"
  | .identifier => "Identifier"
  | .whitespace => "Whitespace"
  | .number => "Number"
  | .string => "String"
  | .operator => "Operator"
  | .keyword word => word.display

structure Token where
  kind : Token.Kind
  text : String
  operator : Option Operator := none
  deriving DecidableEq, Repr

namespace Token

/-- The token that ends a line. -/
def endOfLine : Token := ⟨.endOfLine, "", none⟩

/-- The token of an operator, spelled by its symbol. -/
def ofOperator (op : Operator) : Token := ⟨.operator, op.symbol, some op⟩

/-- The token of a word: reserved or an identifier. -/
def ofWord (word : String) : Token :=
  match Keyword.ofWord? word with
  | some keyword => ⟨.keyword keyword, word, none⟩
  | none => ⟨.identifier, word, none⟩

/-- The token carries this operator, whatever its kind. -/
def isOperator (token : Token) (op : Operator) : Bool := token.operator = some op

/-- Tokens of one kind and text are the same token; the operator does not
    count. -/
def same (a b : Token) : Bool := a.kind = b.kind && a.text = b.text

/-- A token as messages name it. -/
def display (token : Token) : String :=
  match token.kind, token.operator with
  | .operator, some op => op.display
  | .endOfLine, _ => token.kind.display
  | kind, _ => s!"{kind.display}('{token.text}')"

end Token

end LineCalc
