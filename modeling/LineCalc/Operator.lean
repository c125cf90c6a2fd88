/-
  LineCalc/Operator.lean
  ======================
  **The operators of the language.**  Each has a symbol, a precedence (a higher
  one is said to bind tighter) and may or may not be the start of a longer
  operator.  `invalid` is the operator of no symbol.
-/
import LineCalc.LexError

namespace LineCalc

inductive Operator where
  | plus
  | minus
  | star
  | slash
  | assign
  | equal
  | notEqual
  | not
  | leftParen
  | rightParen
  | leftBrace
  | rightBrace
  | invalid
  deriving DecidableEq, Repr

namespace Operator

def symbol : Operator → String
  | plus => "+"
  | minus => "-"
  | star => "*"
  | slash => "/"
  | assign => "="
  | equal => "=="
  | notEqual => "!="
  | not => "!"
  | leftParen => "("
  | rightParen => ")"
  | leftBrace => "\x7b"
  | rightBrace => "\x7d"
  | invalid => "<invalid>"

def precedence : Operator → Nat
  | star | slash => 6
  | plus | minus | not => 5
  | leftParen | rightParen => 4
  | leftBrace | rightBrace => 3
  | assign => 2
  | equal | notEqual => 1
  | invalid => 7

/-- The symbol may be the start of a longer one. -/
def extensible : Operator → Bool
  | assign | not => true
  | _ => false

/-- The operator with this symbol, or the complaint that there is none. -/
def ofSymbol (symbol : String) : Except LexError Operator :=
  match symbol with
  | "+" => .ok plus
  | "-" => .ok minus
  | "*" => .ok star
  | "/" => .ok slash
  | "(" => .ok leftParen
  | ")" => .ok rightParen
  | "\x7b" => .ok leftBrace
  | "\x7d" => .ok rightBrace
  | "=" => .ok assign
  | "==" => .ok equal
  | "!" => .ok not
  | "!=" => .ok notEqual
  | _ => .error (.unknownOperator symbol)

/-- **The two tables are inverse to each other**: a symbol stands for the operator that has it,
    and for no other. -/
theorem ofSymbol_eq_ok_iff {symbol : String} {op : Operator} :
    ofSymbol symbol = .ok op ↔ op ≠ invalid ∧ op.symbol = symbol := by
  constructor
  · intro h
    unfold ofSymbol at h
    split at h <;> cases h <;> decide
  · rintro ⟨hop, rfl⟩
    cases op with
    | invalid => exact absurd rfl hop
    | _ => rfl

/-- The operator as the name of a token. -/
def display (op : Operator) : String := s!"Operator('{op.symbol}')"

end Operator

end LineCalc
