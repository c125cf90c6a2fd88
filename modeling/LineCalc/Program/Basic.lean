/-
  LineCalc/Program/Basic.lean
  ===========================
  **Programs as trees.**  A program is a list of statements; a statement declares
  a variable, evaluates an expression, or is a program itself.

  `Expr.whitespace` and `Expr.not` are trees that no evaluation gives a meaning
  to: they exist so that a tree can hold them, and running one is an error.
-/
import LineCalc.Operator
import LineCalc.Binary64.Basic

namespace LineCalc

inductive ArithOp where
  | add
  | sub
  | mul
  | div
  deriving DecidableEq, Repr

inductive CompareOp where
  | equal
  | notEqual
  deriving DecidableEq, Repr

inductive Expr where
  | variable (name : String)
  | number (value : Binary64)
  | string (text : String)
  | boolean (value : Bool)
  | null
  | whitespace (text : String)
  | not (inner : Expr)
  | arith (op : ArithOp) (left right : Expr)
  | compare (op : CompareOp) (left right : Expr)
  | assign (name : String) (value : Expr)
  deriving DecidableEq

inductive Statement where
  | program (body : List Statement)
  | declare (name : String) (value : Expr)
  | expr (e : Expr)

/-- A program is its statements, in order. -/
abbrev Program := List Statement

/-! ### The operators inside trees -/

def ArithOp.operator : ArithOp → Operator
  | add => .plus
  | sub => .minus
  | mul => .star
  | div => .slash

def CompareOp.operator : CompareOp → Operator
  | equal => .equal
  | notEqual => .notEqual

def ArithOp.symbol (op : ArithOp) : String := op.operator.symbol

def CompareOp.symbol (op : CompareOp) : String := op.operator.symbol

def ArithOp.ofOperator? : Operator → Option ArithOp
  | .plus => some add
  | .minus => some sub
  | .star => some mul
  | .slash => some div
  | _ => none

def CompareOp.ofOperator? : Operator → Option CompareOp
  | .equal => some equal
  | .notEqual => some notEqual
  | _ => none

/-! ### Equality of trees, numbers compared by value -/

/-- Equal up to the sign of zeros; a tree with a not-a-number equals nothing. -/
def Expr.eqv : Expr → Expr → Bool
  | .variable a, .variable b => a = b
  | .number x, .number y => x.eqv y
  | .string a, .string b => a = b
  | .boolean a, .boolean b => a = b
  | .null, .null => true
  | .whitespace a, .whitespace b => a = b
  | .not a, .not b => a.eqv b
  | .arith op₁ l₁ r₁, .arith op₂ l₂ r₂ => op₁ = op₂ && l₁.eqv l₂ && r₁.eqv r₂
  | .compare op₁ l₁ r₁, .compare op₂ l₂ r₂ => op₁ = op₂ && l₁.eqv l₂ && r₁.eqv r₂
  | .assign n₁ v₁, .assign n₂ v₂ => n₁ = n₂ && v₁.eqv v₂
  | _, _ => false

mutual

def Statement.eqv : Statement → Statement → Bool
  | .program p, .program q => Program.eqv p q
  | .declare n₁ v₁, .declare n₂ v₂ => n₁ = n₂ && v₁.eqv v₂
  | .expr a, .expr b => a.eqv b
  | _, _ => false

def Program.eqv : List Statement → List Statement → Bool
  | [], [] => true
  | s :: p, t :: q => s.eqv t && Program.eqv p q
  | _, _ => false

end

end LineCalc
