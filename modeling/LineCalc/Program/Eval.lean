/-
  LineCalc/Program/Eval.lean
  ==========================
  **Running programs.**  Statements run in order and the value of a program is
  that of its last statement, null if it has none.  Operands are evaluated from
  left to right, and an assignment or a declaration evaluates its value first.

  A failure stops the program where it is and keeps the variables as they are
  then: what earlier statements, and earlier operands, have written stays
  written.
-/
import LineCalc.Env

namespace LineCalc

/-- Computations on the variables; a failure keeps their state. -/
abbrev EvalOn (σ : Type) := EStateM EvalError σ

/-- Computations on the variables of a session. -/
abbrev Eval := EvalOn Env

/-- The variables after an update that may be refused. -/
def Eval.update {σ : Type} (f : σ → Except EvalError σ) : EvalOn σ Unit := fun vars =>
  match f vars with
  | .ok vars' => .ok () vars'
  | .error error => .error error vars

variable {σ : Type} [Store σ]

namespace Eval

/-- The value of a variable. -/
def lookup (name : String) : EvalOn σ Value := fun vars =>
  match Store.get? vars name with
  | some value => .ok value vars
  | none => .error (.unknownVariable name) vars

def define (name : String) (value : Value) : EvalOn σ Unit := update (Store.define · name value)

def assign (name : String) (value : Value) : EvalOn σ Unit := update (Store.assign · name value)

end Eval

def Expr.eval : Expr → EvalOn σ Value
  | .variable name => Eval.lookup name
  | .number value => pure (.number value)
  | .string text => pure (.string text)
  | .boolean value => pure (.boolean value)
  | .null => pure .null
  | .whitespace text => throw (.unimplemented (.whitespace text))
  | .not inner => throw (.unimplemented (.not inner))
  | .arith op left right => do
    let l ← left.eval
    let r ← right.eval
    pure (op.eval l r)
  | .compare op left right => do
    let l ← left.eval
    let r ← right.eval
    pure (op.eval l r)
  | .assign name value => do
    let v ← value.eval
    Eval.assign name v
    pure v

mutual

def Statement.eval : Statement → EvalOn σ Value
  | .program body => Program.evalFrom .null body
  | .declare name value => do
    let v ← value.eval
    Eval.define name v
    pure v
  | .expr e => e.eval

/-- The value of the last statement, `last` if there is none. -/
def Program.evalFrom (last : Value) : List Statement → EvalOn σ Value
  | [] => pure last
  | s :: rest => do
    let v ← s.eval
    Program.evalFrom v rest

end

def Program.eval (program : Program) : EvalOn σ Value := Program.evalFrom .null program

end LineCalc
