/-
  LineCalc/Program/EvalError.lean
  ===============================
  **What can be wrong when a program runs,** as causes, with the wording of each
  in one place.
-/
import LineCalc.Program.Dump

namespace LineCalc

inductive EvalError where
  /-- The name is declared a second time. -/
  | alreadyDeclared (name : String)
  /-- The name is assigned to without a declaration. -/
  | notDeclared (name : String)
  /-- The name is read without a declaration. -/
  | unknownVariable (name : String)
  /-- The tree has no meaning. -/
  | unimplemented (node : Expr)
  deriving DecidableEq

def EvalError.message : EvalError → String
  | .alreadyDeclared name => s!"Variable '{name}' is already declared."
  | .notDeclared name => s!"Variable '{name}' is not declared, hence not assignable."
  | .unknownVariable name => s!"Unknown variable '{name}'."
  | .unimplemented node => s!"Unimplemented statement in evaluation: {node.dump}."

end LineCalc
