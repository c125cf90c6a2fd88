/-
  LineCalc/Program/Dump.lean
  ==========================
  **Programs as text, node by node.**  Every node is written with its name and
  its parts in parentheses, so that the shape of the tree shows.  A program puts
  each statement on a line of its own between braces, and a program inside a
  program is written in the same way, not set in further.
-/
import LineCalc.Program.Basic
import LineCalc.Decimal.Plain
import LineCalc.Text.Quoted

namespace LineCalc

def Expr.dump : Expr → String
  | .variable name => "Identifier(" ++ name ++ ")"
  | .number value => "Number(" ++ value.render ++ ")"
  | .string text => "String(" ++ Text.quote text ++ ")"
  | .boolean true => "Boolean(true)"
  | .boolean false => "Boolean(false)"
  | .null => "Null"
  | .whitespace text => "Whitespace(" ++ Text.quote text ++ ")"
  | .not inner => "Not(" ++ inner.dump ++ ")"
  | .arith op left right =>
    "Binary(" ++ left.dump ++ " " ++ op.symbol ++ " " ++ right.dump ++ ")"
  | .compare op left right =>
    "Comparison(" ++ left.dump ++ " " ++ op.symbol ++ " " ++ right.dump ++ ")"
  | .assign name value => "VariableAssign(" ++ name ++ " = " ++ value.dump ++ ")"

mutual

def Statement.dump : Statement → String
  | .program body => "Program \x7b\n" ++ Program.dumpLines body ++ "\x7d"
  | .declare name value => "VariableDeclaration(" ++ name ++ " = " ++ value.dump ++ ")"
  | .expr e => e.dump

/-- Each statement on a line of its own. -/
def Program.dumpLines : List Statement → String
  | [] => ""
  | s :: rest => "  " ++ s.dump ++ "\n" ++ Program.dumpLines rest

end

def Program.dump (program : Program) : String :=
  "Program \x7b\n" ++ Program.dumpLines program ++ "\x7d"

end LineCalc
