/-
  LineCalc/Session.lean
  =====================
  **Lines and scripts.**  A session is its variables.  A line is read, parsed and
  run against them; a script is its lines in order, blank ones left out, up to
  the first that fails, whose number the error names.
-/
import LineCalc.Program.Eval
import LineCalc.Program.Parser
import LineCalc.Text.Blank
import LineCalc.Text.Lines
import LineCalc.Token.Scanner

namespace LineCalc

/-! ### Errors of a line and of a script -/

inductive LineError where
  | lex (error : LexError)
  | parse (error : ParseError)
  | eval (error : EvalError)
  deriving DecidableEq

def LineError.message : LineError → String
  | .lex error => error.message
  | .parse error => error.message
  | .eval error => error.message

/-- The error of a line, with its number. -/
structure ScriptError where
  line : Nat
  error : LineError
  deriving DecidableEq

def ScriptError.message (e : ScriptError) : String :=
  "Error on line " ++ Nat.repr e.line ++ ": " ++ e.error.message

/-! ### Lines -/

/-- Computations of a session; a failure keeps its variables. -/
abbrev Session (ε : Type) := EStateM ε Env

namespace Session

variable {σ : Type} [Store σ]

/-- The tokens of a line, closed by one more end of line. -/
def tokenizeLine (line : String) : Except LexError (List Token) :=
  match Token.ofText line with
  | .ok ts => .ok (ts ++ [.endOfLine])
  | .error error => .error error

def parseLine (line : String) : Except LineError Program :=
  match tokenizeLine line with
  | .error error => .error (.lex error)
  | .ok ts =>
    match Program.ofTokens ts with
    | .error error => .error (.parse error)
    | .ok program => .ok program

/-- Run a program; the result is the text of its value. -/
def evalProgram (program : Program) : EStateM LineError σ String := fun vars =>
  match program.eval vars with
  | .ok value vars' => .ok value.text vars'
  | .error error vars' => .error (.eval error) vars'

def evalLine (line : String) : EStateM LineError σ String :=
  match parseLine line with
  | .ok program => evalProgram program
  | .error error => throw error

/-! ### Scripts -/

/-- A line of a script, its error marked with the line's number. -/
def evalNumbered (number : Nat) (line : String) : EStateM ScriptError σ String := fun vars =>
  match evalLine line vars with
  | .ok value vars' => .ok value vars'
  | .error error vars' => .error ⟨number, error⟩ vars'

/-- The lines of a script from line `number` on; the result is the last value,
    `last` if all lines are blank. -/
def evalLines (number : Nat) (last : Option String) :
    List String → EStateM ScriptError σ (Option String)
  | [] => pure last
  | line :: rest =>
    if Text.isBlank line then evalLines (number + 1) last rest
    else do
      let value ← evalNumbered number line
      evalLines (number + 1) (some value) rest

def evalSource (source : String) : EStateM ScriptError σ (Option String) :=
  evalLines 1 none (Text.lines source)

end Session

/-- Run a script in a session of its own. -/
def runScript (source : String) : Except ScriptError (Option String) :=
  match Session.evalSource source Env.empty with
  | .ok value _ => .ok value
  | .error error _ => .error error

end LineCalc
