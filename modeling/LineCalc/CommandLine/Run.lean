/-
  LineCalc/CommandLine/Run.lean
  =============================
  **The program as a function.**  From the arguments, the standard input and the
  files of a directory to the exit status and the two outputs.  The line editor
  of the prompt and the pages about the arguments are not the program's own, and
  it is handed both.

  With contents the program runs a script: values go to the standard output,
  every one of them with `--echo` and otherwise the last, and the first error
  ends the run with status 1.  Without contents it is a prompt that takes its
  lines from the editor, goes on after an error and ends with the input or the
  line `exit`, or when the editor fails.  In both, `--tokens` and `--ast` show
  each line on the error output before its value or error.
-/
import LineCalc.CommandLine.Arguments
import LineCalc.Session
import LineCalc.SourceFile

namespace LineCalc.CommandLine

/-- Texts for the standard output and the error output. -/
structure Output where
  out : String := ""
  err : String := ""
  deriving DecidableEq, Repr

/-- What was written first, then what was written next. -/
def Output.append (first next : Output) : Output :=
  ⟨first.out ++ next.out, first.err ++ next.err⟩

/-- A finished run. -/
structure Result where
  status : Nat
  output : Output
  deriving DecidableEq, Repr

/-- A text on a line of its own. -/
def lineOf (text : String) : String := text ++ "\n"

/-! ### One line -/

/-- A line with what it showed, how it ended and the variables after it. -/
structure LineRun where
  shown : String
  result : Except LineError String
  env : Env

/-- The tokens of a line as `--tokens` shows them. -/
def showTokens (ts : List Token) : String := lineOf (" ".intercalate (ts.map Token.display))

/-- The program of a line as `--ast` shows it. -/
def showProgram (program : Program) : String := lineOf program.dump

/-- Parse and run a line, after its tokens have been shown. -/
def runParsed (options : Options) (shown : String) (line : String) (env : Env) : LineRun :=
  match Session.parseLine line with
  | .error error => ⟨shown, .error error, env⟩
  | .ok program =>
    let shown := if options.ast then shown ++ showProgram program else shown
    match Session.evalProgram program env with
    | .ok value env' => ⟨shown, .ok value, env'⟩
    | .error error env' => ⟨shown, .error error, env'⟩

/-- Run a line and show what the options ask for. -/
def runLine (options : Options) (line : String) (env : Env) : LineRun :=
  if options.tokens then
    match Session.tokenizeLine line with
    | .error error => ⟨"", .error (.lex error), env⟩
    | .ok ts => runParsed options (showTokens ts) line env
  else runParsed options "" line env

/-! ### Scripts -/

/-- The lines of a script from line `number` on, after a last value. -/
def runLines (options : Options) (number : Nat) (env : Env) (last : Option String) :
    List String → Result
  | [] =>
    match last with
    | some value => ⟨0, { out := if options.echo then "" else lineOf value }⟩
    | none => ⟨0, {}⟩
  | line :: rest =>
    if Text.isBlank line then runLines options (number + 1) env last rest
    else
      let run := runLine options line env
      match run.result with
      | .error error =>
        ⟨1, { err := run.shown ++ lineOf (ScriptError.message ⟨number, error⟩) }⟩
      | .ok value =>
        let next := runLines options (number + 1) run.env (some value) rest
        let echoed := if options.echo then lineOf value else ""
        ⟨next.status, Output.append ⟨echoed, run.shown⟩ next.output⟩

def runScript (options : Options) (script : String) : Result :=
  runLines options 1 Env.empty none (Text.lines script)

/-! ### The line editor -/

/-- What the editor gives when it is asked for a line. -/
inductive Reading where
  | line (text : String)
  /-- The run is to end. -/
  | interrupted
  | endOfInput
  | failed (message : String)
  deriving DecidableEq, Repr

/-- One call of the editor: what it wrote to the standard output, to show its
    prompt, and what it gave. -/
structure EditorCall where
  shown : String
  reading : Reading
  deriving DecidableEq, Repr

/-- A line editor.  From the prompt that it is told to show and the standard
    input follows why it does not start, or what its calls do, one after the
    other; behind the last of them is the end of the input. -/
structure Editor where
  calls (prompt input : String) : Except String (List EditorCall)

/-! ### The prompt -/

/-- The line that ends the prompt. -/
def exitCommand : String := "exit"

/-- The text that the editor is told to show. -/
def promptText : String := ">>> "

/-- What the prompt does with a reading. -/
inductive Turn where
  /-- Write this and end. -/
  | last (output : Output)
  /-- Write this and go on with these variables. -/
  | next (output : Output) (env : Env)

/-- The answer of the prompt to a reading. -/
def turn (options : Options) (env : Env) : Reading → Turn
  | .interrupted | .endOfInput => .last {}
  | .failed message => .last { err := lineOf ("Error: " ++ message) }
  | .line line =>
    if Text.trim line = exitCommand then .last {}
    else if Text.isBlank line then .next {} env
    else
      let run := runLine options line env
      match run.result with
      | .ok value => .next ⟨lineOf value, run.shown⟩ run.env
      | .error error => .next ⟨"", run.shown ++ lineOf error.message⟩ run.env

/-- What is written for these calls of the editor. -/
def promptCalls (options : Options) (env : Env) : List EditorCall → Output
  | [] => {}
  | call :: rest =>
    match turn options env call.reading with
    | .last output => Output.append { out := call.shown } output
    | .next output env' =>
      Output.append { out := call.shown } (output.append (promptCalls options env' rest))

def runPrompt (editor : Editor) (options : Options) (input : String) : Result :=
  match editor.calls promptText input with
  | .error message => ⟨1, { err := lineOf ("Failed to start the prompt: " ++ message) }⟩
  | .ok calls => ⟨0, promptCalls options Env.empty calls⟩

/-! ### The program -/

/-- The line that `--version` prints. -/
def versionLine : String := lineOf "setlang 0.1.0"

/-- The pages about the arguments. -/
structure Pages where
  /-- What the long or the short help flag prints. -/
  help (long : Bool) : String
  /-- What wrong arguments are answered with. -/
  complaint (arguments : List String) : String

/-- The answer to arguments that ask for no run. -/
def refuse (pages : Pages) (arguments : List String) : Refusal → Result
  | .version => ⟨0, { out := versionLine }⟩
  | .help long => ⟨0, { out := pages.help long }⟩
  | .usage => ⟨2, { err := pages.complaint arguments }⟩

/-- Run the script of a file, if it could be opened. -/
def runFile (options : Options) : Except SourceError SourceFile → Result
  | .ok file => runScript options file.text
  | .error error => ⟨1, { err := lineOf error.message }⟩

/-- Run the script that the contents are or name. -/
def runContents (options : Options) (dir : Directory) (contents : String) : Result :=
  if options.file then runFile options (SourceFile.read dir contents)
  else runScript options contents

/-- The whole program. -/
def run (editor : Editor) (pages : Pages) (arguments : List String) (input : String)
    (dir : Directory) : Result :=
  match Options.ofArguments arguments with
  | .error refusal => refuse pages arguments refusal
  | .ok options =>
    match options.contents with
    | none => runPrompt editor options input
    | some contents => runContents options dir contents

end LineCalc.CommandLine
