/-
  LineCalc/Main.lean
  ==================
  **The executable.**  Reads arguments, files and standard input, and writes what
  `CommandLine` says; the prompt answers each line of the standard input as it
  comes, and no editor stands between them.
-/
import LineCalc.CommandLine.Run

namespace LineCalc.CommandLine

/-- Write both outputs. -/
def Output.write (output : Output) : IO Unit := do
  let stdout ← IO.getStdout
  stdout.putStr output.out
  stdout.flush
  let stderr ← IO.getStderr
  stderr.putStr output.err
  stderr.flush

def Result.write (result : Result) : IO UInt32 := do
  result.output.write
  return UInt32.ofNat result.status

/-- The failure with this error number, whichever sign it carries. -/
def failureOfNumber? (number : UInt32) : Option OpenFailure :=
  match number.toInt32.toInt.natAbs with
  | 2 => some .notFound
  | 13 => some .permissionDenied
  | 20 => some .notADirectory
  | 21 => some .isADirectory
  | 36 => some .nameTooLong
  | _ => none

/-- Why the system refused to read a file. -/
def failureOf (error : IO.Error) : OpenFailure :=
  match error with
  | .noFileOrDirectory _ number _
  | .inappropriateType _ number _
  | .permissionDenied _ number _
  | .invalidArgument _ number _ =>
    (failureOfNumber? number).getD (.other (toString error))
  | _ => .other (toString error)

def openFile (path : String) : IO (Except SourceError SourceFile) := do
  try
    return SourceFile.ofBytes path (← IO.FS.readBinFile path)
  catch error =>
    return .error (.fileNotOpened path (failureOf error))

/-- The next line of the standard input. -/
def readLine : IO Reading := do
  let stdin ← IO.getStdin
  try
    match Text.lines (← stdin.getLine) with
    | [] => return .endOfInput
    | line :: _ => return .line line
  catch error =>
    return .failed (toString error)

/-- Answer line after line. -/
partial def prompt (options : Options) (env : Env) : IO Unit := do
  match turn options env (← readLine) with
  | .last output => output.write
  | .next output env' =>
    output.write
    prompt options env'

def start (options : Options) : IO UInt32 := do
  match options.contents with
  | none =>
    prompt options Env.empty
    return 0
  | some contents =>
    if options.file then
      let opened ← openFile contents
      (runFile options opened).write
    else (runScript options contents).write

def usageLine : String :=
  lineOf "Usage: setlang [-f] [-e] [--tokens] [--ast] [-h] [-V] [CONTENTS]"

/-- One line says what the arguments are. -/
def pages : Pages := ⟨fun _ => usageLine, fun _ => usageLine⟩

end LineCalc.CommandLine

open LineCalc.CommandLine in
def main (arguments : List String) : IO UInt32 := do
  match Options.ofArguments arguments with
  | .error refusal => (refuse pages arguments refusal).write
  | .ok options => start options
