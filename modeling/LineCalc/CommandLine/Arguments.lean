/-
  LineCalc/CommandLine/Arguments.lean
  ===================================
  **The arguments of the program.**  Arguments are taken from left to right, and
  the first that is wrong, or asks for the version or for help, decides.  Flags may stand
  before and after the contents, short ones may be written together, and after
  `--` nothing is a flag.  A flag may be given once and takes no value, and
  there is at most one argument that is not a flag.  A lone `-` is no flag.
-/
namespace LineCalc.CommandLine

/-- What a run is asked to do. -/
structure Options where
  /-- The contents are the path of a script. -/
  file : Bool := false
  /-- Print the value of every line. -/
  echo : Bool := false
  /-- Show the tokens of every line. -/
  tokens : Bool := false
  /-- Show the program of every line. -/
  ast : Bool := false
  /-- A script, or the path of one. -/
  contents : Option String := none
  deriving DecidableEq, Repr

/-- Why no run follows from the arguments. -/
inductive Refusal where
  | version
  /-- Help was asked for, with the long flag or the short one. -/
  | help (long : Bool)
  | usage
  deriving DecidableEq, Repr

inductive Flag where
  | file
  | echo
  | tokens
  | ast
  | version
  | help (long : Bool)
  deriving DecidableEq, Repr

/-- The flag of a letter after a single dash. -/
def Flag.ofLetter? : Char → Option Flag
  | 'f' => some file
  | 'e' => some echo
  | 'V' => some version
  | 'h' => some (help false)
  | _ => none

/-- The flag of a word after a double dash. -/
def Flag.ofWord? (word : String) : Option Flag :=
  if word = "file" then some file
  else if word = "echo" then some echo
  else if word = "tokens" then some tokens
  else if word = "ast" then some ast
  else if word = "version" then some version
  else if word = "help" then some (help true)
  else none

namespace Options

/-- The options with one more flag, which must be new. -/
def addFlag (options : Options) : Flag → Except Refusal Options
  | .version => .error .version
  | .help long => .error (.help long)
  | .file => if options.file then .error .usage else .ok { options with file := true }
  | .echo => if options.echo then .error .usage else .ok { options with echo := true }
  | .tokens => if options.tokens then .error .usage else .ok { options with tokens := true }
  | .ast => if options.ast then .error .usage else .ok { options with ast := true }

/-- The options with the contents, which must be new. -/
def addContents (options : Options) (contents : String) : Except Refusal Options :=
  match options.contents with
  | none => .ok { options with contents := some contents }
  | some _ => .error .usage

/-- The options with one more flag, unless it is unknown. -/
def addFlag? (options : Options) : Option Flag → Except Refusal Options
  | some flag => options.addFlag flag
  | none => .error .usage

/-- One argument that may be a flag. -/
def addArgument (options : Options) (argument : String) : Except Refusal Options :=
  match argument.toList with
  | '-' :: '-' :: word => options.addFlag? (Flag.ofWord? (String.ofList word))
  | '-' :: letter :: letters =>
    (letter :: letters).foldlM (fun options c => options.addFlag? (Flag.ofLetter? c)) options
  | _ => options.addContents argument

/-- The arguments from left to right. -/
def addArguments (options : Options) : List String → Except Refusal Options
  | [] => .ok options
  | argument :: rest =>
    if argument = "--" then rest.foldlM addContents options
    else
      match options.addArgument argument with
      | .ok options => options.addArguments rest
      | .error refusal => .error refusal

/-- The options of a list of arguments.  A file flag needs contents. -/
def ofArguments (arguments : List String) : Except Refusal Options :=
  match addArguments {} arguments with
  | .ok options =>
    if options.file ∧ options.contents = none then .error .usage else .ok options
  | .error refusal => .error refusal

end Options

end LineCalc.CommandLine
