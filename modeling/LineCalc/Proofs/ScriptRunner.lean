/-
  LineCalc/Proofs/ScriptRunner.lean
  =================================
  **The program and the library run scripts alike.**  The program has a loop of its own
  over the lines of a script, and with `--tokens` it scans a line before it parses it.
  Its status and its standard output are nevertheless those of `runScript`, whatever the
  flags: `--echo` prints the value of each line before the first that fails instead of
  the last value, and `--tokens` and `--ast` only put text on the error output before
  the error of the script.
-/
import LineCalc.CommandLine.Run
import LineCalc.Proofs.LineErrors
import LineCalc.Proofs.ScriptLines

namespace LineCalc

/-! ### The values of a script -/

namespace Session

/-- The values of the lines that hold code, up to the first that fails. -/
def valuesOf (env : Env) : List String → List String
  | [] => []
  | line :: rest =>
    if Text.isBlank line then valuesOf env rest
    else
      match evalLine line env with
      | .ok value mid => value :: valuesOf mid rest
      | .error _ _ => []

theorem valuesOf_cons_of_blank {line : String} (h : Text.isBlank line = true) (env : Env)
    (rest : List String) : valuesOf env (line :: rest) = valuesOf env rest := by
  rw [valuesOf, if_pos h]

theorem valuesOf_cons_of_code {line : String} (h : Text.isBlank line = false) (env : Env)
    (rest : List String) :
    valuesOf env (line :: rest) =
      match evalLine line env with
      | .ok value mid => value :: valuesOf mid rest
      | .error _ _ => [] := by
  rw [valuesOf, if_neg (by simp [h])]

theorem valuesOf_append {before values : List String} {env mid : Env}
    (h : evalEach (Text.codeOf before) env = .ok values mid)
    (rest : List String) : valuesOf env (before ++ rest) = values ++ valuesOf mid rest := by
  induction before generalizing env values with
  | nil =>
    obtain ⟨rfl, rfl⟩ := evalEach_nil_eq_ok_iff.mp h
    rfl
  | cons line before ih =>
    rw [List.cons_append]
    cases hblank : Text.isBlank line with
    | true =>
      rw [Text.codeOf_cons_of_blank hblank] at h
      rw [valuesOf_cons_of_blank hblank, ih h]
    | false =>
      rw [Text.codeOf_cons_of_code hblank] at h
      obtain ⟨v, vs, next, hline, hrest, rfl⟩ := evalEach_cons_eq_ok_iff.mp h
      rw [valuesOf_cons_of_code hblank, hline]
      simp only
      rw [ih hrest, List.cons_append]

end Session

/-- The number of lines that a script runs without an error. -/
def linesRun (script : String) : Nat :=
  match runScript script with
  | .ok _ => (Text.lines script).length
  | .error e => e.line - 1

/-- The lines that run without an error, evaluated one after another, have the values of
    the script. -/
theorem evalEach_code_linesRun (file : SourceFile) :
    ∃ env, Session.evalEach (file.code (linesRun file.text)) .empty =
      .ok (Session.valuesOf .empty (Text.lines file.text)) env := by
  unfold linesRun runScript Session.evalSource
  rw [SourceFile.code_eq]
  cases hlines : Session.evalLines 1 none (Text.lines file.text) Env.empty with
  | ok value env =>
    obtain ⟨values, heach, -⟩ := Session.evalLines_eq_ok_iff.mp hlines
    have happend := Session.valuesOf_append heach []
    rw [List.append_nil, Session.valuesOf, List.append_nil] at happend
    refine ⟨env, ?_⟩
    simp only [List.take_length]
    rw [happend]
    exact heach
  | error e env =>
    obtain ⟨N, error⟩ := e
    obtain ⟨before, line, rest, values, mid, hsplit, rfl, hcode, heach, hfails⟩ :=
      Session.evalLines_eq_error_iff.mp hlines
    refine ⟨mid, ?_⟩
    simp only [Nat.add_sub_cancel_left]
    rw [hsplit, List.take_left, Session.valuesOf_append heach,
      Session.valuesOf_cons_of_code hcode, hfails]
    simp only [List.append_nil]
    exact heach

namespace CommandLine

/-! ### One line -/

/-- How a line ended, with the variables after it. -/
def LineRun.outcome (run : LineRun) : EStateM.Result LineError Env String :=
  match run.result with
  | .ok value => .ok value run.env
  | .error error => .error error run.env

theorem outcome_runParsed (options : Options) (shown line : String) (env : Env) :
    (runParsed options shown line env).outcome = Session.evalLine line env := by
  unfold runParsed
  cases hparse : Session.parseLine line with
  | error error =>
    rw [Session.evalLine_of_parseLine_error hparse]
    rfl
  | ok p =>
    rw [Session.evalLine_of_parseLine_ok hparse]
    simp only
    cases Session.evalProgram p env <;> rfl

theorem outcome_runLine (options : Options) (line : String) (env : Env) :
    (runLine options line env).outcome = Session.evalLine line env := by
  unfold runLine
  by_cases htokens : options.tokens
  · rw [if_pos htokens]
    cases hscan : Session.tokenizeLine line with
    | error error =>
      -- parsing scans the line again, and fails with the same error
      have hparse : Session.parseLine line = .error (.lex error) := by
        simp only [Session.parseLine, hscan]
      rw [Session.evalLine_of_parseLine_error hparse]
      rfl
    | ok ts => exact outcome_runParsed options _ line env
  · rw [if_neg htokens]
    exact outcome_runParsed options _ line env

/-- Without `--tokens` and `--ast`. -/
def Options.Bare (options : Options) : Prop := options.tokens = false ∧ options.ast = false

theorem shown_runLine {options : Options} (h : options.Bare) (line : String) (env : Env) :
    (runLine options line env).shown = "" := by
  obtain ⟨htokens, hast⟩ := h
  unfold runLine runParsed
  rw [htokens, hast]
  cases Session.parseLine line with
  | error error => rfl
  | ok p =>
    simp only
    cases Session.evalProgram p env <;> rfl

/-! ### What the answer of a script prints -/

def exitStatus : Except ScriptError (Option String) → Nat
  | .ok _ => 0
  | .error _ => 1

/-- The line of the last value, if there is one. -/
def valueText : Except ScriptError (Option String) → String
  | .ok (some value) => lineOf value
  | _ => ""

def errorText : Except ScriptError (Option String) → String
  | .ok _ => ""
  | .error e => lineOf e.message

/-- The result that an answer asks for: all the values with `--echo`, the last one
    without, and the error after what was shown. -/
def report (echo : Bool) (values : List String) (shown : String)
    (answer : Except ScriptError (Option String)) : Result :=
  ⟨exitStatus answer,
    ⟨if echo then String.join (values.map lineOf) else valueText answer,
      shown ++ errorText answer⟩⟩

def answerOf : EStateM.Result ScriptError Env (Option String) → Except ScriptError (Option String)
  | .ok value _ => .ok value
  | .error e _ => .error e

theorem runLines_cons_of_blank {options : Options} {number : Nat} {env : Env}
    {last : Option String} {line : String} {rest : List String}
    (h : Text.isBlank line = true) :
    runLines options number env last (line :: rest) =
      runLines options (number + 1) env last rest := by
  rw [runLines, if_pos h]

theorem runLines_cons_of_code {options : Options} {number : Nat} {env : Env}
    {last : Option String} {line : String} {rest : List String}
    (h : Text.isBlank line = false) :
    runLines options number env last (line :: rest) =
      match Session.evalLine line env with
      | .error error _ =>
        ⟨1, { err := (runLine options line env).shown ++
          lineOf (ScriptError.message ⟨number, error⟩) }⟩
      | .ok value mid =>
        let next := runLines options (number + 1) mid (some value) rest
        ⟨next.status, Output.append
          ⟨if options.echo then lineOf value else "", (runLine options line env).shown⟩
          next.output⟩ := by
  rw [runLines, if_neg (by simp [h]), ← outcome_runLine options line env]
  simp only [LineRun.outcome]
  cases (runLine options line env).result <;> simp only

/-- The loop of the program reports the answer of the lines, after the values that
    `--echo` asks for and the texts that the other flags ask for. -/
theorem runLines_eq_report (options : Options) (number : Nat) (env : Env)
    (last : Option String) (lines : List String) :
    ∃ shown, (options.Bare → shown = "") ∧
      runLines options number env last lines =
        report options.echo (Session.valuesOf env lines) shown
          (answerOf (Session.evalLines number last lines env)) := by
  induction lines generalizing number env last with
  | nil =>
    refine ⟨"", fun _ => rfl, ?_⟩
    have hanswer : answerOf (Session.evalLines number last [] env) = .ok last := rfl
    rw [hanswer]
    cases last <;> cases hecho : options.echo <;>
      simp [runLines, Session.valuesOf, report, exitStatus, valueText, errorText, hecho]
  | cons line rest ih =>
    cases hblank : Text.isBlank line with
    | true =>
      rw [runLines_cons_of_blank hblank, Session.evalLines_cons_of_blank hblank,
        Session.valuesOf_cons_of_blank hblank]
      exact ih (number + 1) env last
    | false =>
      rw [runLines_cons_of_code hblank, Session.evalLines_cons_of_code hblank,
        Session.valuesOf_cons_of_code hblank]
      cases hline : Session.evalLine line env with
      | error error mid =>
        refine ⟨(runLine options line env).shown, fun hbare => shown_runLine hbare line env, ?_⟩
        simp [answerOf, report, exitStatus, valueText, errorText]
      | ok value mid =>
        obtain ⟨shown, hshown, hnext⟩ := ih (number + 1) mid (some value)
        refine ⟨(runLine options line env).shown ++ shown, ?_, ?_⟩
        · intro hbare
          rw [shown_runLine hbare, hshown hbare]
          rfl
        · simp only [hnext, Output.append, report]
          cases hecho : options.echo <;> simp [String.append_assoc]

/-! ### The program -/

theorem runScript_eq_report (options : Options) (script : String) :
    ∃ shown, (options.Bare → shown = "") ∧
      runScript options script =
        report options.echo (Session.valuesOf .empty (Text.lines script)) shown
          (LineCalc.runScript script) := by
  have hanswer : LineCalc.runScript script =
      answerOf (Session.evalLines 1 none (Text.lines script) .empty) := by
    unfold LineCalc.runScript Session.evalSource
    cases Session.evalLines 1 none (Text.lines script) Env.empty <;> rfl
  rw [hanswer]
  exact runLines_eq_report options 1 .empty none (Text.lines script)

/-- The arguments ask for a script with these flags: the contents are the script, or
    name a file that holds it. -/
def Asks (arguments : List String) (dir : Directory) (flags : Options) (script : String) : Prop :=
  ∃ contents, Options.ofArguments arguments = .ok { flags with contents := some contents } ∧
    if flags.file then SourceFile.read dir contents = .ok ⟨contents, script⟩
    else contents = script

theorem run_of_asks {arguments : List String} {dir : Directory} {flags : Options}
    {script : String} (h : Asks arguments dir flags script) (editor : Editor) (pages : Pages)
    (input : String) :
    ∃ contents, run editor pages arguments input dir =
      runScript { flags with contents := some contents } script := by
  obtain ⟨contents, hoptions, hscript⟩ := h
  refine ⟨contents, ?_⟩
  simp only [run, hoptions, runContents]
  by_cases hfile : flags.file
  · rw [if_pos hfile] at hscript ⊢
    rw [hscript]
    rfl
  · rw [if_neg hfile] at hscript ⊢
    rw [hscript]

/-- The long words of the flags, in the order of the options. -/
def Options.words (flags : Options) : List String :=
  (if flags.file then ["--file"] else []) ++ (if flags.echo then ["--echo"] else []) ++
    (if flags.tokens then ["--tokens"] else []) ++ if flags.ast then ["--ast"] else []

theorem ofArguments_words (flags : Options) (contents : String) :
    Options.ofArguments (flags.words ++ ["--", contents]) =
      .ok { flags with contents := some contents } := by
  obtain ⟨file, echo, tokens, ast, -⟩ := flags
  cases file <;> cases echo <;> cases tokens <;> cases ast <;> rfl

theorem read_single (script : String) :
    SourceFile.read ⟨[("s", script.toUTF8)]⟩ "s" = .ok ⟨"s", script⟩ := by
  have hbytes : Directory.read ⟨[("s", script.toUTF8)]⟩ "s" = .ok script.toUTF8 := by
    have hsteps : Directory.steps "s" = ["s"] := by decide +kernel
    have hfile : Directory.endsInDirectory "s" = false := by decide +kernel
    have hroot : "s".startsWith "/" = false := by decide +kernel
    have hlength : "s".utf8ByteSize = 1 := by decide +kernel
    simp [Directory.read, hsteps, hfile, hroot, hlength, Directory.pathLimit]
  have htext : String.fromUTF8? script.toUTF8 = some script := by
    simp only [String.fromUTF8?, String.toUTF8_eq_toByteArray, dif_pos script.isValidUTF8]
    rfl
  simp only [SourceFile.read, hbytes, SourceFile.ofBytes, htext]

theorem exists_asks (flags : Options) (script : String) :
    ∃ arguments dir, Asks arguments dir flags script := by
  by_cases hfile : flags.file
  · refine ⟨flags.words ++ ["--", "s"], ⟨[("s", script.toUTF8)]⟩, "s",
      ofArguments_words flags "s", ?_⟩
    rw [if_pos hfile]
    exact read_single script
  · refine ⟨flags.words ++ ["--", script], ⟨[]⟩, script, ofArguments_words flags script, ?_⟩
    rw [if_neg hfile]

/-- **The program runs scripts as the library does.**  Every script can be asked for with
    every combination of flags, and then the status and the standard output are those
    of its answer; `--tokens` and `--ast` add nothing but text on the error output, in
    front of the error. -/
theorem run_agrees_with_runScript (flags : Options) (script : String) :
    (∃ arguments dir, Asks arguments dir flags script) ∧
    ∀ editor pages arguments input dir, Asks arguments dir flags script →
      let result := run editor pages arguments input dir
      let bare := runScript { flags with tokens := false, ast := false } script
      let answer := LineCalc.runScript script
      result.status = exitStatus answer ∧
      (flags.echo = false → result.output.out = valueText answer) ∧
      (flags.echo = true → ∃ values env,
        Session.evalEach (SourceFile.code ⟨"", script⟩ (linesRun script)) .empty =
          .ok values env ∧
        result.output.out = String.join (values.map lineOf)) ∧
      bare.output.err = errorText answer ∧
      ∃ shown, result = ⟨bare.status, ⟨bare.output.out, shown ++ bare.output.err⟩⟩ := by
  refine ⟨exists_asks flags script, ?_⟩
  intro editor pages arguments input dir hasks result bare answer
  obtain ⟨contents, hrun⟩ := run_of_asks hasks editor pages input
  obtain ⟨shown, -, hreport⟩ := runScript_eq_report { flags with contents := some contents } script
  obtain ⟨nothing, hnothing, hbare⟩ :=
    runScript_eq_report { flags with tokens := false, ast := false } script
  -- with neither flag nothing is shown, so the two results differ by what was shown
  have hempty : nothing = "" := hnothing ⟨rfl, rfl⟩
  subst hempty
  have hresult : result = _ := hrun.trans hreport
  have hbare' : bare = _ := hbare
  rw [hresult, hbare']
  simp only [report, String.empty_append]
  refine ⟨rfl, ?_, ?_, rfl, shown, rfl⟩
  · intro hecho
    simp only [hecho]
    rfl
  · intro hecho
    obtain ⟨env, heach⟩ := evalEach_code_linesRun ⟨"", script⟩
    refine ⟨_, env, heach, ?_⟩
    simp only [hecho, if_true]

/-- A session with one variable: a line that sets it, the line of its name and that of another. -/
theorem exists_evalLine_set_x : ∃ env,
    Session.evalLine "set x = true" .empty = .ok "true" env ∧
      Session.evalLine "x" env = .ok "true" env ∧
      Session.evalLine "y" env = .error (.eval (.unknownVariable "y")) env := by
  have hx : IsName "x" := isName_letter (c := 'x') rfl
  have hy : IsName "y" := isName_letter (c := 'y') rfl
  have hset : Program.source 1 [.declare "x" (.boolean true)] = "set x = true" := by
    decide +kernel
  have hread : Program.source 1 [.expr (.variable "x")] = "x" := by decide +kernel
  have hother : Program.source 1 [.expr (.variable "y")] = "y" := by decide +kernel
  refine ⟨⟨[("x", .boolean true)], by decide⟩, ?_, ?_, ?_⟩
  · rw [Session.evalLine_of_statement hset ⟨hx, trivial⟩]
    rfl
  · rw [Session.evalLine_of_statement hread hx]
    rfl
  · rw [Session.evalLine_of_statement hother hy]
    rfl

/-- Two lines succeed and are echoed, then line 4 fails. -/
theorem run_agrees_with_runScript_echo :
    let script := "set x = true\n\nx\ny"
    let arguments := ["-e", "--tokens", "--", script]
    let editor : Editor := ⟨fun _ _ => .error "not a terminal"⟩
    let pages : Pages := ⟨fun _ => "", fun _ => ""⟩
    let result := run editor pages arguments "" ⟨[]⟩
    Asks arguments ⟨[]⟩ { echo := true, tokens := true } script ∧ result.status = 1 ∧
      ∃ values env,
        Session.evalEach (SourceFile.code ⟨"", script⟩ (linesRun script)) .empty =
          .ok values env ∧
        result.output.out = String.join (values.map lineOf) := by
  intro script arguments editor pages result
  have hasks : Asks arguments ⟨[]⟩ { echo := true, tokens := true } script := ⟨script, rfl, rfl⟩
  have hanswer : LineCalc.runScript script = .error ⟨4, .eval (.unknownVariable "y")⟩ := by
    have hlines : Text.lines script = ["set x = true", "", "x", "y"] := by decide +kernel
    obtain ⟨env, hfirst, hthird, hlast⟩ := exists_evalLine_set_x
    unfold LineCalc.runScript Session.evalSource
    rw [hlines, Session.evalLines_cons_of_code (by decide +kernel), hfirst]
    simp only
    rw [Session.evalLines_cons_of_blank (by decide +kernel),
      Session.evalLines_cons_of_code (by decide +kernel), hthird]
    simp only
    rw [Session.evalLines_cons_of_code (by decide +kernel), hlast]
  obtain ⟨-, hagrees⟩ := run_agrees_with_runScript { echo := true, tokens := true } script
  obtain ⟨hstatus, -, hecho, -⟩ := hagrees editor pages arguments "" ⟨[]⟩ hasks
  rw [hanswer] at hstatus
  exact ⟨hasks, hstatus, hecho rfl⟩

end CommandLine

end LineCalc
