/-
  LineCalc/Proofs/Prompt.lean
  ===========================
  **The prompt and the script runner.**  The two go through lines in different ways: a
  script stops at the first line that fails, the prompt goes on from the variables which
  that line has left and stops at the line `exit`.  Up to the first failure they agree,
  so what a script with `--echo` prints is the beginning of what the prompt prints, and
  for a script that succeeds both print the same.

  This is said of the lines as they are read.  A script reads the lines of its text, the
  prompt those that its editor gives.  Of the editor it is assumed that it reads a pipe
  line by line and shows no prompt (`Editor.Piped`); a line in which there is a backspace
  it may change, as editors do, and then the two need not agree (`prompt_takes_back`).
-/
import LineCalc.Proofs.ScriptRunner
import LineCalc.Proofs.TextLines

namespace LineCalc

namespace Text

theorem trim_of_isBlank {line : String} (h : isBlank line = true) : trim line = "" := by
  have hall : ∀ c ∈ line.toList, isWhiteSpace c = true := List.all_eq_true.mp h
  unfold trim
  rw [List.dropWhile_eq_nil_iff.mpr hall]
  rfl

/-- The character of a key that takes back what was typed. -/
def backspace : Char := '\x08'

end Text

/-! ### A session that goes on after failures -/

/-- The values of the lines that succeed, each line evaluated with the variables that the
    line before it has left, whether that one failed or not. -/
def Session.valuesThrough (env : Env) : List String → List String
  | [] => []
  | line :: rest =>
    match evalLine line env with
    | .ok value mid => value :: valuesThrough mid rest
    | .error _ mid => valuesThrough mid rest

namespace CommandLine

/-! ### An editor that reads a pipe -/

/-- The lines of a text as an editor gives them. -/
def editedLines (edit : String → String) (text : String) : List String :=
  (Text.lines text).map edit

/-- The calls that give these lines and then the end of the input, with no prompt shown. -/
def callsOf (lines : List String) : List EditorCall :=
  lines.map (fun line => ⟨"", .line line⟩) ++ [⟨"", .endOfInput⟩]

/-- The editor reads a pipe: it starts, shows no prompt and gives the lines of the text up
    to the end of the input.  It may change a line that has a backspace in it, and none
    besides. -/
structure Editor.Piped (editor : Editor) (edit : String → String) : Prop where
  calls_eq (prompt text : String) :
    editor.calls prompt text = .ok (callsOf (editedLines edit text))
  edit_eq (line : String) (h : Text.backspace ∉ line.toList) : edit line = line

/-- Without a backspace the lines that the editor gives are those of the text. -/
theorem Editor.Piped.editedLines_eq {editor : Editor} {edit : String → String}
    (h : editor.Piped edit) {text : String} (htext : Text.backspace ∉ text.toList) :
    editedLines edit text = Text.lines text := by
  unfold editedLines
  refine (List.map_congr_left fun line hline => ?_).trans (List.map_id _)
  obtain ⟨cs, hcs, rfl⟩ := List.mem_map.mp hline
  apply h.edit_eq
  rw [String.toList_ofList]
  exact fun hmem => htext (Text.mem_of_mem_splitLines hcs hmem)

/-! ### One line at the prompt -/

/-- The line ends the prompt. -/
def isExit (line : String) : Bool := Text.trim line = exitCommand

variable {options : Options} {env : Env} {line : String} {rest lines : List String}

theorem turn_of_blank (h : Text.isBlank line = true) :
    turn options env (.line line) = .next {} env := by
  have htrim : Text.trim line ≠ exitCommand := by
    rw [Text.trim_of_isBlank h]
    decide
  rw [turn, if_neg htrim, if_pos h]

theorem turn_of_code (hexit : isExit line = false) (hcode : Text.isBlank line = false) :
    turn options env (.line line) =
      match Session.evalLine line env with
      | .ok value mid => .next ⟨lineOf value, (runLine options line env).shown⟩ mid
      | .error error mid =>
        .next ⟨"", (runLine options line env).shown ++ lineOf error.message⟩ mid := by
  have htrim : Text.trim line ≠ exitCommand := of_decide_eq_false hexit
  rw [turn, if_neg htrim, if_neg (by simp [hcode]), ← outcome_runLine options line env]
  simp only [LineRun.outcome]
  cases (runLine options line env).result <;> simp only

/-- What the prompt writes for these lines. -/
def promptLines (options : Options) (env : Env) (lines : List String) : Output :=
  promptCalls options env (callsOf lines)

theorem promptLines_cons_of_last {output : Output}
    (h : turn options env (.line line) = .last output) :
    promptLines options env (line :: rest) = output := by
  have hcalls : callsOf (line :: rest) = ⟨"", .line line⟩ :: callsOf rest := rfl
  rw [promptLines, hcalls, promptCalls]
  simp only [h, Output.append, String.empty_append]

theorem promptLines_cons_of_next {output : Output} {mid : Env}
    (h : turn options env (.line line) = .next output mid) :
    promptLines options env (line :: rest) = output.append (promptLines options mid rest) := by
  have hcalls : callsOf (line :: rest) = ⟨"", .line line⟩ :: callsOf rest := rfl
  rw [promptLines, hcalls, promptCalls]
  simp only [h, Output.append, String.empty_append]
  rfl

theorem promptLines_cons_of_exit (h : isExit line = true) :
    promptLines options env (line :: rest) = {} := by
  have htrim : Text.trim line = exitCommand := of_decide_eq_true h
  exact promptLines_cons_of_last (by rw [turn, if_pos htrim])

theorem promptLines_cons_of_blank (h : Text.isBlank line = true) :
    promptLines options env (line :: rest) = promptLines options env rest := by
  rw [promptLines_cons_of_next (turn_of_blank h)]
  simp only [Output.append, String.empty_append]

theorem promptLines_cons_of_code (hexit : isExit line = false)
    (hcode : Text.isBlank line = false) :
    promptLines options env (line :: rest) =
      match Session.evalLine line env with
      | .ok value mid =>
        Output.append ⟨lineOf value, (runLine options line env).shown⟩
          (promptLines options mid rest)
      | .error error mid =>
        Output.append ⟨"", (runLine options line env).shown ++ lineOf error.message⟩
          (promptLines options mid rest) := by
  have hturn : turn options env (.line line) = _ := turn_of_code hexit hcode
  cases hline : Session.evalLine line env with
  | ok value mid =>
    rw [hline] at hturn
    exact promptLines_cons_of_next hturn
  | error error mid =>
    rw [hline] at hturn
    exact promptLines_cons_of_next hturn

/-! ### What the prompt writes -/

/-- The prompt prints the values of one session that goes on after failures. -/
theorem out_promptLines (h : ∀ line ∈ lines, isExit line = false) :
    (promptLines options env lines).out =
      String.join ((Session.valuesThrough env (Text.codeOf lines)).map lineOf) := by
  induction lines generalizing env with
  | nil => rfl
  | cons line rest ih =>
    obtain ⟨hexit, hrest⟩ := List.forall_mem_cons.mp h
    cases hblank : Text.isBlank line with
    | true =>
      rw [promptLines_cons_of_blank hblank, Text.codeOf_cons_of_blank hblank, ih hrest]
    | false =>
      rw [promptLines_cons_of_code hexit hblank, Text.codeOf_cons_of_code hblank,
        Session.valuesThrough]
      cases Session.evalLine line env with
      | ok value mid => simp [Output.append, ih hrest]
      | error error mid => simp [Output.append, ih hrest]

/-- Nothing after the line that ends the prompt is read. -/
theorem promptLines_takeWhile :
    promptLines options env (lines.takeWhile (!isExit ·)) = promptLines options env lines := by
  induction lines generalizing env with
  | nil => rfl
  | cons line rest ih =>
    cases hexit : isExit line with
    | true =>
      rw [List.takeWhile_cons_of_neg (by simp [hexit]), promptLines_cons_of_exit hexit]
      rfl
    | false =>
      rw [List.takeWhile_cons_of_pos (by simp [hexit])]
      cases hturn : turn options env (.line line) with
      | last output => rw [promptLines_cons_of_last hturn, promptLines_cons_of_last hturn]
      | next output mid => rw [promptLines_cons_of_next hturn, promptLines_cons_of_next hturn, ih]

/-! ### The prompt and scripts -/

/-- What a line shows depends on `--tokens` and `--ast` alone. -/
theorem runLine_congr {options options' : Options} (htokens : options.tokens = options'.tokens)
    (hast : options.ast = options'.ast) (line : String) (env : Env) :
    runLine options line env = runLine options' line env := by
  simp only [runLine, runParsed, htokens, hast]

/-- Run on the same lines, the prompt begins with what the script prints, and writes what
    the script writes if no line fails. -/
theorem promptLines_extends_runLines {script prompt : Options} (hecho : script.echo = true)
    (htokens : script.tokens = prompt.tokens) (hast : script.ast = prompt.ast)
    (h : ∀ line ∈ lines, isExit line = false) (number : Nat) (env : Env)
    (last : Option String) :
    (∃ more, (promptLines prompt env lines).out =
        (runLines script number env last lines).output.out ++ more) ∧
      ((runLines script number env last lines).status = 0 →
        (runLines script number env last lines).output = promptLines prompt env lines) := by
  induction lines generalizing number env last with
  | nil =>
    have hnothing : (runLines script number env last []).output = {} := by
      cases last <;> simp [runLines, hecho]
    rw [hnothing]
    exact ⟨⟨"", rfl⟩, fun _ => rfl⟩
  | cons line rest ih =>
    obtain ⟨hexit, hrest⟩ := List.forall_mem_cons.mp h
    cases hblank : Text.isBlank line with
    | true =>
      rw [promptLines_cons_of_blank hblank, runLines_cons_of_blank hblank]
      exact ih hrest (number + 1) env last
    | false =>
      rw [promptLines_cons_of_code hexit hblank, runLines_cons_of_code hblank,
        runLine_congr htokens hast]
      cases Session.evalLine line env with
      | error error mid =>
        -- the script ends here with nothing more printed, and with status 1
        exact ⟨⟨_, (String.empty_append).symm⟩, fun hstatus => absurd hstatus (by simp)⟩
      | ok value mid =>
        obtain ⟨⟨more, hmore⟩, hequal⟩ := ih hrest (number + 1) mid (some value)
        simp only [hecho, if_true, Output.append]
        refine ⟨⟨more, by rw [hmore, String.append_assoc]⟩, fun hstatus => ?_⟩
        rw [hequal hstatus]

/-- From a pipe the prompt starts, reads the lines that the editor gives and ends well. -/
theorem Editor.Piped.runPrompt_eq {editor : Editor} {edit : String → String}
    (h : editor.Piped edit) (options : Options) (input : String) :
    runPrompt editor options input = ⟨0, promptLines options .empty (editedLines edit input)⟩ := by
  rw [runPrompt, h.calls_eq]
  rfl

theorem run_prompt {arguments : List String} {options : Options}
    (h : Options.ofArguments arguments = .ok options) (hcontents : options.contents = none)
    (editor : Editor) (pages : Pages) (input : String) (dir : Directory) :
    run editor pages arguments input dir = runPrompt editor options input := by
  simp only [run, h, hcontents]

/-- What comes before the first line that, as the editor gives it, ends the prompt. -/
def BeforeExit (edit : String → String) (text before : String) : Prop :=
  ∃ rest line more, text = before ++ rest ∧
    editedLines edit text = editedLines edit before ++ line :: more ∧
    editedLines edit rest = line :: more ∧ isExit line = true ∧
    ∀ line ∈ editedLines edit before, isExit line = false

theorem exists_beforeExit {edit : String → String} {text : String}
    (h : ∃ line ∈ editedLines edit text, isExit line = true) :
    ∃ before, BeforeExit edit text before := by
  let keep : String → Bool := fun line => !isExit line
  let kept := (editedLines edit text).takeWhile keep
  let others := (editedLines edit text).dropWhile keep
  have hsplit : editedLines edit text = kept ++ others := List.takeWhile_append_dropWhile.symm
  have hsplit' : (Text.lines text).map edit = kept ++ others := hsplit
  obtain ⟨before, rest, htext, hbefore, hrest⟩ := Text.exists_lines_cut text kept.length
  have hkept : editedLines edit before = kept := by
    rw [editedLines, hbefore, List.map_take, hsplit', List.take_left]
  have hothers : editedLines edit rest = others := by
    rw [editedLines, hrest, List.map_drop, hsplit', List.drop_left]
  cases hdrop : others with
  | nil =>
    -- then no line ends the prompt
    obtain ⟨line, hmem, hexit⟩ := h
    have hkeep : keep line = true := List.dropWhile_eq_nil_iff.mp hdrop line hmem
    simp [keep, hexit] at hkeep
  | cons line more =>
    refine ⟨before, rest, line, more, htext, ?_, hothers.trans hdrop, ?_, ?_⟩
    · rw [hkept, ← hdrop, hsplit]
    · have hhead := List.head?_dropWhile_not keep (editedLines edit text)
      rw [show (editedLines edit text).dropWhile keep = line :: more from hdrop] at hhead
      simpa [keep] using hhead
    · rw [hkept]
      intro other hmem
      simpa [keep] using List.mem_takeWhile_imp hmem

theorem promptLines_of_beforeExit {edit : String → String} {text before : String}
    (h : BeforeExit edit text before) :
    promptLines options env (editedLines edit before) =
      promptLines options env (editedLines edit text) := by
  obtain ⟨rest, line, more, -, hlines, -, hexit, hbefore⟩ := h
  have htake : (editedLines edit text).takeWhile (!isExit ·) = editedLines edit before := by
    rw [hlines, List.takeWhile_append_of_pos (by simpa using hbefore),
      List.takeWhile_cons_of_neg (by simp [hexit]), List.append_nil]
  rw [← htake, promptLines_takeWhile]

/-- **The prompt and scripts agree.**  From a pipe the prompt ends with status 0 and prints the
    values of the lines that the editor gives, in one session that goes on after failures, up to
    the line that ends it.  Where the text has no backspace and no line ends the prompt, what the
    script of the same text prints with `--echo` is the beginning of that, and all of it, on both
    outputs, if the script succeeds. -/
theorem prompt_agrees_with_script (tokens ast : Bool) {editor : Editor} {edit : String → String}
    (hpiped : editor.Piped edit) (pages : Pages) (text : String) :
    let dumps : Options := { tokens := tokens, ast := ast }
    let echoed : Options := { file := true, echo := true, tokens := tokens, ast := ast }
    let typed := editedLines edit text
    (∃ arguments, Options.ofArguments arguments = .ok dumps) ∧
    (∃ arguments dir, Asks arguments dir echoed text) ∧
    ∀ arguments dir, Options.ofArguments arguments = .ok dumps →
      let prompt := run editor pages arguments text dir
      prompt.status = 0 ∧
      ((∀ line ∈ typed, isExit line = false) →
        prompt.output.out =
          String.join ((Session.valuesThrough .empty (Text.codeOf typed)).map lineOf)) ∧
      ((∃ line ∈ typed, isExit line = true) → ∃ before, BeforeExit edit text before) ∧
      (∀ before, BeforeExit edit text before →
        run editor pages arguments before dir = prompt) ∧
      (Text.backspace ∉ text.toList → (∀ line ∈ Text.lines text, isExit line = false) →
        ∀ arguments' input dir', Asks arguments' dir' echoed text →
          let script := run editor pages arguments' input dir'
          (∃ more, prompt.output.out = script.output.out ++ more) ∧
            (script.status = 0 → script.output = prompt.output)) := by
  intro dumps echoed typed
  refine ⟨⟨dumps.words, ?_⟩, exists_asks echoed text, ?_⟩
  · cases tokens <;> cases ast <;> rfl
  intro arguments dir harguments prompt
  have hrun : ∀ input, run editor pages arguments input dir =
      ⟨0, promptLines dumps .empty (editedLines edit input)⟩ := by
    intro input
    rw [run_prompt harguments rfl, hpiped.runPrompt_eq]
  have hprompt : prompt = ⟨0, promptLines dumps .empty typed⟩ := hrun text
  refine ⟨by rw [hprompt], ?_, exists_beforeExit, ?_, ?_⟩
  · intro hexit
    rw [hprompt]
    exact out_promptLines hexit
  · intro before hbefore
    rw [hprompt, hrun, promptLines_of_beforeExit hbefore]
  · intro hbackspace hexit arguments' input dir' hasks script
    obtain ⟨contents, hscript⟩ := run_of_asks hasks editor pages input
    let options : Options := { echoed with contents := some contents }
    have hscript' : script = runScript options text := hscript
    have htyped : typed = Text.lines text := hpiped.editedLines_eq hbackspace
    have htokens : options.tokens = dumps.tokens := rfl
    have hast : options.ast = dumps.ast := rfl
    rw [hprompt, hscript', runScript, htyped]
    exact promptLines_extends_runLines rfl htokens hast hexit 1 .empty none

/-! ### Two editors -/

/-- An editor that reads a pipe and changes lines in this way. -/
def pipeEditor (edit : String → String) : Editor :=
  ⟨fun _ input => .ok (callsOf (editedLines edit input))⟩

theorem piped_pipeEditor {edit : String → String}
    (h : ∀ line, Text.backspace ∉ line.toList → edit line = line) :
    (pipeEditor edit).Piped edit :=
  ⟨fun _ _ => rfl, h⟩

/-- Nothing is said about the arguments. -/
def noPages : Pages := ⟨fun _ => "", fun _ => ""⟩

/-- The third line fails, which ends the script; the prompt goes on to the fourth. -/
theorem prompt_agrees_with_script_after_failure :
    let text := "set x = true\n\ny\nx"
    let dir : Directory := ⟨[("s", text.toUTF8)]⟩
    let prompt := run (pipeEditor id) noPages ["--tokens"] text dir
    let script := run (pipeEditor id) noPages ["-fe", "--tokens", "s"] "" dir
    (pipeEditor id).Piped id ∧ prompt.status = 0 ∧ prompt.output.out = "true\ntrue\n" ∧
      ∃ more, prompt.output.out = script.output.out ++ more := by
  intro text dir prompt script
  have hpiped : (pipeEditor id).Piped id := piped_pipeEditor fun _ _ => rfl
  have hbackspace : Text.backspace ∉ text.toList := by decide +kernel
  have hlines : Text.lines text = ["set x = true", "", "y", "x"] := by decide +kernel
  have htyped : editedLines id text = ["set x = true", "", "y", "x"] := by
    rw [hpiped.editedLines_eq hbackspace, hlines]
  have hexit : ∀ line ∈ ["set x = true", "", "y", "x"], isExit line = false := by decide +kernel
  have hvalues : Session.valuesThrough .empty (Text.codeOf ["set x = true", "", "y", "x"]) =
      ["true", "true"] := by
    have hcode : Text.codeOf ["set x = true", "", "y", "x"] = ["set x = true", "y", "x"] := by
      decide +kernel
    obtain ⟨env, hfirst, hlast, hthird⟩ := exists_evalLine_set_x
    simp only [hcode, Session.valuesThrough, hfirst, hthird, hlast]
  have hasks : Asks ["-fe", "--tokens", "s"] dir { file := true, echo := true, tokens := true }
      text := ⟨"s", rfl, read_single text⟩
  obtain ⟨-, -, hagrees⟩ := prompt_agrees_with_script true false hpiped noPages text
  obtain ⟨hstatus, hout, -, -, hscript⟩ := hagrees ["--tokens"] dir rfl
  refine ⟨hpiped, hstatus, ?_, (hscript hbackspace (hlines ▸ hexit) _ "" dir hasks).1⟩
  rw [hout (htyped ▸ hexit), htyped, hvalues]
  rfl

/-- One more character of a line that is kept with its last character first; a backspace takes
    one back. -/
def stroke (kept : List Char) (c : Char) : List Char :=
  if c = Text.backspace then kept.tail else c :: kept

/-- What backspaces leave of a line. -/
def takeBack (line : String) : String := String.ofList (line.toList.foldl stroke []).reverse

theorem foldl_stroke {cs : List Char} (h : Text.backspace ∉ cs) (kept : List Char) :
    cs.foldl stroke kept = cs.reverse ++ kept := by
  induction cs generalizing kept with
  | nil => rfl
  | cons c cs ih =>
    obtain ⟨hc, hcs⟩ : Text.backspace ≠ c ∧ Text.backspace ∉ cs := by simpa using h
    rw [List.foldl_cons, stroke, if_neg hc.symm, ih hcs, List.reverse_cons, List.append_assoc]
    rfl

theorem takeBack_eq_self {line : String} (h : Text.backspace ∉ line.toList) :
    takeBack line = line := by
  rw [takeBack, foldl_stroke h, List.append_nil, List.reverse_reverse, String.ofList_toList]

theorem evalLine_quoted {line text : String} (h : Program.source 1 [.expr (.string text)] = line)
    (hnul : '\x00' ∉ text.toList) (hlast : text.toList.getLast? ≠ some '\\') (env : Env) :
    Session.evalLine line env = .ok text env := by
  rw [Session.evalLine_of_statement h ⟨hnul, hlast⟩]
  rfl

/-- An editor that reads a pipe line by line may take back the `b` of this text, while the script
    prints it as it is: here the script succeeds and the prompt does not begin with what it
    prints. -/
theorem prompt_takes_back :
    let text := "\"ab\x08c\""
    let dir : Directory := ⟨[("s", text.toUTF8)]⟩
    let prompt := run (pipeEditor takeBack) noPages [] text dir
    let script := run (pipeEditor takeBack) noPages ["-fe", "s"] "" dir
    (pipeEditor takeBack).Piped takeBack ∧ (∀ line ∈ Text.lines text, isExit line = false) ∧
      Asks ["-fe", "s"] dir { file := true, echo := true } text ∧
      script = ⟨0, ⟨"ab\x08c\n", ""⟩⟩ ∧ prompt = ⟨0, ⟨"ac\n", ""⟩⟩ ∧
      ¬ ∃ more, prompt.output.out = script.output.out ++ more := by
  intro text dir prompt script
  let taken := "\"ac\""
  have hpiped : (pipeEditor takeBack).Piped takeBack := piped_pipeEditor fun _ => takeBack_eq_self
  have hlines : Text.lines text = [text] := by decide +kernel
  have htyped : editedLines takeBack text = [taken] := by decide +kernel
  have hexit : isExit text = false := by decide +kernel
  have hasks : Asks ["-fe", "s"] dir { file := true, echo := true } text :=
    ⟨"s", rfl, read_single text⟩
  have hscript : script = ⟨0, ⟨"ab\x08c\n", ""⟩⟩ := by
    have hvalue : Session.evalLine text .empty = .ok "ab\x08c" .empty :=
      evalLine_quoted (by decide +kernel) (by decide +kernel) (by decide +kernel) .empty
    obtain ⟨contents, hrun⟩ := run_of_asks hasks (pipeEditor takeBack) noPages ""
    have hrun' : script = _ := hrun
    rw [hrun', runScript, hlines, runLines_cons_of_code (by decide +kernel), hvalue,
      shown_runLine ⟨rfl, rfl⟩]
    rfl
  have hprompt : prompt = ⟨0, ⟨"ac\n", ""⟩⟩ := by
    have hvalue : Session.evalLine taken .empty = .ok "ac" .empty :=
      evalLine_quoted (by decide +kernel) (by decide +kernel) (by decide +kernel) .empty
    have hrun : prompt = runPrompt (pipeEditor takeBack) {} text := rfl
    rw [hrun, hpiped.runPrompt_eq, htyped,
      promptLines_cons_of_code (by decide +kernel) (by decide +kernel), hvalue,
      shown_runLine ⟨rfl, rfl⟩]
    rfl
  refine ⟨hpiped, ?_, hasks, hscript, hprompt, ?_⟩
  · rw [hlines]
    exact List.forall_mem_singleton.mpr hexit
  · rw [hscript, hprompt]
    rintro ⟨more, hmore⟩
    -- the second characters differ
    have hsecond := congrArg (fun s => s.toList[1]?) hmore
    simp at hsecond

end CommandLine

end LineCalc
