/-
  LineCalc/Proofs/ScriptLines.lean
  ================================
  **Scripts, line by line.**  A script counts its lines while it runs them and leaves the
  blank ones out; a source file finds a line by its number.  The two agree: a script
  fails exactly where the lines of its source file, evaluated one after another, first
  fail, with the number of that line, its error and the variables it leaves.  It
  succeeds exactly when they all do, with the last of their values.
-/
import LineCalc.Proofs.LineErrors
import LineCalc.Proofs.Variables
import LineCalc.SourceFile

namespace LineCalc

/-! ### The code of a source file -/

/-- The lines that hold code: those that are not blank. -/
def Text.codeOf (lines : List String) : List String :=
  lines.filter fun line => !isBlank line

namespace Text

theorem codeOf_cons_of_blank {line : String} (h : isBlank line = true) (rest : List String) :
    codeOf (line :: rest) = codeOf rest :=
  List.filter_cons_of_neg (by simp [h])

theorem codeOf_cons_of_code {line : String} (h : isBlank line = false) (rest : List String) :
    codeOf (line :: rest) = line :: codeOf rest :=
  List.filter_cons_of_pos (by simp [h])

end Text

/-- The lines numbered from 1 to `n` that are not blank, in order. -/
def SourceFile.code (file : SourceFile) (n : Nat) : List String :=
  (List.range' 1 n).filterMap fun number =>
    (file.line number).toOption.filter fun line => !Text.isBlank line

namespace SourceFile

theorem line_eq_ok_iff {file : SourceFile} {number : Nat} {line : String} :
    file.line number = .ok line ↔
      ∃ index, number = index + 1 ∧ (Text.lines file.text)[index]? = some line := by
  cases number with
  | zero => simp [SourceFile.line]
  | succ index =>
    simp only [SourceFile.line]
    cases hindex : (Text.lines file.text)[index]? <;> simp [hindex]

theorem bounds_of_line {file : SourceFile} {number : Nat} {line : String}
    (h : file.line number = .ok line) : 1 ≤ number ∧ number ≤ file.lineCount := by
  obtain ⟨index, rfl, hindex⟩ := line_eq_ok_iff.mp h
  obtain ⟨hlt, -⟩ := List.getElem?_eq_some_iff.mp hindex
  exact ⟨Nat.le_add_left 1 index, hlt⟩

theorem toOption_line (file : SourceFile) (index : Nat) :
    (file.line (index + 1)).toOption = (Text.lines file.text)[index]? := by
  simp only [SourceFile.line]
  cases (Text.lines file.text)[index]? <;> rfl

theorem code_eq (file : SourceFile) (n : Nat) :
    file.code n = Text.codeOf ((Text.lines file.text).take n) := by
  induction n with
  | zero => rfl
  | succ n ih =>
    unfold code Text.codeOf at ih ⊢
    rw [List.range'_1_concat, List.filterMap_append, ih, List.take_add_one, List.filter_append,
      Nat.add_comm 1 n]
    congr 1
    simp only [List.filterMap_cons, List.filterMap_nil, toOption_line]
    cases (Text.lines file.text)[n]? with
    | none => rfl
    | some line =>
      by_cases hblank : Text.isBlank line
      · simp [Option.filter, hblank]
      · simp [Option.filter, hblank]

theorem code_lineCount (file : SourceFile) :
    file.code file.lineCount = Text.codeOf (Text.lines file.text) := by
  rw [code_eq, lineCount, List.take_length]

theorem code_lineCount_eq_nil_iff (file : SourceFile) :
    file.code file.lineCount = [] ↔
      ∀ number line, file.line number = .ok line → Text.isBlank line := by
  rw [code_lineCount, Text.codeOf, List.filter_eq_nil_iff]
  constructor
  · intro h number line hline
    obtain ⟨index, -, hindex⟩ := line_eq_ok_iff.mp hline
    simpa using h line (List.mem_of_getElem? hindex)
  · intro h line hmem
    obtain ⟨index, hindex⟩ := List.getElem?_of_mem hmem
    simpa using h (index + 1) line (line_eq_ok_iff.mpr ⟨index, rfl, hindex⟩)

end SourceFile

namespace Session

/-! ### Lines one after another -/

/-- The values of lines that are evaluated one after another. -/
def evalEach (lines : List String) : Session LineError (List String) := lines.mapM evalLine

variable {number N : Nat} {line : String} {lines rest values : List String}
  {last value : Option String} {env env' : Env} {e : LineError}

theorem evalEach_nil_eq_ok_iff : evalEach [] env = .ok values env' ↔ values = [] ∧ env' = env := by
  have hnil : evalEach [] env = .ok [] env := rfl
  rw [hnil, EStateM.Result.ok.injEq, eq_comm, eq_comm (a := env)]

theorem evalEach_cons_eq_ok_iff :
    evalEach (line :: rest) env = .ok values env' ↔
      ∃ v vs mid, evalLine line env = .ok v mid ∧ evalEach rest mid = .ok vs env' ∧
        values = v :: vs := by
  unfold evalEach
  rw [List.mapM_cons]
  constructor
  · intro h
    obtain ⟨v, mid, hline, hrest⟩ := bind_eq_ok_iff.mp h
    obtain ⟨vs, next, heach, hpure⟩ := bind_eq_ok_iff.mp hrest
    cases hpure
    exact ⟨v, vs, mid, hline, heach, rfl⟩
  · rintro ⟨v, vs, mid, hline, heach, rfl⟩
    rw [bind_of_ok hline, bind_of_ok heach]
    rfl

theorem length_of_evalEach (h : evalEach lines env = .ok values env') :
    values.length = lines.length := by
  induction lines generalizing env values with
  | nil =>
    rw [(evalEach_nil_eq_ok_iff.mp h).1]
  | cons line rest ih =>
    obtain ⟨v, vs, mid, -, hrest, rfl⟩ := evalEach_cons_eq_ok_iff.mp h
    rw [List.length_cons, List.length_cons, ih hrest]

/-! ### The lines of a script -/

theorem evalLines_cons_of_blank (h : Text.isBlank line = true) :
    evalLines number last (line :: rest) = evalLines (number + 1) last rest := by
  rw [evalLines, if_pos h]

theorem evalLines_cons_of_code (h : Text.isBlank line = false) :
    evalLines number last (line :: rest) env =
      match evalLine line env with
      | .ok v mid => evalLines (number + 1) (some v) rest mid
      | .error error mid => .error ⟨number, error⟩ mid := by
  rw [evalLines, if_neg (by simp [h])]
  simp only [Bind.bind, EStateM.bind, evalNumbered]
  cases evalLine line env <;> rfl

/-- The lines before, when they succeed, only move the number, the last value and the
    variables on. -/
theorem evalLines_append {before : List String} {mid : Env}
    (h : evalEach (Text.codeOf before) env = .ok values mid) :
    evalLines number last (before ++ rest) env =
      evalLines (number + before.length) (values.getLast?.or last) rest mid := by
  induction before generalizing number last env values with
  | nil =>
    obtain ⟨rfl, rfl⟩ := evalEach_nil_eq_ok_iff.mp h
    rfl
  | cons line before ih =>
    rw [List.cons_append, List.length_cons, Nat.add_comm before.length, ← Nat.add_assoc]
    cases hblank : Text.isBlank line with
    | true =>
      rw [Text.codeOf_cons_of_blank hblank] at h
      rw [evalLines_cons_of_blank hblank, ih h]
    | false =>
      rw [Text.codeOf_cons_of_code hblank] at h
      obtain ⟨v, vs, next, hline, hrest, rfl⟩ := evalEach_cons_eq_ok_iff.mp h
      rw [evalLines_cons_of_code hblank, hline]
      simp only
      rw [ih hrest, List.getLast?_cons]
      cases vs.getLast? <;> rfl

/-- Either all the code of a script succeeds, or there is a first line that fails. -/
theorem evalEach_codeOf_cases (lines : List String) (env : Env) :
    (∃ values env', evalEach (Text.codeOf lines) env = .ok values env') ∨
    ∃ before line rest values mid e env', lines = before ++ line :: rest ∧
      Text.isBlank line = false ∧ evalEach (Text.codeOf before) env = .ok values mid ∧
      evalLine line mid = .error e env' := by
  induction lines generalizing env with
  | nil => exact .inl ⟨[], env, rfl⟩
  | cons first lines ih =>
    cases hblank : Text.isBlank first with
    | true =>
      rw [Text.codeOf_cons_of_blank hblank]
      rcases ih env with hall | ⟨before, line, rest, values, mid, e, env', rfl, hcode, heach, hfails⟩
      · exact .inl hall
      · refine .inr ⟨first :: before, line, rest, values, mid, e, env', rfl, hcode, ?_, hfails⟩
        rw [Text.codeOf_cons_of_blank hblank]
        exact heach
    | false =>
      cases hfirst : evalLine first env with
      | error e env' =>
        exact .inr ⟨[], first, lines, [], env, e, env', rfl, hblank, rfl, hfirst⟩
      | ok v next =>
        rcases ih next with ⟨values, env', hall⟩ |
          ⟨before, line, rest, values, mid, e, env', rfl, hcode, heach, hfails⟩
        · refine .inl ⟨v :: values, env', ?_⟩
          rw [Text.codeOf_cons_of_code hblank]
          exact evalEach_cons_eq_ok_iff.mpr ⟨v, values, next, hfirst, hall, rfl⟩
        · refine .inr ⟨first :: before, line, rest, v :: values, mid, e, env', rfl, hcode, ?_,
            hfails⟩
          rw [Text.codeOf_cons_of_code hblank]
          exact evalEach_cons_eq_ok_iff.mpr ⟨v, values, next, hfirst, heach, rfl⟩

theorem evalLines_of_evalEach (h : evalEach (Text.codeOf lines) env = .ok values env') :
    evalLines number last lines env = .ok (values.getLast?.or last) env' := by
  have happend : evalLines number last (lines ++ []) env = _ := evalLines_append h
  rw [List.append_nil] at happend
  exact happend

theorem evalLines_of_failing {before : List String} {mid : Env}
    (hcode : Text.isBlank line = false)
    (heach : evalEach (Text.codeOf before) env = .ok values mid)
    (hfails : evalLine line mid = .error e env') :
    evalLines number last (before ++ line :: rest) env =
      .error ⟨number + before.length, e⟩ env' := by
  rw [evalLines_append heach, evalLines_cons_of_code hcode, hfails]

/-- A script succeeds when its code does, with the last value. -/
theorem evalLines_eq_ok_iff :
    evalLines number last lines env = .ok value env' ↔
      ∃ values, evalEach (Text.codeOf lines) env = .ok values env' ∧
        value = values.getLast?.or last := by
  constructor
  · intro h
    rcases evalEach_codeOf_cases lines env with ⟨values, next, hall⟩ |
      ⟨before, line, rest, values, mid, e, next, rfl, hcode, heach, hfails⟩
    · rw [evalLines_of_evalEach hall] at h
      cases h
      exact ⟨values, hall, rfl⟩
    · rw [evalLines_of_failing hcode heach hfails] at h
      cases h
  · rintro ⟨values, hall, rfl⟩
    exact evalLines_of_evalEach hall

/-- A script fails with the first line of its code that fails. -/
theorem evalLines_eq_error_iff :
    evalLines number last lines env = .error ⟨N, e⟩ env' ↔
      ∃ before line rest values mid, lines = before ++ line :: rest ∧
        N = number + before.length ∧ Text.isBlank line = false ∧
        evalEach (Text.codeOf before) env = .ok values mid ∧
        evalLine line mid = .error e env' := by
  constructor
  · intro h
    rcases evalEach_codeOf_cases lines env with ⟨values, next, hall⟩ |
      ⟨before, line, rest, values, mid, e, next, rfl, hcode, heach, hfails⟩
    · rw [evalLines_of_evalEach hall] at h
      cases h
    · rw [evalLines_of_failing hcode heach hfails] at h
      cases h
      exact ⟨before, line, rest, values, mid, rfl, rfl, hcode, heach, hfails⟩
  · rintro ⟨before, line, rest, values, mid, rfl, rfl, hcode, heach, hfails⟩
    exact evalLines_of_failing hcode heach hfails

/-! ### Scripts and source files -/

theorem evalSource_eq_error_iff (file : SourceFile) :
    evalSource file.text env = .error ⟨N, e⟩ env' ↔
      ∃ line values mid, file.line N = .ok line ∧ Text.isBlank line = false ∧
        evalEach (file.code (N - 1)) env = .ok values mid ∧ evalLine line mid = .error e env' := by
  unfold evalSource
  rw [evalLines_eq_error_iff]
  constructor
  · rintro ⟨before, line, rest, values, mid, hlines, rfl, hcode, heach, hfails⟩
    refine ⟨line, values, mid, ?_, hcode, ?_, hfails⟩
    · refine SourceFile.line_eq_ok_iff.mpr ⟨before.length, Nat.add_comm 1 _, ?_⟩
      rw [hlines, List.getElem?_append_right (Nat.le_refl _), Nat.sub_self, List.getElem?_cons_zero]
    · rw [Nat.add_sub_cancel_left, SourceFile.code_eq, hlines, List.take_left]
      exact heach
  · rintro ⟨line, values, mid, hline, hcode, heach, hfails⟩
    -- the line found by its number splits the text at its index
    obtain ⟨index, rfl, hindex⟩ := SourceFile.line_eq_ok_iff.mp hline
    rw [Nat.add_sub_cancel, SourceFile.code_eq] at heach
    obtain ⟨hlt, rfl⟩ := List.getElem?_eq_some_iff.mp hindex
    refine ⟨_, _, (Text.lines file.text).drop (index + 1), values, mid, ?_, ?_, hcode, heach,
      hfails⟩
    · rw [← List.drop_eq_getElem_cons hlt, List.take_append_drop]
    · rw [List.length_take, Nat.min_eq_left (Nat.le_of_lt hlt), Nat.add_comm]

theorem evalSource_eq_ok_iff (file : SourceFile) :
    evalSource file.text env = .ok value env' ↔
      ∃ values, evalEach (file.code file.lineCount) env = .ok values env' ∧
        value = values.getLast? := by
  unfold evalSource
  rw [evalLines_eq_ok_iff, SourceFile.code_lineCount]
  simp only [Option.or_none]

/-- **Scripts fail at the line they name.**  The error of a script carries the number of
    a line of its source file, the first that fails when the lines before it have been
    evaluated one after another; a script that succeeds has evaluated them all, and has
    no value only if all are blank. -/
theorem evalSource_names_failing_line (path source : String) (env : Env) :
    let file : SourceFile := ⟨path, source⟩
    (∀ N e env', evalSource source env = .error ⟨N, e⟩ env' ↔
      1 ≤ N ∧ N ≤ file.lineCount ∧ ∃ line values mid,
        file.line N = .ok line ∧ Text.isBlank line = false ∧
        evalEach (file.code (N - 1)) env = .ok values mid ∧
        evalLine line mid = .error e env') ∧
    (∀ value env', evalSource source env = .ok value env' ↔
      ∃ values, evalEach (file.code file.lineCount) env = .ok values env' ∧
        value = values.getLast?) ∧
    (∀ env', evalSource source env = .ok none env' ↔
      env' = env ∧ ∀ number line, file.line number = .ok line → Text.isBlank line) := by
  intro file
  refine ⟨?_, ?_, ?_⟩
  · intro N e env'
    constructor
    · intro h
      obtain ⟨line, values, mid, hline, hrest⟩ := (evalSource_eq_error_iff file).mp h
      have hN := SourceFile.bounds_of_line hline
      exact ⟨hN.1, hN.2, line, values, mid, hline, hrest⟩
    · rintro ⟨-, -, h⟩
      exact (evalSource_eq_error_iff file).mpr h
  · intro value env'
    exact evalSource_eq_ok_iff file
  · intro env'
    rw [← SourceFile.code_lineCount_eq_nil_iff]
    constructor
    · intro h
      obtain ⟨values, heach, hnone⟩ := (evalSource_eq_ok_iff file).mp h
      -- no last value means no values, and there is one for each line of code
      have hvalues : values = [] := List.getLast?_eq_none_iff.mp hnone.symm
      have hcode : file.code file.lineCount = [] := by
        rw [← List.length_eq_zero_iff, ← length_of_evalEach heach, hvalues, List.length_nil]
      rw [hcode] at heach
      exact ⟨(evalEach_nil_eq_ok_iff.mp heach).2, hcode⟩
    · rintro ⟨rfl, hcode⟩
      refine (evalSource_eq_ok_iff file).mpr ⟨[], ?_, rfl⟩
      rw [hcode]
      rfl

/-- Line 4 of this text fails, after a line with a carriage return, an empty line and one
    with a blank; it has no line end of its own. -/
theorem evalSource_names_fourth_line :
    let source := "set x = true\r\n\n \n(x = y)"
    let env' : Env := ⟨[("x", .boolean true)], by decide⟩
    evalSource source .empty = .error ⟨4, .eval (.unknownVariable "y")⟩ env' ∧
      (∃ line values mid, SourceFile.line ⟨"a", source⟩ 4 = .ok line ∧
        Text.isBlank line = false ∧
        evalEach (SourceFile.code ⟨"a", source⟩ 3) .empty = .ok values mid ∧
        evalLine line mid = .error (.eval (.unknownVariable "y")) env') := by
  intro source env'
  have hx : IsName "x" := isName_letter (c := 'x') rfl
  have hy : IsName "y" := isName_letter (c := 'y') rfl
  have hfirst : evalLine "set x = true" .empty = .ok "true" env' := by
    have hsource : Program.source 1 [.declare "x" (.boolean true)] = "set x = true" := by
      decide +kernel
    rw [evalLine_of_statement hsource ⟨hx, trivial⟩]
    rfl
  have hlast : evalLine "(x = y)" env' = .error (.eval (.unknownVariable "y")) env' := by
    have hsource : Program.source 1 [.expr (.assign "x" (.variable "y"))] = "(x = y)" := by
      decide +kernel
    rw [evalLine_of_statement hsource ⟨hx, hy⟩]
    rfl
  have hlines : Text.lines source = ["set x = true", "", " ", "(x = y)"] := by decide +kernel
  have hfails : evalSource source .empty = .error ⟨4, .eval (.unknownVariable "y")⟩ env' := by
    unfold evalSource
    rw [hlines, evalLines_cons_of_code (by decide +kernel), hfirst]
    simp only
    rw [evalLines_cons_of_blank (by decide +kernel), evalLines_cons_of_blank (by decide +kernel),
      evalLines_cons_of_code (by decide +kernel), hlast]
  exact ⟨hfails, (((evalSource_names_failing_line "a" source .empty).1 _ _ _).mp hfails).2.2⟩

end Session

end LineCalc
