/-
  LineCalc/Proofs/ScriptComposition.lean
  ======================================
  **Scripts compose.**  A script that is put together from two texts, the first of which
  closes its last line, runs the first and, if that succeeds, goes on with the second in
  the variables it has left.  The second is then a script of its own but for two things:
  its lines have later numbers, and when it has no value that of the first one stands.

  The lines of the whole are the lines of the parts (`Text.lines_append`).  What is left
  is about lists of lines: running them stops at the border like anywhere else
  (`evalLines_append_bind`), and neither the number of the first line nor the value
  brought along has any influence on what the lines do (`evalLines_continued`).
-/
import LineCalc.Proofs.ScriptLines
import LineCalc.Proofs.TextLines

namespace LineCalc.Session

variable {number : Nat} {last : Option String} {env : Env}

/-- Lines in two parts: the second goes on where the first has succeeded. -/
theorem evalLines_append_bind (before rest : List String) :
    evalLines number last (before ++ rest) env =
      (evalLines number last before >>= fun value =>
        evalLines (number + before.length) value rest) env := by
  rcases evalEach_codeOf_cases before env with ⟨values, mid, hall⟩ |
    ⟨front, line, back, values, mid, e, env', rfl, hcode, heach, hfails⟩
  · rw [bind_of_ok (evalLines_of_evalEach hall), evalLines_append hall]
  · rw [bind_of_error (evalLines_of_failing hcode heach hfails), List.append_assoc,
      List.cons_append, evalLines_of_failing hcode heach hfails]

/-- The outcome of lines, when `before` lines with the value `last` have gone before. -/
def continued (before : Nat) (last : Option String) :
    EStateM.Result ScriptError Env (Option String) → EStateM.Result ScriptError Env (Option String)
  | .ok value env => .ok (value.or last) env
  | .error ⟨number, e⟩ env => .error ⟨number + before, e⟩ env

/-- Lines do the same wherever they stand and whatever the value so far is. -/
theorem evalLines_continued (before : Nat) (value : Option String) (lines : List String) :
    evalLines (number + before) (value.or last) lines env =
      continued before last (evalLines number value lines env) := by
  rcases evalEach_codeOf_cases lines env with ⟨values, env', hall⟩ |
    ⟨front, line, back, values, mid, e, env', rfl, hcode, heach, hfails⟩
  · rw [evalLines_of_evalEach hall, evalLines_of_evalEach hall, continued, Option.or_assoc]
  · rw [evalLines_of_failing hcode heach hfails, evalLines_of_failing hcode heach hfails,
      continued, Nat.add_right_comm]

/-- **Scripts compose.**  Behind a text that is empty or ends with a line feed, a script
    goes on as one of its own: only its line numbers count on, and the value of the text
    before stands if it has none. -/
theorem evalSource_append (path s₁ s₂ : String) (env : Env)
    (h : s₁ = "" ∨ s₁.toList.getLast? = some '\n') :
    evalSource (s₁ ++ s₂) env =
      match evalSource s₁ env with
      | .error e mid => .error e mid
      | .ok v₁ mid =>
        match evalSource s₂ mid with
        | .error ⟨N, e⟩ env' => .error ⟨N + SourceFile.lineCount ⟨path, s₁⟩, e⟩ env'
        | .ok v₂ env' => .ok (v₂.or v₁) env' := by
  have hends : Text.EndsLine s₁.toList := by
    rcases h with rfl | h
    · simp [Text.EndsLine]
    · simp [Text.EndsLine, h]
  unfold evalSource
  rw [Text.lines_append hends, evalLines_append_bind]
  cases hfirst : evalLines 1 none (Text.lines s₁) env with
  | error e mid => rw [bind_of_error hfirst]
  | ok v₁ mid =>
    have hsecond : evalLines (1 + (Text.lines s₁).length) v₁ (Text.lines s₂) mid =
        continued (Text.lines s₁).length v₁ (evalLines 1 none (Text.lines s₂) mid) :=
      evalLines_continued _ none _
    rw [bind_of_ok hfirst, hsecond]
    simp only
    cases evalLines 1 none (Text.lines s₂) mid <;> rfl

/-- The second text fails in its second line, which is the fourth of the whole; the first
    has an empty line, and both have a carriage return. -/
theorem evalSource_append_failing :
    let s₁ := "set x = true\r\n\n"
    let s₂ := "(x = false)\r\ny"
    let mid : Env := ⟨[("x", .boolean true)], by decide⟩
    let env' : Env := ⟨[("x", .boolean false)], by decide⟩
    s₁.toList.getLast? = some '\n' ∧ evalSource s₁ .empty = .ok (some "true") mid ∧
      evalSource s₂ mid = .error ⟨2, .eval (.unknownVariable "y")⟩ env' ∧
      evalSource (s₁ ++ s₂) .empty = .error ⟨4, .eval (.unknownVariable "y")⟩ env' := by
  intro s₁ s₂ mid env'
  have hends : s₁.toList.getLast? = some '\n' := by decide +kernel
  have hlines₁ : Text.lines s₁ = ["set x = true", ""] := by decide +kernel
  have hlines₂ : Text.lines s₂ = ["(x = false)", "y"] := by decide +kernel
  have hx : IsName "x" := isName_letter (c := 'x') rfl
  have hy : IsName "y" := isName_letter (c := 'y') rfl
  have hset : evalLine "set x = true" .empty = .ok "true" mid := by
    have hsource : Program.source 1 [.declare "x" (.boolean true)] = "set x = true" := by
      decide +kernel
    rw [evalLine_of_statement hsource ⟨hx, trivial⟩]
    rfl
  have hassign : evalLine "(x = false)" mid = .ok "false" env' := by
    have hsource : Program.source 1 [.expr (.assign "x" (.boolean false))] = "(x = false)" := by
      decide +kernel
    rw [evalLine_of_statement hsource ⟨hx, trivial⟩]
    rfl
  have hunknown : evalLine "y" env' = .error (.eval (.unknownVariable "y")) env' := by
    have hsource : Program.source 1 [.expr (.variable "y")] = "y" := by decide +kernel
    rw [evalLine_of_statement hsource hy]
    rfl
  have hfirst : evalSource s₁ .empty = .ok (some "true") mid := by
    unfold evalSource
    rw [hlines₁, evalLines_cons_of_code (by decide +kernel), hset]
    simp only
    rw [evalLines_cons_of_blank (by decide +kernel)]
    rfl
  have hsecond : evalSource s₂ mid = .error ⟨2, .eval (.unknownVariable "y")⟩ env' := by
    unfold evalSource
    rw [hlines₂, evalLines_cons_of_code (by decide +kernel), hassign]
    simp only
    rw [evalLines_cons_of_code (by decide +kernel), hunknown]
  refine ⟨hends, hfirst, hsecond, ?_⟩
  rw [evalSource_append "a" s₁ s₂ .empty (.inr hends), hfirst]
  simp only [hsecond, SourceFile.lineCount, hlines₁]
  rfl

end LineCalc.Session
