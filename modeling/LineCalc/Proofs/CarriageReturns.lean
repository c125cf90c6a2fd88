/-
  LineCalc/Proofs/CarriageReturns.lean
  ====================================
  **Line ends with and without a carriage return.**  When each line feed of a text is given
  a carriage return, every line end loses again exactly what it was given, so the lines stay
  as they are.  A carriage return elsewhere is a character of its line before and after, also
  at the end of a last line that no line feed closes.

  This needs that no line feed had a carriage return already: that one would become a
  character of its line.  The condition is exact (`splitLines_addReturns_iff`).
-/
import LineCalc.Proofs.ScriptLines
import LineCalc.Proofs.TextLines

namespace LineCalc

namespace Text

/-- Each line feed with a carriage return before it. -/
def addReturns (cs : List Char) : List Char :=
  cs.flatMap fun c => if c = '\n' then ['\r', '\n'] else [c]

/-- The text with a carriage return before each of its line feeds. -/
def withReturns (text : String) : String := String.ofList (addReturns text.toList)

theorem addReturns_feed (cs : List Char) :
    addReturns ('\n' :: cs) = '\r' :: '\n' :: addReturns cs := rfl

theorem addReturns_cons {c : Char} (h : c ≠ '\n') (cs : List Char) :
    addReturns (c :: cs) = c :: addReturns cs := by
  simp [addReturns, h]

theorem addReturns_eq_nil_iff {cs : List Char} : addReturns cs = [] ↔ cs = [] := by
  cases cs with
  | nil => simp [addReturns]
  | cons c cs => by_cases hc : c = '\n' <;> simp [addReturns, hc]

theorem head?_addReturns_ne_feed (cs : List Char) : (addReturns cs).head? ≠ some '\n' := by
  cases cs with
  | nil => simp [addReturns]
  | cons c cs => by_cases hc : c = '\n' <;> simp [addReturns, hc]

theorem return_feed_infix_cons_iff {c : Char} {cs : List Char} :
    ['\r', '\n'] <:+: c :: cs ↔ (c = '\r' ∧ cs.head? = some '\n') ∨ ['\r', '\n'] <:+: cs := by
  have hprefix : ['\r', '\n'] <+: c :: cs ↔ c = '\r' ∧ cs.head? = some '\n' := by
    cases cs with
    | nil => simp
    | cons d cs => simp [List.cons_prefix_cons, eq_comm]
  rw [List.infix_cons_iff, hprefix]

/-- **Carriage returns at all line feeds leave the lines as they are** exactly when there was
    none at any of them. -/
theorem splitLines_addReturns_iff (cs : List Char) :
    splitLines (addReturns cs) = splitLines cs ↔ ¬ ['\r', '\n'] <:+: cs := by
  induction cs using splitLines.induct with
  | case1 => simp [addReturns]
  | case2 cs ih =>
    rw [addReturns_feed, splitLines, splitLines, List.cons_inj_right, ih,
      return_feed_infix_cons_iff]
    simp
  | case3 cs ih =>
    -- the line ends in the carriage return that was there before
    have hlines : splitLines (addReturns ('\r' :: '\n' :: cs)) =
        ['\r'] :: splitLines (addReturns cs) := by
      rw [addReturns_cons (by decide), addReturns_feed]
      exact splitLines_cons_of_cons (by decide) (by simp) (by rw [splitLines])
    rw [hlines, splitLines]
    refine iff_of_false (by simp) (not_not_intro ?_)
    exact return_feed_infix_cons_iff.mpr (.inl ⟨rfl, rfl⟩)
  | case4 c cs hfeed hreturn hnil _ =>
    obtain rfl := splitLines_eq_nil_iff.mp hnil
    rw [addReturns_cons hfeed]
    exact iff_of_true rfl (by simp [return_feed_infix_cons_iff])
  | case5 c cs hfeed hreturn line more hcons ih =>
    have hreturn' := not_carriage_return hreturn
    have hne : splitLines (addReturns cs) ≠ [] := by
      intro hnil
      rw [splitLines_eq_nil_iff, addReturns_eq_nil_iff] at hnil
      rw [hnil, splitLines] at hcons
      cases hcons
    obtain ⟨line', more', hcons'⟩ := List.exists_cons_of_ne_nil hne
    -- the character goes on the first line in both texts
    rw [addReturns_cons hfeed, splitLines_cons_of_cons hfeed hreturn' hcons,
      splitLines_cons_of_cons hfeed (fun h => head?_addReturns_ne_feed cs h.2) hcons',
      return_feed_infix_cons_iff, or_iff_right hreturn', ← ih, hcons, hcons']
    simp

theorem lines_withReturns_iff (text : String) :
    lines (withReturns text) = lines text ↔ ¬ ['\r', '\n'] <:+: text.toList := by
  rw [← splitLines_addReturns_iff]
  unfold lines withReturns
  rw [String.toList_ofList]
  exact (List.map_injective_iff.mpr fun _ _ => String.ofList_inj.mp).eq_iff

end Text

namespace Session

/-- **Line ends do not matter.**  A text without carriage returns at its line feeds and the
    text with one at each of them have the same lines by number, are the same script, value
    or error, and leave the same variables in every session. -/
theorem evalSource_withReturns (path text : String) (h : ¬ ['\r', '\n'] <:+: text.toList) :
    let text' := Text.withReturns text
    runScript text' = runScript text ∧
      SourceFile.lineCount ⟨path, text'⟩ = SourceFile.lineCount ⟨path, text⟩ ∧
      (∀ number, SourceFile.line ⟨path, text'⟩ number = SourceFile.line ⟨path, text⟩ number) ∧
      ∀ env, evalSource text' env = evalSource text env := by
  intro text'
  have hlines : Text.lines text' = Text.lines text := (Text.lines_withReturns_iff text).mpr h
  have hsource : evalSource text' = evalSource text := by rw [evalSource, hlines, ← evalSource]
  have hcount : SourceFile.lineCount ⟨path, text'⟩ = SourceFile.lineCount ⟨path, text⟩ := by
    simp only [SourceFile.lineCount, hlines]
  refine ⟨?_, hcount, ?_, fun env => by rw [hsource]⟩
  · rw [runScript, hsource, ← runScript]
  · intro number
    cases number with
    | zero => simp only [SourceFile.line, hcount]
    | succ index => simp only [SourceFile.line, hlines, hcount]

/-- The last line is open and ends in a carriage return, which is no token: the script fails
    there in both texts, with the variable of the first line set. -/
theorem evalSource_withReturns_open_line :
    let text := "set x = true\n\ny\r"
    let text' := "set x = true\r\n\r\ny\r"
    let env : Env := ⟨[("x", .boolean true)], by decide⟩
    ¬ ['\r', '\n'] <:+: text.toList ∧ Text.withReturns text = text' ∧
      runScript text' = .error ⟨3, .lex (.unexpectedChar '\r')⟩ ∧
      SourceFile.line ⟨"a", text'⟩ 3 = .ok "y\r" ∧
      SourceFile.line ⟨"a", text'⟩ 4 = .error (.lineOutOfBounds 4 3) ∧
      evalSource text' .empty = .error ⟨3, .lex (.unexpectedChar '\r')⟩ env := by
  intro text text' env
  have hfree : ¬ ['\r', '\n'] <:+: text.toList := by decide +kernel
  have htext : Text.withReturns text = text' := by decide +kernel
  have hlines : Text.lines text = ["set x = true", "", "y\r"] := by decide +kernel
  have hset : evalLine "set x = true" .empty = .ok "true" env := by
    have hx : IsName "x" := isName_letter (c := 'x') rfl
    have hsource : Program.source 1 [.declare "x" (.boolean true)] = "set x = true" := by
      decide +kernel
    rw [evalLine_of_statement hsource ⟨hx, trivial⟩]
    rfl
  have hstray : Token.ofText "y\r" = .error (.unexpectedChar '\r') := by
    have hname : Lexeme.read "y\r".toList = .token ⟨.identifier, "y", none⟩ 0 ['\r'] := by rfl
    have hreturn : Lexeme.read ['\r'] = .fault (.unexpectedChar '\r') [] := by rfl
    rw [Token.ofText, Token.ofChars_of_token hname, Token.ofChars_of_fault hreturn]
    rfl
  have hfails : evalLine "y\r" env = .error (.lex (.unexpectedChar '\r')) env := by
    refine evalLine_of_parseLine_error ?_ env
    rw [parseLine, tokenizeLine, hstray]
  have hrun : evalSource text .empty = .error ⟨3, .lex (.unexpectedChar '\r')⟩ env := by
    unfold evalSource
    rw [hlines, evalLines_cons_of_code (by decide +kernel), hset]
    simp only
    rw [evalLines_cons_of_blank (by decide +kernel), evalLines_cons_of_code (by decide +kernel),
      hfails]
  obtain ⟨hscript, -, hline, hleaves⟩ := evalSource_withReturns "a" text hfree
  rw [htext] at hscript hline hleaves
  refine ⟨hfree, htext, ?_, ?_, ?_, (hleaves .empty).trans hrun⟩
  · rw [hscript, runScript, hrun]
  · rw [hline, SourceFile.line, hlines]
    rfl
  · rw [hline, SourceFile.line, SourceFile.lineCount, hlines]
    rfl

end Session

end LineCalc
