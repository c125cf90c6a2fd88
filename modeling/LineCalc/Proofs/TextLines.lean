/-
  LineCalc/Proofs/TextLines.lean
  ==============================
  **Texts and their lines.**  A text can be cut between any two of its lines, and texts
  can be put together again as long as the first ends with a line feed or is empty: its
  last line is closed then, and the lines of the whole are those of the one followed by
  those of the other.
-/
import LineCalc.Text.Lines

namespace LineCalc.Text

theorem mem_of_mem_splitLines {cs line : List Char} {c : Char} (hline : line ∈ splitLines cs)
    (hc : c ∈ line) : c ∈ cs := by
  fun_induction splitLines cs generalizing line with
  | case1 => cases hline
  | case2 cs ih =>
    rcases List.mem_cons.mp hline with rfl | hrest
    · cases hc
    · exact List.mem_cons_of_mem _ (ih hrest hc)
  | case3 cs ih =>
    rcases List.mem_cons.mp hline with rfl | hrest
    · cases hc
    · exact List.mem_cons_of_mem _ (List.mem_cons_of_mem _ (ih hrest hc))
  | case4 d cs _ _ hnil ih =>
    rw [List.mem_singleton.mp hline] at hc
    rw [List.mem_singleton.mp hc]
    exact List.mem_cons_self
  | case5 d cs _ _ first rest hcons ih =>
    rw [hcons] at ih
    rcases List.mem_cons.mp hline with rfl | hrest
    · rcases List.mem_cons.mp hc with rfl | hfirst
      · exact List.mem_cons_self
      · exact List.mem_cons_of_mem _ (ih List.mem_cons_self hfirst)
    · exact List.mem_cons_of_mem _ (ih (List.mem_cons_of_mem _ hrest) hc)

/-- A line goes on with the next character unless a line end stands there. -/
theorem splitLines_cons_of_cons {c : Char} {cs line : List Char} {rest : List (List Char)}
    (hfeed : c ≠ '\n') (hreturn : ¬ (c = '\r' ∧ cs.head? = some '\n'))
    (h : splitLines cs = line :: rest) : splitLines (c :: cs) = (c :: line) :: rest := by
  rw [splitLines, h]
  · intro hc
    exact hfeed hc
  · rintro tail hc rfl
    exact hreturn ⟨hc, rfl⟩

/-- The last case of `splitLines`, said of the next character: no carriage return and
    line feed stand here. -/
theorem not_carriage_return {c : Char} {cs : List Char}
    (h : ∀ tail, c = '\r' → cs = '\n' :: tail → False) :
    ¬ (c = '\r' ∧ cs.head? = some '\n') := by
  rintro ⟨hc, hhead⟩
  obtain ⟨tail, rfl⟩ := List.head?_eq_some_iff.mp hhead
  exact h tail hc rfl

/-- A text can be cut in two between any two of its lines. -/
theorem exists_splitLines_cut (cs : List Char) (n : Nat) :
    ∃ before rest, cs = before ++ rest ∧ splitLines before = (splitLines cs).take n ∧
      splitLines rest = (splitLines cs).drop n := by
  induction cs using splitLines.induct generalizing n with
  | case1 => exact ⟨[], [], rfl, by simp [splitLines], by simp [splitLines]⟩
  | case2 cs ih =>
    cases n with
    | zero => exact ⟨[], _, rfl, rfl, rfl⟩
    | succ n =>
      obtain ⟨before, rest, rfl, hbefore, hrest⟩ := ih n
      refine ⟨'\n' :: before, rest, rfl, ?_, ?_⟩
      · rw [splitLines, splitLines, hbefore, List.take_succ_cons]
      · rw [splitLines, hrest, List.drop_succ_cons]
  | case3 cs ih =>
    cases n with
    | zero => exact ⟨[], _, rfl, rfl, rfl⟩
    | succ n =>
      obtain ⟨before, rest, rfl, hbefore, hrest⟩ := ih n
      refine ⟨'\r' :: '\n' :: before, rest, rfl, ?_, ?_⟩
      · rw [splitLines, splitLines, hbefore, List.take_succ_cons]
      · rw [splitLines, hrest, List.drop_succ_cons]
  | case4 c cs hfeed hreturn hnil _ =>
    have hlines : splitLines (c :: cs) = [[c]] := by
      rw [splitLines, hnil]
      · exact hfeed
      · exact hreturn
    cases n with
    | zero => exact ⟨[], _, rfl, rfl, rfl⟩
    | succ n =>
      refine ⟨c :: cs, [], (List.append_nil _).symm, ?_, ?_⟩
      · rw [hlines, List.take_succ_cons, List.take_nil]
      · rw [hlines, List.drop_succ_cons, List.drop_nil, splitLines]
  | case5 c cs hfeed hreturn line more hcons ih =>
    have hreturn' := not_carriage_return hreturn
    cases n with
    | zero => exact ⟨[], _, rfl, rfl, rfl⟩
    | succ n =>
      obtain ⟨before, rest, hcs, hbefore, hrest⟩ := ih (n + 1)
      rw [hcons, List.take_succ_cons] at hbefore
      rw [hcons, List.drop_succ_cons] at hrest
      rw [splitLines_cons_of_cons hfeed hreturn' hcons]
      refine ⟨c :: before, rest, by rw [hcs]; rfl, ?_, hrest⟩
      -- the first part is not empty, so it has the same first character
      have hhead : before.head? = cs.head? := by
        cases before with
        | nil => cases hbefore
        | cons d before => rw [hcs]; rfl
      rw [List.take_succ_cons]
      exact splitLines_cons_of_cons hfeed (hhead ▸ hreturn') hbefore

theorem exists_lines_cut (text : String) (n : Nat) :
    ∃ before rest, text = before ++ rest ∧ lines before = (lines text).take n ∧
      lines rest = (lines text).drop n := by
  obtain ⟨before, rest, htext, hbefore, hrest⟩ := exists_splitLines_cut text.toList n
  refine ⟨String.ofList before, String.ofList rest, ?_, ?_, ?_⟩
  · rw [← String.ofList_append, ← htext, String.ofList_toList]
  · simp only [lines, String.toList_ofList, hbefore, List.map_take]
  · simp only [lines, String.toList_ofList, hrest, List.map_drop]

/-- The characters end with a line feed, if there are any. -/
def EndsLine (cs : List Char) : Prop := ∀ c ∈ cs.getLast?, c = '\n'

theorem EndsLine.tail {c : Char} {cs : List Char} (h : EndsLine (c :: cs)) : EndsLine cs := by
  intro d hd
  refine h d ?_
  rw [Option.mem_def] at hd ⊢
  rw [List.getLast?_cons, hd, Option.getD_some]

theorem splitLines_eq_nil_iff {cs : List Char} : splitLines cs = [] ↔ cs = [] := by
  fun_cases splitLines cs <;> simp_all

/-- Behind a closed line a text starts anew. -/
theorem splitLines_append {cs : List Char} (h : EndsLine cs) (ds : List Char) :
    splitLines (cs ++ ds) = splitLines cs ++ splitLines ds := by
  induction cs using splitLines.induct with
  | case1 => rfl
  | case2 cs ih =>
    rw [List.cons_append, splitLines, splitLines, ih h.tail, List.cons_append]
  | case3 cs ih =>
    rw [List.cons_append, List.cons_append, splitLines, splitLines, ih h.tail.tail,
      List.cons_append]
  | case4 c cs hfeed hreturn hnil _ =>
    -- an open line is the last one, and this text has none
    obtain rfl := splitLines_eq_nil_iff.mp hnil
    exact absurd (h c rfl) hfeed
  | case5 c cs hfeed hreturn line more hcons ih =>
    have hreturn' := not_carriage_return hreturn
    -- the line goes on with a character of the first text, not of the second
    have hhead : (cs ++ ds).head? = cs.head? := by
      cases cs with
      | nil => cases hcons
      | cons d cs => rfl
    have hwhole : splitLines (cs ++ ds) = line :: (more ++ splitLines ds) := by
      rw [ih h.tail, hcons, List.cons_append]
    rw [List.cons_append, splitLines_cons_of_cons hfeed (hhead ▸ hreturn') hwhole,
      splitLines_cons_of_cons hfeed hreturn' hcons, List.cons_append]

theorem lines_append {text : String} (h : EndsLine text.toList) (rest : String) :
    lines (text ++ rest) = lines text ++ lines rest := by
  simp only [lines, String.toList_append, splitLines_append h, List.map_append]

end LineCalc.Text
