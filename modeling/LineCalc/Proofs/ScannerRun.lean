/-
  LineCalc/Proofs/ScannerRun.lean
  ===============================
  **Call after call of a scanner.**  A fault does not stop a scanner: it goes on behind
  the character that starts nothing, or behind the quote that is not closed, and then the
  text of the open string is read as if the quote were not there.  `Step` lists all that
  one call can do.  What holds of every series of calls follows from it, a call at a time.

    * Until the end is met each call takes something off the text (`Step.progress`), so
      the end is met after one call more than there are characters, at the latest.
    * The line grows by what was counted while a token was read, in a blank run or in a
      string.  Both counts come to the line feeds in the text of the token
      (`Lexeme.read_eq_token_iff`).
    * The line feeds taken off are those in the texts of the tokens given, which the line
      counts, and those that stood where a token should start, which are faults and are
      not counted (`Step.feeds_taken`).
-/
import LineCalc.Proofs.EndOfText

namespace LineCalc

/-! ### Line feeds of a token -/

namespace Token

theorem count_feed_escape (text : List Char) : (escape text).count '\n' = text.count '\n' := by
  induction text with
  | nil => rfl
  | cons c text ih =>
    rw [escape_cons, List.count_append, ih, List.count_cons]
    by_cases hc : c = '"'
    · simp [hc]
    · simp [hc, List.count_singleton, Nat.add_comm]

/-- Quotes and escapes add no line feed to the text of a token. -/
theorem Lexical.count_feed_spelling {t : Token} (ht : t.Lexical) :
    t.spelling.count '\n' = t.text.toList.count '\n' := by
  obtain ⟨kind, text, operator⟩ := t
  cases kind with
  | endOfLine => exact absurd ht id
  | string => simp [spelling, count_feed_escape, List.count_append]
  | _ => rfl

/-- The number of line feeds in the texts of tokens. -/
def feeds (ts : List Token) : Nat := (ts.flatMap fun t => t.text.toList).count '\n'

end Token

namespace Scanner

variable {s s' : Scanner} {answer : Except LexError Token}

/-! ### One call -/

/-- What one call can do: the answer that it gives and the scanner that it leaves. -/
inductive Step (s : Scanner) : Except LexError Token → Scanner → Prop where
  | idle (hdone : s.exhausted = true) : Step s (.ok .endOfLine) s
  | finish (hopen : s.exhausted = false) (hrest : Token.beforeNul s.rest = []) :
      Step s (.ok .endOfLine) { s with exhausted := true }
  | token {t : Token} {rest : List Char} (hopen : s.exhausted = false) (ht : t.Lexical)
      (hrest : s.rest = t.spelling ++ rest) (hend : t.Delimited rest) :
      Step s (.ok t) { s with rest := rest, line := s.line + t.text.toList.count '\n' }
  | unexpected {c : Char} {rest : List Char} (hopen : s.exhausted = false)
      (hrest : s.rest = c :: rest) (hc : Lexeme.StartsNothing c) :
      Step s (.error (.unexpectedChar c)) { s with rest := rest }
  | unterminated {text rest : List Char} (hopen : s.exhausted = false)
      (hrest : s.rest = '"' :: rest) (htext : Lexeme.collect [] 0 rest = .unterminated text) :
      Step s (.error (.unterminatedString (String.ofList text))) { s with rest := rest }

theorem step_next (s : Scanner) : s.Step s.next.1 s.next.2 := by
  unfold next
  by_cases hdone : s.exhausted = true
  · rw [if_pos hdone]
    exact .idle hdone
  · have hopen : s.exhausted = false := Bool.eq_false_iff.mpr hdone
    rw [if_neg hdone]
    cases hread : Lexeme.read s.rest with
    | endOfText => exact .finish hopen (Lexeme.read_eq_endOfText_iff.mp hread)
    | token t feeds rest =>
      -- both ways of counting come to the line feeds in the text of the token
      obtain ⟨ht, hrest, hend, rfl⟩ := Lexeme.read_eq_token_iff.mp hread
      exact .token hopen ht hrest hend
    | fault e rest =>
      rcases Lexeme.read_eq_fault_iff.mp hread with
        ⟨c, hrest, hc, rfl⟩ | ⟨text, hrest, htext, rfl⟩
      · exact .unexpected hopen hrest hc
      · exact .unterminated hopen hrest htext

theorem next_of_exhausted (h : s.exhausted = true) : s.next = (.ok .endOfLine, s) := by
  rw [next, if_pos h]

/-- A call meets the end where nothing is left before a NUL, and takes something off the
    text everywhere else, also when it gives a fault. -/
theorem Step.progress (h : s.Step answer s') (hopen : s.exhausted = false) :
    (s'.exhausted = true ∧ Token.beforeNul s.rest = []) ∨
      (s'.exhausted = false ∧ ∃ taken, taken ≠ [] ∧ s.rest = taken ++ s'.rest) := by
  cases h with
  | idle hdone =>
    rw [hopen] at hdone
    cases hdone
  | finish _ hrest => exact .inl ⟨rfl, hrest⟩
  | @token t _ _ ht hrest _ =>
    obtain ⟨c, cs, hspell, -⟩ := ht.exists_head
    have hne : t.spelling ≠ [] := by
      rw [hspell]
      exact List.cons_ne_nil c cs
    exact .inr ⟨hopen, t.spelling, hne, hrest⟩
  | @unexpected c _ _ hrest _ => exact .inr ⟨hopen, [c], List.cons_ne_nil c [], hrest⟩
  | unterminated _ hrest _ => exact .inr ⟨hopen, ['"'], List.cons_ne_nil _ [], hrest⟩

/-- The tokens among the answers of calls. -/
def tokensOf (answers : List (Except LexError Token)) : List Token :=
  answers.filterMap Except.toOption

theorem Step.line_eq (h : s.Step answer s') :
    s'.line = s.line + Token.feeds (tokensOf [answer]) := by
  cases h with
  | token => simp [tokensOf, Except.toOption, Token.feeds]
  | _ => rfl

theorem Step.kind_of_feed {t : Token} (h : s.Step (.ok t) s') (hfeed : '\n' ∈ t.text.toList) :
    t.kind = .whitespace ∨ t.kind = .string := by
  cases h with
  | idle | finish => simp [Token.endOfLine] at hfeed
  | token _ ht _ _ => exact ht.kind_of_feed hfeed

/-- The answer to a line feed where a token should start. -/
def strayFeed : Except LexError Token := .error (.unexpectedChar '\n')

/-- The line feeds that a call takes off the text are counted or are faults. -/
theorem Step.feeds_taken (h : s.Step answer s') :
    ∃ taken, s.rest = taken ++ s'.rest ∧
      s.line + taken.count '\n' = s'.line + [answer].count strayFeed := by
  cases h with
  | idle | finish => exact ⟨[], rfl, rfl⟩
  | @token t _ _ ht hrest _ =>
    refine ⟨t.spelling, hrest, ?_⟩
    rw [ht.count_feed_spelling]
    rfl
  | @unexpected c _ _ hrest _ =>
    refine ⟨[c], hrest, ?_⟩
    simp [strayFeed, List.count_singleton]
  | unterminated _ hrest _ =>
    refine ⟨['"'], hrest, ?_⟩
    simp [strayFeed]

/-! ### Calls in a row -/

/-- The scanner after so many calls. -/
def after (s : Scanner) : Nat → Scanner
  | 0 => s
  | n + 1 => (s.after n).next.2

/-- What so many calls give, in order. -/
def answers (s : Scanner) : Nat → List (Except LexError Token)
  | 0 => []
  | n + 1 => s.answers n ++ [(s.after n).next.1]

theorem step_after (s : Scanner) (n : Nat) :
    (s.after n).Step (s.after n).next.1 (s.after (n + 1)) :=
  step_next (s.after n)

theorem after_add (s : Scanner) (n m : Nat) : s.after (n + m) = (s.after n).after m := by
  induction m with
  | zero => rfl
  | succ m ih =>
    rw [← Nat.add_assoc, after, ih]
    rfl

/-- The end is met once and for all. -/
theorem after_of_exhausted (h : s.exhausted = true) (n : Nat) : s.after n = s := by
  induction n with
  | zero => rfl
  | succ n ih => rw [after, ih, next_of_exhausted h]

/-- So many calls have met the end, or have taken as many characters off the text. -/
theorem exhausted_or_length_le (s : Scanner) (n : Nat) :
    (s.after n).exhausted = true ∨ (s.after n).rest.length + n ≤ s.rest.length := by
  induction n with
  | zero => exact .inr (Nat.le_refl _)
  | succ n ih =>
    cases hopen : (s.after n).exhausted with
    | true =>
      have hlast : s.after (n + 1) = s.after n := after_of_exhausted hopen 1
      exact .inl (by rw [hlast, hopen])
    | false =>
      rcases (step_after s n).progress hopen with ⟨hdone, -⟩ | ⟨-, taken, hne, hrest⟩
      · exact .inl hdone
      · have hlength := ih.resolve_left (by rw [hopen]; exact Bool.false_ne_true)
        have hpos : 0 < taken.length := List.length_pos_iff.mpr hne
        rw [hrest, List.length_append] at hlength
        exact .inr (by omega)

theorem line_after (s : Scanner) (n : Nat) :
    (s.after n).line = s.line + Token.feeds (tokensOf (s.answers n)) := by
  induction n with
  | zero => rfl
  | succ n ih =>
    have hfeeds : Token.feeds (tokensOf (s.answers (n + 1))) =
        Token.feeds (tokensOf (s.answers n)) + Token.feeds (tokensOf [(s.after n).next.1]) := by
      simp only [answers, tokensOf, Token.feeds, List.filterMap_append, List.flatMap_append,
        List.count_append]
    rw [(step_after s n).line_eq, ih, hfeeds, Nat.add_assoc]

theorem kind_of_feed_answers {n : Nat} {t : Token} (hmem : .ok t ∈ s.answers n)
    (hfeed : '\n' ∈ t.text.toList) : t.kind = .whitespace ∨ t.kind = .string := by
  induction n with
  | zero => cases hmem
  | succ n ih =>
    rw [answers, List.mem_append, List.mem_singleton] at hmem
    rcases hmem with hmem | hlast
    · exact ih hmem
    · have hstep := step_after s n
      rw [← hlast] at hstep
      exact hstep.kind_of_feed hfeed

theorem feeds_after (s : Scanner) (n : Nat) :
    ∃ taken, s.rest = taken ++ (s.after n).rest ∧
      s.line + taken.count '\n' = (s.after n).line + (s.answers n).count strayFeed := by
  induction n with
  | zero => exact ⟨[], rfl, rfl⟩
  | succ n ih =>
    obtain ⟨taken, hrest, hcount⟩ := ih
    obtain ⟨more, hmore, hstep⟩ := (step_after s n).feeds_taken
    refine ⟨taken ++ more, by rw [hrest, hmore, List.append_assoc], ?_⟩
    rw [answers, List.count_append, List.count_append]
    omega

/-- **A scanner always comes to the end.**  Until the end is met every call takes something
    off the text, whether it gives a token or a fault, or meets the end where nothing is
    left before a NUL.  The end is met after one call more than the text has characters, at
    the latest, and from then on every call gives the end of the line and changes nothing. -/
theorem calls_make_progress (text : String) (n : Nat) :
    let s := (start text).after n
    let s' := (start text).after (n + 1)
    (s.exhausted = false →
      (s'.exhausted = true ∧ Token.beforeNul s.rest = []) ∨
        (s'.exhausted = false ∧ ∃ taken, taken ≠ [] ∧ s.rest = taken ++ s'.rest)) ∧
      (text.length + 1 ≤ n → s.exhausted = true) ∧
      (s.exhausted = true → ∀ m, n ≤ m →
        ((start text).after m).exhausted = true ∧
          ((start text).after m).next.1 = .ok .endOfLine ∧
          ((start text).after m).line = s.line) := by
  intro s s'
  refine ⟨(step_after (start text) n).progress, ?_, ?_⟩
  · intro hn
    refine (exhausted_or_length_le (start text) n).resolve_right fun hle => ?_
    have hlength : (start text).rest.length = text.length := String.length_toList
    omega
  · intro hdone m hm
    have hsame : (start text).after m = s := by
      rw [← Nat.add_sub_cancel' hm, after_add, after_of_exhausted hdone]
    rw [hsame, next_of_exhausted hdone]
    exact ⟨hdone, rfl, rfl⟩

/-- The first call meets a quote that is not closed and the second a line feed behind it; both
    give a fault, and the scanner goes on to the end. -/
theorem calls_make_progress_open_quote :
    let text := "\"\n \n"
    let s := fun n => (start text).after n
    (s 0).next.1 = .error (.unterminatedString "\n \n") ∧
      (s 1).next.1 = .error (.unexpectedChar '\n') ∧ (s 1).exhausted = false ∧
      (∃ taken, taken ≠ [] ∧ (s 1).rest = taken ++ (s 2).rest) ∧
      (s (text.length + 1)).exhausted = true ∧ (s 4).exhausted = true ∧
      ∀ m, 4 ≤ m → (s m).next.1 = .ok .endOfLine ∧ (s m).line = 2 := by
  intro text s
  have hopen : (s 1).exhausted = false := by decide +kernel
  have hdone : (s 4).exhausted = true := by decide +kernel
  have hline : (s 4).line = 2 := by decide +kernel
  obtain ⟨hfirst, -, -⟩ := calls_make_progress text 1
  obtain ⟨-, hbound, -⟩ := calls_make_progress text (text.length + 1)
  obtain ⟨-, -, hlast⟩ := calls_make_progress text 4
  refine ⟨by decide +kernel, by decide +kernel, hopen, ?_, hbound (Nat.le_refl _), hdone, ?_⟩
  · rcases hfirst hopen with ⟨hmet, -⟩ | ⟨-, htaken⟩
    · exact absurd hmet (by decide +kernel)
    · exact htaken
  · intro m hm
    obtain ⟨-, hanswer, hsame⟩ := hlast hdone m hm
    exact ⟨hanswer, hsame.trans hline⟩

/-- **The line of a scanner** is one more than the line feeds in the tokens given, which blank
    runs and strings alone can hold, and faults do not count.  Of the line feeds in the text
    taken off it misses exactly those that were faults themselves, so without a fault it is one
    more than all of them. -/
theorem line_counts_feeds (text : String) (n : Nat) :
    let s := (start text).after n
    let answers := (start text).answers n
    s.line = 1 + Token.feeds (tokensOf answers) ∧
      (∀ t, .ok t ∈ answers → '\n' ∈ t.text.toList → t.kind = .whitespace ∨ t.kind = .string) ∧
      ∃ taken, text.toList = taken ++ s.rest ∧
        1 + taken.count '\n' = s.line + answers.count strayFeed ∧
        ((∀ e, .error e ∉ answers) → s.line = 1 + taken.count '\n') := by
  intro s answers
  obtain ⟨taken, hrest, hcount⟩ := feeds_after (start text) n
  refine ⟨line_after (start text) n, fun t => kind_of_feed_answers, taken, hrest, hcount,
    fun hok => ?_⟩
  have hstray : answers.count strayFeed = 0 := List.count_eq_zero.mpr (hok _)
  calc s.line = s.line + answers.count strayFeed := by rw [hstray, Nat.add_zero]
    _ = 1 + taken.count '\n' := hcount.symm

/-- A string with an escaped quote and a blank run hold a line feed each, and no call fails. -/
theorem line_counts_feeds_escaped_quote :
    let text := "\"a\\\"\n\" \nx"
    let s := (start text).after 3
    let answers := (start text).answers 3
    answers = [.ok ⟨.string, "a\"\n", none⟩, .ok ⟨.whitespace, " \n", none⟩,
        .ok ⟨.identifier, "x", none⟩] ∧
      (∀ e, .error e ∉ answers) ∧ s.rest = [] ∧ s.line = 3 ∧
      s.line = 1 + Token.feeds (tokensOf answers) ∧
      ∃ taken, text.toList = taken ++ s.rest ∧ s.line = 1 + taken.count '\n' := by
  intro text s answers
  have hanswers : answers = [.ok ⟨.string, "a\"\n", none⟩, .ok ⟨.whitespace, " \n", none⟩,
      .ok ⟨.identifier, "x", none⟩] := by decide +kernel
  have hok : ∀ e, .error e ∉ answers := by simp [hanswers]
  obtain ⟨hline, -, taken, htaken, -, hcount⟩ := line_counts_feeds text 3
  exact ⟨hanswers, hok, by decide +kernel, by decide +kernel, hline, taken, htaken, hcount hok⟩

end Scanner

end LineCalc
