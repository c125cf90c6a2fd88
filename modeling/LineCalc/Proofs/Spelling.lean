/-
  LineCalc/Proofs/Spelling.lean
  =============================
  **Which token lists a text can have, and which text they came from.**

  A token can be written back: its text, a string between quotes with its own
  quotes escaped, the end of the line as nothing.  A token list is *canonical*
  when each token has a form that the scanner produces and no two neighbours
  would have been read as one.  Reading and writing are then inverse to each
  other: the tokens of a text are the one canonical list that spells the text up
  to its first NUL.

  Everything rests on what one lexeme is.  `Lexeme.read_eq_token_iff` says that a
  text starts with the lexeme `t` exactly when it is the spelling of `t` followed
  by a character that `t` cannot take in.  The rest is an induction over the text
  in one direction and over the tokens in the other.
-/
import LineCalc.Token.Scanner
import Mathlib.Data.List.Chain
import Mathlib.Data.List.TakeWhile

namespace LineCalc

/-! ### How tokens are written -/

/-- A text inside quotes: each of its own quotes gets a backslash. -/
def Token.escape (text : List Char) : List Char :=
  text.flatMap fun c => if c = '"' then ['\\', '"'] else [c]

theorem Token.escape_cons (c : Char) (text : List Char) :
    escape (c :: text) = (if c = '"' then ['\\', '"'] else [c]) ++ escape text := rfl

theorem Token.escape_append (text text' : List Char) :
    escape (text ++ text') = escape text ++ escape text' := List.flatMap_append

/-- How a token is written. -/
def Token.spelling (t : Token) : List Char :=
  match t.kind with
  | .string => '"' :: (Token.escape t.text.toList ++ ['"'])
  | .endOfLine => []
  | _ => t.text.toList

/-- How a list of tokens is written. -/
def Token.spell (ts : List Token) : List Char := ts.flatMap Token.spelling

@[simp] theorem Token.spell_nil : Token.spell [] = [] := rfl

@[simp] theorem Token.spell_cons (t : Token) (ts : List Token) :
    Token.spell (t :: ts) = t.spelling ++ Token.spell ts := rfl

theorem Token.spell_append (ts us : List Token) :
    Token.spell (ts ++ us) = Token.spell ts ++ Token.spell us := List.flatMap_append

/-- The part of a text that is read: nothing counts from its first NUL on. -/
def Token.beforeNul (cs : List Char) : List Char := cs.takeWhile (· ≠ '\x00')

/-- The first NUL of a text and what follows it. -/
def Token.afterNul (cs : List Char) : List Char := cs.dropWhile (· ≠ '\x00')

theorem Token.beforeNul_append_afterNul (cs : List Char) : beforeNul cs ++ afterNul cs = cs :=
  List.takeWhile_append_dropWhile

theorem Token.beforeNul_afterNul (cs : List Char) : beforeNul (afterNul cs) = [] := by
  have hhead := List.head?_dropWhile_not (· ≠ '\x00') cs
  unfold beforeNul afterNul
  cases h : cs.dropWhile (· ≠ '\x00') with
  | nil => rfl
  | cons c rest =>
    rw [h] at hhead
    simp_all

/-! ### Canonical token lists -/

/-- A first character of one class and any number of another. -/
def Token.IsRun (first later : Char → Bool) : List Char → Prop
  | [] => False
  | c :: cs => first c ∧ ∀ d ∈ cs, later d

theorem Token.IsRun.not_mem {first later : Char → Bool} {run : List Char} {c : Char}
    (h : IsRun first later run) (hfirst : first c = false) (hlater : later c = false) :
    c ∉ run := by
  cases run with
  | nil => simp
  | cons d run =>
    intro hmem
    rcases List.mem_cons.mp hmem with rfl | hmem
    · rw [h.1] at hfirst
      cases hfirst
    · rw [h.2 c hmem] at hlater
      cases hlater

/-- A token, other than the end of the line, of a form that a text can have. -/
def Token.Lexical (t : Token) : Prop :=
  match t.kind with
  | .whitespace => IsRun Lexeme.isBlankStart Lexeme.isBlankPart t.text.toList ∧ t.operator = none
  | .number => IsRun Char.isDigit Char.isDigit t.text.toList ∧ t.operator = none
  | .identifier =>
    IsRun Char.isAlpha Char.isAlphanum t.text.toList ∧ (∀ word : Keyword, word.word ≠ t.text) ∧
      t.operator = none
  | .keyword word => t.text = word.word ∧ t.operator = none
  | .string => '\x00' ∉ t.text.toList ∧ t.text.toList.getLast? ≠ some '\\' ∧ t.operator = none
  | .operator => ∃ op, op ≠ .invalid ∧ t.text = op.symbol ∧ t.operator = some op
  | .endOfLine | .invalid => False

theorem Lexeme.keyword_isRun (word : Keyword) :
    Token.IsRun Char.isAlpha Char.isAlphanum word.word.toList := by
  cases word <;> simp [Token.IsRun, Keyword.word]

/-- Only blank runs and strings hold line feeds. -/
theorem Token.Lexical.kind_of_feed {t : Token} (ht : t.Lexical) (hfeed : '\n' ∈ t.text.toList) :
    t.kind = .whitespace ∨ t.kind = .string := by
  obtain ⟨kind, text, operator⟩ := t
  cases kind with
  | endOfLine => exact absurd ht id
  | invalid => exact absurd ht id
  | whitespace => exact .inl rfl
  | string => exact .inr rfl
  | number => exact absurd hfeed (ht.1.not_mem (by decide) (by decide))
  | identifier => exact absurd hfeed (ht.1.not_mem (by decide) (by decide))
  | keyword word =>
    obtain ⟨rfl, -⟩ := ht
    exact absurd hfeed ((Lexeme.keyword_isRun word).not_mem (by decide) (by decide))
  | operator =>
    obtain ⟨op, -, rfl, rfl⟩ := ht
    exact absurd hfeed (by cases op <;> decide)

theorem Token.Lexical.count_feed_eq_zero {t : Token} (ht : t.Lexical)
    (hblank : t.kind ≠ .whitespace) (hstring : t.kind ≠ .string) :
    t.text.toList.count '\n' = 0 :=
  List.count_eq_zero.mpr fun hfeed => (ht.kind_of_feed hfeed).elim hblank hstring

/-- A name or a reserved word. -/
def Token.isWord (t : Token) : Bool :=
  match t.kind with
  | .identifier | .keyword _ => true
  | _ => false

/-- The second token, written right after the first, would be read into it. -/
def Token.Merges (a b : Token) : Prop :=
  (a.kind = .whitespace ∧ b.kind = .whitespace) ∨
  (a.kind = .number ∧ b.kind = .number) ∨
  (a.isWord ∧ (b.isWord ∨ b.kind = .number)) ∨
  ((a.isOperator .assign ∨ a.isOperator .not) ∧ (b.isOperator .assign ∨ b.isOperator .equal))

/-- Tokens that a text can have, closed by the end of the line. -/
def Token.Canonical (ts : List Token) : Prop :=
  ∃ body, ts = body ++ [.endOfLine] ∧ (∀ t ∈ body, t.Lexical) ∧
    body.IsChain fun a b => ¬ a.Merges b

/-! ### Where a token ends -/

/-- A character that the token takes in when it follows. -/
def Token.continues (t : Token) (c : Char) : Bool :=
  match t.kind with
  | .whitespace => Lexeme.isBlankPart c
  | .number => c.isDigit
  | .identifier | .keyword _ => c.isAlphanum
  | .operator => (t.isOperator .assign || t.isOperator .not) && c = '='
  | _ => false

/-- The token ends before this text. -/
def Token.Delimited (t : Token) (cs : List Char) : Prop :=
  ∀ c ∈ cs.head?, t.continues c = false

namespace Lexeme

/-! ### Character classes do not overlap -/

theorem isBlankPart_of_isBlankStart {c : Char} (h : isBlankStart c) : isBlankPart c := by
  simp only [isBlankStart, Bool.or_eq_true, decide_eq_true_eq] at h
  rcases h with rfl | rfl <;> decide

theorem isBlankPart_eq_false_of_isAlphanum {c : Char} (h : c.isAlphanum) :
    isBlankPart c = false := by
  simp only [isBlankPart, Bool.or_eq_false_iff, decide_eq_false_iff_not]
  refine ⟨⟨⟨⟨⟨?_, ?_⟩, ?_⟩, ?_⟩, ?_⟩, ?_⟩ <;> (rintro rfl; revert h; decide)

theorem isAlpha_eq_false_of_isDigit {c : Char} (h : c.isDigit) : c.isAlpha = false := by
  simp only [Char.isDigit, Bool.and_eq_true, decide_eq_true_eq] at h
  delta Char.isAlpha Char.isUpper Char.isLower
  grind

theorem isDigit_eq_false_of_isAlpha {c : Char} (h : c.isAlpha) : c.isDigit = false := by
  by_contra hdigit
  rw [isAlpha_eq_false_of_isDigit (by simpa using hdigit)] at h
  cases h

theorem isAlphanum_of_isDigit {c : Char} (h : c.isDigit) : c.isAlphanum := by
  simp [Char.isAlphanum, h]

theorem isAlphanum_of_isAlpha {c : Char} (h : c.isAlpha) : c.isAlphanum := by
  simp [Char.isAlphanum, h]

theorem ne_of_isAlphanum {c d : Char} (h : c.isAlphanum) (hd : d.isAlphanum = false) : c ≠ d := by
  rintro rfl
  rw [h] at hd
  cases hd

/-! ### Strings -/

theorem collect_plain {c : Char} (hnul : c ≠ '\x00') (hquote : c ≠ '"')
    (collected : List Char) (feeds : Nat) (cs : List Char) :
    collect collected feeds (c :: cs) = collect (c :: collected) (feeds + [c].count '\n') cs := by
  by_cases hfeed : c = '\n'
  · simp [collect, hfeed]
  · simp [collect, hnul, hquote, hfeed]

/-- The loop goes on over the written form of a text and collects the text. -/
theorem collect_escape {text : List Char} (hnul : '\x00' ∉ text) (collected : List Char)
    (feeds : Nat) (cs : List Char) :
    collect collected feeds (Token.escape text ++ cs) =
      collect (text.reverse ++ collected) (feeds + text.count '\n') cs := by
  induction text generalizing collected feeds with
  | nil => rfl
  | cons c text ih =>
    obtain ⟨hc, hnul'⟩ : '\x00' ≠ c ∧ '\x00' ∉ text := by simpa using hnul
    have hstep : collect collected feeds (Token.escape (c :: text) ++ cs) =
        collect (c :: collected) (feeds + [c].count '\n') (Token.escape text ++ cs) := by
      by_cases hquote : c = '"'
      · -- the quote replaces the backslash that was collected before it
        simp [Token.escape, hquote, collect]
      · rw [Token.escape_cons, if_neg hquote]
        exact collect_plain hc.symm hquote collected feeds _
    have hcount : (c :: text).count '\n' = [c].count '\n' + text.count '\n' := by
      rw [← List.count_append]
      rfl
    rw [hstep, ih hnul', hcount, List.reverse_cons, List.append_assoc, Nat.add_assoc]
    rfl

/-- Reading a string undoes writing it. -/
theorem collect_escape_quote {text : List Char} (hnul : '\x00' ∉ text)
    (hlast : text.getLast? ≠ some '\\') (cs : List Char) :
    collect [] 0 (Token.escape text ++ '"' :: cs) = .closed text (text.count '\n') cs := by
  rw [collect_escape hnul, List.append_nil]
  simp [collect, hlast]

/-- What has been collected, as it is written, and what has not been read yet make up the written
    form of the string. -/
theorem collect_eq_closed {collected cs text rest : List Char} {feeds feeds' : Nat}
    (h : collect collected feeds cs = .closed text feeds' rest) :
    Token.escape collected.reverse ++ cs = Token.escape text ++ '"' :: rest ∧
      text.getLast? ≠ some '\\' ∧ ('\x00' ∉ collected → '\x00' ∉ text) := by
  fun_induction collect collected feeds cs with
  | case1 | case2 => cases h
  | case3 collected feeds cs hbackslash _ ih =>
    obtain ⟨before, rfl⟩ := List.head?_eq_some_iff.mp hbackslash
    obtain ⟨hchars, hlast, hfree⟩ := ih h
    refine ⟨?_, hlast, by simpa using hfree⟩
    simpa [Token.escape_append, Token.escape] using hchars
  | case4 collected feeds cs hopen =>
    cases h
    exact ⟨rfl, by simpa using hopen, by simp⟩
  | case5 collected feeds cs _ _ ih =>
    obtain ⟨hchars, hlast, hfree⟩ := ih h
    refine ⟨?_, hlast, by simpa using hfree⟩
    simpa [Token.escape_append, Token.escape] using hchars
  | case6 collected feeds c cs hnul hquote hfeed ih =>
    obtain ⟨hchars, hlast, hfree⟩ := ih h
    refine ⟨?_, hlast, by simpa [Ne.symm hnul] using hfree⟩
    simpa [Token.escape_append, Token.escape, hquote] using hchars

/-! ### Operators -/

/-- No symbol but `==` and `!=` has two characters. -/
theorem second_eq_of_ofSymbol_eq_ok {c d : Char} {op : Operator}
    (h : Operator.ofSymbol (String.ofList [c, d]) = .ok op) : d = '=' := by
  have hchars : op.symbol.toList = [c, d] := by
    rw [(Operator.ofSymbol_eq_ok_iff.mp h).2, String.toList_ofList]
  cases op <;> simp [Operator.symbol] at hchars
  all_goals exact hchars.2.symm

/-- An operator is read where its symbol stands and does not go on. -/
theorem readOperator_symbol {op : Operator} {c : Char} {symbol cs : List Char}
    (hop : op ≠ .invalid) (hsym : op.symbol.toList = c :: symbol)
    (hcs : (op = .assign ∨ op = .not) → cs.head? ≠ some '=') :
    readOperator c (symbol ++ cs) = .ok (op, cs) := by
  cases symbol with
  | nil =>
    have hc : Operator.ofSymbol (String.ofList [c]) = .ok op := by
      rw [← hsym, String.ofList_toList]
      exact Operator.ofSymbol_eq_ok_iff.mpr ⟨hop, rfl⟩
    simp only [readOperator, List.nil_append, hc]
    split
    · next hext =>
      have hassign : op = .assign ∨ op = .not := by
        cases op <;> simp_all [Operator.extensible]
      split
      · rfl
      · next d rest =>
        split
        · next longer hlonger =>
          exact absurd (by rw [second_eq_of_ofSymbol_eq_ok hlonger]; rfl) (hcs hassign)
        · rfl
    · rfl
  | cons d symbol =>
    have hlong : op = .equal ∨ op = .notEqual := by
      cases op <;> simp_all [Operator.symbol]
    rcases hlong with rfl | rfl
    · have heq : '=' = c ∧ '=' = d ∧ [] = symbol := by simpa [Operator.symbol] using hsym
      obtain ⟨rfl, rfl, rfl⟩ := heq
      rfl
    · have heq : '!' = c ∧ '=' = d ∧ [] = symbol := by simpa [Operator.symbol] using hsym
      obtain ⟨rfl, rfl, rfl⟩ := heq
      rfl

theorem readOperator_eq_ok {c : Char} {cs rest : List Char} {op : Operator}
    (h : readOperator c cs = .ok (op, rest)) :
    op ≠ .invalid ∧ c :: cs = op.symbol.toList ++ rest ∧
      ((op = .assign ∨ op = .not) → rest.head? ≠ some '=') := by
  unfold readOperator at h
  split at h
  · cases h
  next single hsingle =>
  obtain ⟨hne, hsym⟩ := Operator.ofSymbol_eq_ok_iff.mp hsingle
  have hchars : single.symbol.toList = [c] := by rw [hsym, String.toList_ofList]
  split at h
  · next hext =>
    split at h
    · cases h
      exact ⟨hne, by rw [hchars]; rfl, by simp⟩
    · next d rest' =>
      split at h
      · next longer hlonger =>
        cases h
        obtain ⟨hne', hsym'⟩ := Operator.ofSymbol_eq_ok_iff.mp hlonger
        have hchars' : op.symbol.toList = [c, d] := by rw [hsym', String.toList_ofList]
        refine ⟨hne', by rw [hchars']; rfl, ?_⟩
        rintro (rfl | rfl) <;> simp [Operator.symbol] at hchars'
      · next hnone =>
        cases h
        refine ⟨hne, by rw [hchars]; rfl, ?_⟩
        rintro hop heq
        simp only [List.head?_cons, Option.some.injEq] at heq
        subst heq
        rcases hop with rfl | rfl <;>
          (simp [Operator.symbol] at hchars; subst hchars; cases hnone)
  · next hext =>
    cases h
    refine ⟨hne, by rw [hchars]; rfl, ?_⟩
    rintro (rfl | rfl) <;> simp [Operator.extensible] at hext

/-- **Every character of the class has a symbol**, so that an operator is read wherever one of
    them stands. -/
theorem exists_readOperator_eq_ok {c : Char} (hc : isOperatorStart c) (cs : List Char) :
    ∃ op rest, readOperator c cs = .ok (op, rest) := by
  have hsingle : ∃ op, Operator.ofSymbol (String.ofList [c]) = .ok op := by
    simp only [isOperatorStart, List.contains_eq_mem, List.mem_cons, List.not_mem_nil, or_false,
      decide_eq_true_eq] at hc
    rcases hc with rfl | rfl | rfl | rfl | rfl | rfl | rfl | rfl | rfl | rfl <;> exact ⟨_, rfl⟩
  obtain ⟨op, hop⟩ := hsingle
  simp only [readOperator, hop]
  repeat' split
  all_goals exact ⟨_, _, rfl⟩

/-! ### One lexeme -/

theorem takeWhile_append_of_head {p : Char → Bool} {run cs : List Char} (hrun : ∀ c ∈ run, p c)
    (hcs : ∀ c ∈ cs.head?, p c = false) : (run ++ cs).takeWhile p = run := by
  rw [List.takeWhile_append_of_pos hrun]
  cases cs with
  | nil => simp
  | cons c cs => simp [hcs c rfl]

theorem dropWhile_append_of_head {p : Char → Bool} {run cs : List Char} (hrun : ∀ c ∈ run, p c)
    (hcs : ∀ c ∈ cs.head?, p c = false) : (run ++ cs).dropWhile p = cs := by
  rw [List.dropWhile_append_of_pos hrun]
  cases cs with
  | nil => rfl
  | cons c cs => simp [hcs c rfl]

theorem ofWord_eq_keyword {word : Keyword} :
    Token.ofWord word.word = ⟨.keyword word, word.word, none⟩ := by
  cases word <;> rfl

theorem ofWord_eq_identifier {text : String} (h : ∀ word : Keyword, word.word ≠ text) :
    Token.ofWord text = ⟨.identifier, text, none⟩ := by
  have hnone : Keyword.ofWord? text = none := by
    simp [Keyword.ofWord?, h]
  simp [Token.ofWord, hnone]

theorem isBlankStart_eq_false_of_isAlphanum {c : Char} (h : c.isAlphanum) :
    isBlankStart c = false := by
  have := isBlankPart_eq_false_of_isAlphanum h
  by_contra hstart
  rw [isBlankPart_of_isBlankStart (by simpa using hstart)] at this
  cases this

theorem read_blank {run cs : List Char} (hrun : Token.IsRun isBlankStart isBlankPart run)
    (hcs : ∀ d ∈ cs.head?, isBlankPart d = false) :
    read (run ++ cs) = .token ⟨.whitespace, String.ofList run, none⟩ (run.count '\n') cs := by
  cases run with
  | nil => exact absurd hrun id
  | cons c run =>
    obtain ⟨hc, hlater⟩ := hrun
    have hnul : c ≠ '\x00' := by rintro rfl; revert hc; decide
    simp [read, blankRun, hnul, hc, takeWhile_append_of_head hlater hcs,
      dropWhile_append_of_head hlater hcs]

theorem read_digits {run cs : List Char} (hrun : Token.IsRun Char.isDigit Char.isDigit run)
    (hcs : ∀ d ∈ cs.head?, d.isDigit = false) :
    read (run ++ cs) = .token ⟨.number, String.ofList run, none⟩ 0 cs := by
  cases run with
  | nil => exact absurd hrun id
  | cons c run =>
    obtain ⟨hc, hlater⟩ := hrun
    have halnum := isAlphanum_of_isDigit hc
    have hnul : c ≠ '\x00' := ne_of_isAlphanum halnum (by decide)
    simp [read, hnul, isBlankStart_eq_false_of_isAlphanum halnum, hc,
      takeWhile_append_of_head hlater hcs, dropWhile_append_of_head hlater hcs]

theorem read_word {run cs : List Char} (hrun : Token.IsRun Char.isAlpha Char.isAlphanum run)
    (hcs : ∀ d ∈ cs.head?, d.isAlphanum = false) :
    read (run ++ cs) = .token (.ofWord (String.ofList run)) 0 cs := by
  cases run with
  | nil => exact absurd hrun id
  | cons c run =>
    obtain ⟨hc, hlater⟩ := hrun
    have halnum := isAlphanum_of_isAlpha hc
    have hnul : c ≠ '\x00' := ne_of_isAlphanum halnum (by decide)
    have hblank := isBlankStart_eq_false_of_isAlphanum halnum
    have hdigit := isDigit_eq_false_of_isAlpha hc
    simp [read, hnul, hblank, hdigit, hc, takeWhile_append_of_head hlater hcs,
      dropWhile_append_of_head hlater hcs]

theorem read_string {text cs : List Char} (hnul : '\x00' ∉ text)
    (hlast : text.getLast? ≠ some '\\') :
    read ('"' :: (Token.escape text ++ '"' :: cs)) =
      .token ⟨.string, String.ofList text, none⟩ (text.count '\n') cs := by
  simp [read, isBlankStart, collect_escape_quote hnul hlast]

theorem read_operator {op : Operator} {cs : List Char} (hop : op ≠ .invalid)
    (hcs : (op = .assign ∨ op = .not) → cs.head? ≠ some '=') :
    read (op.symbol.toList ++ cs) = .token (.ofOperator op) 0 cs := by
  cases hsym : op.symbol.toList with
  | nil => cases op <;> simp [Operator.symbol] at hsym
  | cons c symbol =>
    have hclass : c ≠ '\x00' ∧ isBlankStart c = false ∧ c.isDigit = false ∧ c.isAlpha = false ∧
        c ≠ '"' ∧ isOperatorStart c := by
      cases op <;> simp [Operator.symbol] at hsym hop <;> (obtain ⟨rfl, -⟩ := hsym; decide)
    obtain ⟨hnul, hblank, hdigit, halpha, hquote, hstart⟩ := hclass
    simp [read, hnul, hblank, hdigit, halpha, hquote, hstart, readOperator_symbol hop hsym hcs]

/-- What is written as a token is read as that token.  The line feeds counted are those in its
    text: where no reader counts there is none to count. -/
theorem read_spelling {t : Token} {cs : List Char} (ht : t.Lexical) (hcs : t.Delimited cs) :
    read (t.spelling ++ cs) = .token t (t.text.toList.count '\n') cs := by
  have hzero := ht.count_feed_eq_zero
  obtain ⟨kind, text, operator⟩ := t
  cases kind with
  | endOfLine => exact absurd ht id
  | invalid => exact absurd ht id
  | whitespace =>
    obtain ⟨hrun, rfl⟩ := ht
    simp only [Token.spelling]
    rw [read_blank hrun hcs, String.ofList_toList]
  | number =>
    obtain ⟨hrun, rfl⟩ := ht
    rw [hzero nofun nofun]
    simp only [Token.spelling]
    rw [read_digits hrun hcs, String.ofList_toList]
  | identifier =>
    obtain ⟨hrun, hword, rfl⟩ := ht
    rw [hzero nofun nofun]
    simp only [Token.spelling]
    rw [read_word hrun hcs, String.ofList_toList, ofWord_eq_identifier hword]
  | keyword word =>
    obtain ⟨rfl, rfl⟩ := ht
    rw [hzero nofun nofun]
    simp only [Token.spelling]
    rw [read_word (keyword_isRun word) hcs, String.ofList_toList, ofWord_eq_keyword]
  | string =>
    obtain ⟨hnul, hlast, rfl⟩ := ht
    simp only [Token.spelling, List.cons_append, List.append_assoc, List.nil_append]
    rw [read_string hnul hlast, String.ofList_toList]
  | operator =>
    obtain ⟨op, hne, rfl, rfl⟩ := ht
    rw [hzero nofun nofun]
    simp only [Token.spelling]
    rw [read_operator hne ?_, Token.ofOperator]
    intro hext heq
    have hstop := hcs '=' (by simpa using heq)
    rcases hext with rfl | rfl <;> simp [Token.continues, Token.isOperator] at hstop

theorem isRun_takeWhile {first later : Char → Bool} {c : Char} (cs : List Char) (hc : first c) :
    Token.IsRun first later (c :: cs.takeWhile later) :=
  ⟨hc, fun _ hd => List.mem_takeWhile_imp hd⟩

theorem head?_dropWhile_eq_false (p : Char → Bool) (cs : List Char) :
    ∀ c ∈ (cs.dropWhile p).head?, p c = false := by
  intro c hc
  have := List.head?_dropWhile_not p cs
  rw [hc] at this
  exact this

/-- A word is reserved or a name, and any letter or digit would belong to it. -/
theorem lexical_ofWord {run : List Char} (hrun : Token.IsRun Char.isAlpha Char.isAlphanum run) :
    (Token.ofWord (String.ofList run)).Lexical ∧
      (Token.ofWord (String.ofList run)).spelling = run ∧
      (Token.ofWord (String.ofList run)).continues = Char.isAlphanum := by
  by_cases hword : ∃ word : Keyword, word.word = String.ofList run
  · obtain ⟨word, hword⟩ := hword
    rw [← hword, ofWord_eq_keyword]
    refine ⟨⟨rfl, rfl⟩, ?_, rfl⟩
    simp [Token.spelling, hword]
  · have hnone : ∀ word : Keyword, word.word ≠ String.ofList run := fun word heq =>
      hword ⟨word, heq⟩
    rw [ofWord_eq_identifier hnone]
    refine ⟨⟨?_, hnone, rfl⟩, ?_, rfl⟩
    · rwa [String.toList_ofList]
    · simp [Token.spelling]

/-- What is read as a token stood there as the token is written, and ends there. -/
theorem spelling_of_read {t : Token} {feeds : Nat} {cs rest : List Char}
    (h : read cs = .token t feeds rest) :
    t.Lexical ∧ cs = t.spelling ++ rest ∧ t.Delimited rest := by
  cases cs with
  | nil => cases h
  | cons c cs =>
    simp only [read] at h
    split at h
    · cases h
    split at h
    · next hc =>
      cases h
      refine ⟨⟨?_, rfl⟩, ?_, head?_dropWhile_eq_false _ cs⟩
      · rw [String.toList_ofList]
        exact isRun_takeWhile cs hc
      · simp [Token.spelling]
    split at h
    · next hc =>
      cases h
      refine ⟨⟨?_, rfl⟩, ?_, head?_dropWhile_eq_false _ cs⟩
      · rw [String.toList_ofList]
        exact isRun_takeWhile cs hc
      · simp [Token.spelling]
    split at h
    · next hc =>
      cases h
      obtain ⟨hlex, hspell, hcont⟩ := lexical_ofWord (isRun_takeWhile cs hc)
      refine ⟨hlex, by rw [hspell]; simp, fun d hd => ?_⟩
      rw [hcont]
      exact head?_dropWhile_eq_false _ cs d hd
    split at h
    · next hq =>
      split at h
      · next heq =>
        cases h
        obtain ⟨hchars, hlast, hnul⟩ := collect_eq_closed heq
        obtain rfl : cs = _ := hchars
        have hnul := hnul List.not_mem_nil
        refine ⟨?_, ?_, ?_⟩
        · simp [Token.Lexical, hnul, hlast]
        · simp [Token.spelling, hq]
        · simp [Token.Delimited, Token.continues]
      · cases h
    split at h
    · split at h
      · next op rest' heq =>
        cases h
        obtain ⟨hne, hchars, hext⟩ := readOperator_eq_ok heq
        refine ⟨⟨op, hne, rfl, rfl⟩, hchars, ?_⟩
        intro d hd
        have hassign : (op = .assign ∨ op = .not) → d ≠ '=' := by
          rintro hop rfl
          exact hext hop hd
        simpa [Token.continues, Token.isOperator, Token.ofOperator] using hassign
      · cases h
    · cases h

/-- **One lexeme.**  A text starts with a token exactly when it is the token's spelling and the
    token ends there.  The line feeds counted are those in the text of the token. -/
theorem read_eq_token_iff {t : Token} {feeds : Nat} {cs rest : List Char} :
    read cs = .token t feeds rest ↔
      t.Lexical ∧ cs = t.spelling ++ rest ∧ t.Delimited rest ∧
        feeds = t.text.toList.count '\n' := by
  constructor
  · intro h
    obtain ⟨ht, rfl, hrest⟩ := spelling_of_read h
    rw [read_spelling ht hrest] at h
    cases h
    exact ⟨ht, rfl, hrest, rfl⟩
  · rintro ⟨ht, rfl, hrest, rfl⟩
    exact read_spelling ht hrest

theorem read_eq_endOfText_iff {cs : List Char} :
    read cs = .endOfText ↔ Token.beforeNul cs = [] := by
  cases cs with
  | nil => simp [read, Token.beforeNul]
  | cons c cs =>
    by_cases hc : c = '\x00'
    · simp [read, hc, Token.beforeNul]
    · simp only [read, hc, if_false]
      have htake : Token.beforeNul (c :: cs) ≠ [] := by simp [hc, Token.beforeNul]
      refine iff_of_false ?_ htake
      repeat' split
      all_goals simp [blankRun]

end Lexeme

namespace Token

/-! ### Neighbours -/

/-- A first character of each class is of no other class. -/
theorem isRun_blank_head {run : List Char}
    (h : IsRun Lexeme.isBlankStart Lexeme.isBlankPart run) :
    ∃ c cs, run = c :: cs ∧ Lexeme.isBlankPart c ∧ c.isDigit = false ∧ c.isAlpha = false ∧
      c ≠ '=' := by
  cases run with
  | nil => exact absurd h id
  | cons c cs =>
    have hc : c = ' ' ∨ c = '\t' := by simpa [Lexeme.isBlankStart] using h.1
    refine ⟨c, cs, rfl, ?_⟩
    rcases hc with rfl | rfl <;> decide

theorem isRun_digit_head {run : List Char} (h : IsRun Char.isDigit Char.isDigit run) :
    ∃ c cs, run = c :: cs ∧ Lexeme.isBlankPart c = false ∧ c.isDigit ∧ c.isAlpha = false ∧
      c ≠ '=' := by
  cases run with
  | nil => exact absurd h id
  | cons c cs =>
    have halnum := Lexeme.isAlphanum_of_isDigit h.1
    exact ⟨c, cs, rfl, Lexeme.isBlankPart_eq_false_of_isAlphanum halnum, h.1,
      Lexeme.isAlpha_eq_false_of_isDigit h.1, Lexeme.ne_of_isAlphanum halnum (by decide)⟩

theorem isRun_word_head {run : List Char} (h : IsRun Char.isAlpha Char.isAlphanum run) :
    ∃ c cs, run = c :: cs ∧ Lexeme.isBlankPart c = false ∧ c.isDigit = false ∧ c.isAlpha ∧
      c ≠ '=' := by
  cases run with
  | nil => exact absurd h id
  | cons c cs =>
    have halnum := Lexeme.isAlphanum_of_isAlpha h.1
    exact ⟨c, cs, rfl, Lexeme.isBlankPart_eq_false_of_isAlphanum halnum,
      Lexeme.isDigit_eq_false_of_isAlpha h.1, h.1, Lexeme.ne_of_isAlphanum halnum (by decide)⟩

/-- The first character of a spelling tells the kind of the token. -/
theorem Lexical.exists_head {t : Token} (ht : t.Lexical) :
    ∃ c cs, t.spelling = c :: cs ∧ (Lexeme.isBlankPart c ↔ t.kind = .whitespace) ∧
      (c.isDigit ↔ t.kind = .number) ∧ (c.isAlpha ↔ t.isWord) ∧
      (c = '=' ↔ t.isOperator .assign ∨ t.isOperator .equal) := by
  obtain ⟨kind, text, operator⟩ := t
  cases kind with
  | endOfLine => exact absurd ht id
  | invalid => exact absurd ht id
  | whitespace =>
    obtain ⟨hrun, rfl⟩ := ht
    obtain ⟨c, cs, htext, hblank, hdigit, halpha, hassign⟩ := isRun_blank_head hrun
    exact ⟨c, cs, htext, by simp [hblank], by simp [hdigit], by simp [halpha, isWord],
      by simp [hassign, isOperator]⟩
  | number =>
    obtain ⟨hrun, rfl⟩ := ht
    obtain ⟨c, cs, htext, hblank, hdigit, halpha, hassign⟩ := isRun_digit_head hrun
    exact ⟨c, cs, htext, by simp [hblank], by simp [hdigit], by simp [halpha, isWord],
      by simp [hassign, isOperator]⟩
  | identifier =>
    obtain ⟨hrun, -, rfl⟩ := ht
    obtain ⟨c, cs, htext, hblank, hdigit, halpha, hassign⟩ := isRun_word_head hrun
    exact ⟨c, cs, htext, by simp [hblank], by simp [hdigit], by simp [halpha, isWord],
      by simp [hassign, isOperator]⟩
  | keyword word =>
    obtain ⟨rfl, rfl⟩ := ht
    obtain ⟨c, cs, htext, hblank, hdigit, halpha, hassign⟩ :=
      isRun_word_head (Lexeme.keyword_isRun word)
    exact ⟨c, cs, htext, by simp [hblank], by simp [hdigit], by simp [halpha, isWord],
      by simp [hassign, isOperator]⟩
  | string =>
    obtain ⟨-, -, rfl⟩ := ht
    exact ⟨'"', _, rfl, by simp [Lexeme.isBlankPart], by simp, by simp [isWord],
      by simp [isOperator]⟩
  | operator =>
    obtain ⟨op, hne, rfl, rfl⟩ := ht
    cases op with
    | invalid => exact absurd rfl hne
    | _ => exact ⟨_, _, rfl, by decide, by decide, by decide, by decide⟩

theorem mem_of_nul_mem_escape {text : List Char} (h : '\x00' ∈ escape text) : '\x00' ∈ text := by
  obtain ⟨c, hc, hmem⟩ := List.mem_flatMap.mp h
  split at hmem
  · simp at hmem
  · rwa [List.mem_singleton.mp hmem]

/-- No spelling reaches beyond a NUL. -/
theorem Lexical.nul_not_mem {t : Token} (ht : t.Lexical) : '\x00' ∉ t.spelling := by
  obtain ⟨kind, text, operator⟩ := t
  cases kind with
  | endOfLine => exact absurd ht id
  | invalid => exact absurd ht id
  | whitespace => exact ht.1.not_mem (by decide) (by decide)
  | number => exact ht.1.not_mem (by decide) (by decide)
  | identifier => exact ht.1.not_mem (by decide) (by decide)
  | keyword word =>
    obtain ⟨rfl, rfl⟩ := ht
    exact (Lexeme.keyword_isRun word).not_mem (by decide) (by decide)
  | string =>
    obtain ⟨hnul, -, rfl⟩ := ht
    simp only [spelling, List.mem_cons, List.mem_append, List.not_mem_nil, or_false]
    rintro (h | h | h)
    · revert h; decide
    · exact hnul (mem_of_nul_mem_escape h)
    · revert h; decide
  | operator =>
    obtain ⟨op, hne, rfl, rfl⟩ := ht
    cases op <;> decide

theorem Lexical.continues_head_iff {a b : Token} {c : Char} {cs : List Char} (ha : a.Lexical)
    (hb : b.Lexical) (hspell : b.spelling = c :: cs) : a.continues c ↔ a.Merges b := by
  obtain ⟨c', cs', hspell', hblank, hdigit, halpha, hassign⟩ := hb.exists_head
  obtain ⟨rfl, rfl⟩ : c = c' ∧ cs = cs' := by simpa [hspell] using hspell'
  obtain ⟨kind, text, operator⟩ := a
  cases kind with
  | endOfLine => exact absurd ha id
  | invalid => exact absurd ha id
  | whitespace =>
    obtain ⟨-, rfl⟩ := ha
    simp [continues, Merges, isWord, isOperator, hblank]
  | number =>
    obtain ⟨-, rfl⟩ := ha
    simp [continues, Merges, isWord, isOperator, hdigit]
  | identifier =>
    obtain ⟨-, -, rfl⟩ := ha
    simp [continues, Merges, isWord, isOperator, Char.isAlphanum, halpha, hdigit]
  | keyword word =>
    obtain ⟨-, rfl⟩ := ha
    simp [continues, Merges, isWord, isOperator, Char.isAlphanum, halpha, hdigit]
  | string =>
    obtain ⟨-, -, rfl⟩ := ha
    simp [continues, Merges, isWord, isOperator]
  | operator => simp [continues, Merges, isWord, hassign]

/-- A token ends before another exactly when the two do not merge. -/
theorem Lexical.delimited_spelling_iff {a b : Token} (ha : a.Lexical) (hb : b.Lexical)
    (cs : List Char) : a.Delimited (b.spelling ++ cs) ↔ ¬ a.Merges b := by
  obtain ⟨c, tail, hspell, -⟩ := hb.exists_head
  rw [← ha.continues_head_iff hb hspell]
  simp [Delimited, hspell]

/-- A NUL belongs to no token. -/
theorem continues_nul (t : Token) : t.continues '\x00' = false := by
  unfold continues
  split <;> simp [Lexeme.isBlankPart]

theorem delimited_afterNul (t : Token) (cs : List Char) : t.Delimited (afterNul cs) := by
  intro c hc
  have hnul : c = '\x00' := by
    have := List.head?_dropWhile_not (· ≠ '\x00') cs
    rw [show (cs.dropWhile (· ≠ '\x00')).head? = some c from hc] at this
    simpa using this
  rw [hnul, t.continues_nul]

/-- Whether a token ends before further tokens shows at the next one. -/
theorem Lexical.delimited_spell_iff {t : Token} {ts : List Token} (ht : t.Lexical)
    (hts : ∀ b ∈ ts, b.Lexical) (cs : List Char) :
    t.Delimited (spell ts ++ afterNul cs) ↔ ∀ b ∈ ts.head?, ¬ t.Merges b := by
  cases ts with
  | nil => simpa [spell] using t.delimited_afterNul cs
  | cons b ts =>
    rw [spell_cons, List.append_assoc, ht.delimited_spelling_iff (hts b (List.mem_cons_self ..))]
    simp

theorem Lexical.beforeNul_spelling {t : Token} (ht : t.Lexical) (cs : List Char) :
    beforeNul (t.spelling ++ cs) = t.spelling ++ beforeNul cs := by
  refine List.takeWhile_append_of_pos fun c hc => ?_
  rw [decide_eq_true_eq]
  rintro rfl
  exact ht.nul_not_mem hc

/-! ### Token after token -/

theorem ofChars_of_endOfText {cs : List Char} (h : Lexeme.read cs = .endOfText) :
    ofChars cs = .ok [.endOfLine] := by
  rw [ofChars]
  split <;> simp_all

theorem ofChars_of_fault {e : LexError} {cs rest : List Char} (h : Lexeme.read cs = .fault e rest) :
    ofChars cs = .error e := by
  rw [ofChars]
  split <;> simp_all

theorem ofChars_of_token {t : Token} {feeds : Nat} {cs rest : List Char}
    (h : Lexeme.read cs = .token t feeds rest) : ofChars cs = (ofChars rest).map (t :: ·) := by
  rw [ofChars]
  split
  · simp_all
  · next t' _ rest' heq =>
    obtain ⟨rfl, -, rfl⟩ : t = t' ∧ _ ∧ rest = rest' := by simpa [h] using heq
    cases ofChars rest <;> rfl
  · simp_all

/-- A token at the front of a text is the first one read. -/
theorem ofChars_spelling {t : Token} {cs : List Char} (ht : t.Lexical) (hcs : t.Delimited cs) :
    ofChars (t.spelling ++ cs) = (ofChars cs).map (t :: ·) :=
  ofChars_of_token (Lexeme.read_spelling ht hcs)

/-- The tokens of a text keep apart and spell the text. -/
theorem canonical_of_ofChars {cs : List Char} {ts : List Token} (h : ofChars cs = .ok ts) :
    ∃ body, ts = body ++ [.endOfLine] ∧ (∀ t ∈ body, t.Lexical) ∧
      (body.IsChain fun a b => ¬ a.Merges b) ∧ spell body = beforeNul cs := by
  fun_induction ofChars cs generalizing ts with
  | case1 cs hread =>
    cases h
    exact ⟨[], rfl, by simp, by simp, (Lexeme.read_eq_endOfText_iff.mp hread).symm⟩
  | case2 cs t feeds rest hread ts' hts ih =>
    cases h
    obtain ⟨body, rfl, hlex, hchain, hspell⟩ := ih hts
    obtain ⟨ht, rfl, hrest, -⟩ := Lexeme.read_eq_token_iff.mp hread
    refine ⟨t :: body, rfl, ?_, ?_, ?_⟩
    · simpa [ht] using hlex
    · rw [← beforeNul_append_afterNul rest, ← hspell, ht.delimited_spell_iff hlex] at hrest
      exact List.isChain_cons.mpr ⟨hrest, hchain⟩
    · rw [spell_cons, ht.beforeNul_spelling, hspell]
  | case3 => cases h
  | case4 => cases h

/-- Tokens that keep apart are the tokens of the text that they spell, whatever
    follows a NUL. -/
theorem ofChars_of_canonical {body : List Token} {cs : List Char} (hlex : ∀ t ∈ body, t.Lexical)
    (hchain : body.IsChain fun a b => ¬ a.Merges b) (hspell : spell body = beforeNul cs) :
    ofChars cs = .ok (body ++ [.endOfLine]) := by
  rw [← beforeNul_append_afterNul cs, ← hspell]
  clear hspell
  induction body with
  | nil => exact ofChars_of_endOfText (Lexeme.read_eq_endOfText_iff.mpr (beforeNul_afterNul cs))
  | cons t body ih =>
    have ht : t.Lexical := hlex t (List.mem_cons_self ..)
    have hbody : ∀ b ∈ body, b.Lexical := fun b hb => hlex b (List.mem_cons_of_mem _ hb)
    obtain ⟨hhead, htail⟩ := List.isChain_cons.mp hchain
    have hdelim := (ht.delimited_spell_iff hbody cs).mpr hhead
    rw [spell_cons, List.append_assoc, ofChars_spelling ht hdelim, ih hbody htail]
    rfl

/-- **Reading is exact and loses nothing.**  A text has these tokens exactly when
    they are canonical and spell the text up to its first NUL. -/
theorem ofText_eq_ok_iff (text : String) (ts : List Token) :
    ofText text = .ok ts ↔ Canonical ts ∧ spell ts = beforeNul text.toList := by
  constructor
  · intro h
    obtain ⟨body, rfl, hlex, hchain, hspell⟩ := canonical_of_ofChars h
    refine ⟨⟨body, rfl, hlex, hchain⟩, ?_⟩
    rw [spell_append, hspell]
    simp [spelling, endOfLine]
  · rintro ⟨⟨body, rfl, hlex, hchain⟩, hspell⟩
    refine ofChars_of_canonical hlex hchain ?_
    rw [← hspell, spell_append]
    simp [spelling, endOfLine]

end Token
end LineCalc
