/-
  LineCalc/Proofs/LineEnd.lean
  ============================
  **Nothing is read beyond the end of a line.**  Whatever the tokens before it are, the
  first end of line settles the outcome of a program: what follows is left alone, and the
  tokens have never run out.

  Some parsers take the token that they did not expect, and that can be the end of the
  line.  They fail then, so nothing goes on behind it.  `Confined` holds both cases: a
  success stops before the end of the line and an error at its end at the latest, with the
  same outcome whatever stands behind the line.  The bound on the length of the line takes
  the place of the depth, which would depend on the tokens behind it.
-/
import LineCalc.Proofs.RoundTrip

namespace LineCalc.Parser

variable {α β : Type}

/-! ### Parsers within a line -/

/-- No line ends among the tokens. -/
def WithinLine (u : List Token) : Prop := ∀ t ∈ u, t.kind ≠ .endOfLine

theorem WithinLine.suffix {u w : List Token} (h : WithinLine u) (hw : w <:+ u) : WithinLine w :=
  fun t ht => h t (hw.subset ht)

/-- On the line `u` the parser succeeds before its end, or it fails at its end at the latest
    and not for want of tokens; what follows the line has no part in it. -/
def ConfinedOn (p : Parser α) (u : List Token) : Prop :=
  (∃ a w, w <:+ u ∧ ∀ v, p (u ++ .endOfLine :: v) = .ok a (w ++ .endOfLine :: v)) ∨
    ∃ e w, e ≠ .unexpectedEnd ∧ ∀ v, p (u ++ .endOfLine :: v) = .error e (w ++ v)

/-- The same on all lines of fewer than `n` tokens. -/
def Confined (n : Nat) (p : Parser α) : Prop :=
  ∀ u, u.length < n → WithinLine u → ConfinedOn p u

namespace Confined

variable {n : Nat}

theorem zero (p : Parser α) : Confined 0 p := fun _ hlen => absurd hlen (Nat.not_lt_zero _)

theorem pred {p : Parser α} (h : Confined (n + 1) p) : Confined n p :=
  fun u hlen => h u (Nat.lt_succ_of_lt hlen)

theorem bind {p : Parser α} {f : α → Parser β} (hp : Confined n p)
    (hf : ∀ a, Confined n (f a)) : Confined n (p >>= f) := by
  intro u hlen hline
  rcases hp u hlen hline with ⟨a, w, hw, h⟩ | ⟨e, w, he, h⟩
  · rcases hf a w (Nat.lt_of_le_of_lt hw.length_le hlen) (hline.suffix hw) with
      ⟨b, x, hx, h'⟩ | ⟨e, x, he, h'⟩
    · exact Or.inl ⟨b, x, hx.trans hw, fun v => by rw [bind_of_ok (h v), h']⟩
    · exact Or.inr ⟨e, x, he, fun v => by rw [bind_of_ok (h v), h']⟩
  · exact Or.inr ⟨e, w, he, fun v => bind_of_error (h v)⟩

/-- A parser that decides on its first token: it does on the whole line what a confined one
    does, or it takes the token and goes on with a confined one. -/
theorem of_first {p : Parser α} (hend : ConfinedOn p [])
    (h : ∀ t, t.kind ≠ .endOfLine →
      (∃ q, Confined (n + 1) q ∧ ∀ ts, p (t :: ts) = q (t :: ts)) ∨
        ∃ q, Confined n q ∧ ∀ ts, p (t :: ts) = q ts) : Confined (n + 1) p := by
  intro u hlen hline
  cases u with
  | nil => exact hend
  | cons t u =>
    rcases h t (hline t List.mem_cons_self) with ⟨q, hq, heq⟩ | ⟨q, hq, heq⟩
    · rcases hq _ hlen hline with ⟨a, w, hw, h'⟩ | ⟨e, w, he, h'⟩
      · exact Or.inl ⟨a, w, hw, fun v => (heq _).trans (h' v)⟩
      · exact Or.inr ⟨e, w, he, fun v => (heq _).trans (h' v)⟩
    · have hu : WithinLine u := hline.suffix (List.suffix_cons t u)
      rcases hq u (Nat.lt_of_succ_lt_succ hlen) hu with ⟨a, w, hw, h'⟩ | ⟨e, w, he, h'⟩
      · exact Or.inl ⟨a, w, hw.trans (List.suffix_cons t u), fun v => (heq _).trans (h' v)⟩
      · exact Or.inr ⟨e, w, he, fun v => (heq _).trans (h' v)⟩

end Confined

/-! ### Single tokens -/

theorem confined_pure (n : Nat) (a : α) : Confined n (pure a : Parser α) :=
  fun u _ _ => Or.inl ⟨a, u, List.suffix_refl u, fun _ => rfl⟩

theorem confined_throw (n : Nat) {e : ParseError} (he : e ≠ .unexpectedEnd) :
    Confined n (throw e : Parser α) := by
  intro u _ _
  refine Or.inr ⟨e, u ++ [.endOfLine], he, ?_⟩
  intro v
  rw [throw_apply, List.append_assoc, List.singleton_append]

theorem skipSpace_append_endOfLine (u v : List Token) :
    skipSpace (u ++ .endOfLine :: v) = skipSpace u ++ .endOfLine :: v := by
  unfold skipSpace
  induction u with
  | nil => rfl
  | cons t u ih =>
    rw [List.cons_append, List.dropWhile_cons, List.dropWhile_cons]
    split
    · exact ih
    · rfl

theorem confined_space (n : Nat) : Confined n space := by
  intro u _ _
  refine Or.inl ⟨(), skipSpace u, List.dropWhile_suffix _, ?_⟩
  intro v
  rw [space_apply, skipSpace_append_endOfLine]

theorem confined_peek (n : Nat) : Confined n peek := by
  intro u _ _
  cases u with
  | nil => exact Or.inl ⟨.endOfLine, [], List.suffix_refl _, fun _ => rfl⟩
  | cons t u => exact Or.inl ⟨t, t :: u, List.suffix_refl _, fun _ => rfl⟩

/-- The next token is taken and looked at; the end of the line is refused. -/
theorem confined_next_bind {n : Nat} {f : Token → Parser α} {e : ParseError}
    (he : e ≠ .unexpectedEnd) (hend : f .endOfLine = throw e) (hf : ∀ t, Confined n (f t)) :
    Confined n (next >>= f) := by
  cases n with
  | zero => exact .zero _
  | succ n =>
    apply Confined.of_first
    · refine Or.inr ⟨e, [], he, ?_⟩
      intro v
      rw [List.nil_append, bind_of_ok (next_eq_ok_iff.mpr rfl), hend]
      rfl
    · intro t _
      exact Or.inr ⟨f t, (hf t).pred, fun ts => bind_of_ok (next_eq_ok_iff.mpr rfl)⟩

theorem confined_expectOperator (n : Nat) (op : Operator) : Confined n (expectOperator op) := by
  refine confined_next_bind (e := .unexpectedToken (.operator op) .endOfLine) (by simp) rfl ?_
  intro t
  split
  · exact confined_pure n _
  · exact confined_throw n (by simp)

theorem confined_identifier (n : Nat) : Confined n identifier := by
  refine confined_next_bind (e := .unexpectedToken .identifier .endOfLine) (by simp) rfl ?_
  intro t
  split
  · exact confined_pure n _
  · exact confined_throw n (by simp)

theorem confined_number (n : Nat) (literal : String) : Confined n (number literal) := by
  unfold number
  split
  · exact confined_pure n _
  · exact confined_throw n (by simp)

/-! ### Expressions -/

/-- The end of the line is no sign. -/
theorem exists_spanSigns_endOfLine (negative : Bool) (u : List Token) :
    ∃ b w, w <:+ u ∧
      ∀ v, spanSigns negative (u ++ .endOfLine :: v) = (b, w ++ .endOfLine :: v) := by
  induction u generalizing negative with
  | nil => exact ⟨negative, [], List.suffix_refl _, fun _ => rfl⟩
  | cons t u ih =>
    have htail : ∀ {w}, w <:+ u → w <:+ t :: u := fun hw => hw.trans (List.suffix_cons t u)
    by_cases hspace : t.kind = .whitespace
    · obtain ⟨b, w, hw, h⟩ := ih negative
      refine ⟨b, w, htail hw, ?_⟩
      intro v
      rw [List.cons_append, spanSigns, if_pos hspace, h]
    by_cases hsign : isSign t
    · obtain ⟨b, w, hw, h⟩ := ih (negative ^^ t.isOperator .minus)
      refine ⟨b, w, htail hw, ?_⟩
      intro v
      rw [List.cons_append, spanSigns, if_neg hspace, if_pos hsign, h]
    · refine ⟨negative, t :: u, List.suffix_refl _, ?_⟩
      intro v
      rw [List.cons_append, spanSigns, if_neg hspace, if_neg hsign]

theorem confined_signs (n : Nat) : Confined n signs := by
  intro u _ _
  obtain ⟨b, w, hw, h⟩ := exists_spanSigns_endOfLine false u
  refine Or.inl ⟨b, w, hw, ?_⟩
  intro v
  rw [signs_apply, h]

theorem confined_signedNumber (n : Nat) : Confined n signedNumber := by
  apply (confined_signs n).bind
  intro negative
  refine confined_next_bind (e := .unexpectedToken .numberAfterSign .endOfLine) (by simp) rfl ?_
  intro t
  split
  · exact (confined_number n _).bind fun value => confined_pure n _
  · exact confined_throw n (by simp)

section Levels

variable {n : Nat} {inner : Parser Expr}

theorem confined_group (h : Confined n inner) : Confined n (group inner) :=
  (confined_space n).bind fun _ => h.bind fun e => (confined_space n).bind fun _ =>
    (confined_expectOperator n _).bind fun _ => confined_pure n e

/-- A nested expression stands behind a parenthesis. -/
theorem confined_primary (h : Confined n inner) : Confined (n + 1) (primary inner) := by
  apply Confined.of_first
  · exact Or.inr ⟨.unexpectedToken .expression .endOfLine, [.endOfLine], by simp, fun _ => rfl⟩
  intro t _
  cases primaryStart inner t with
  | atom e _ heq => exact Or.inr ⟨_, confined_pure n e, heq⟩
  | invalidNumber _ _ heq => exact Or.inl ⟨_, confined_throw _ (by simp), heq⟩
  | unexpected heq => exact Or.inl ⟨_, confined_throw _ (by simp), heq⟩
  | group _ heq => exact Or.inr ⟨_, confined_group h, heq⟩
  | sign heq => exact Or.inl ⟨_, confined_signedNumber _, heq⟩

/-- By the length of the line: every further operand stands behind an operator. -/
theorem confined_chainRest {level : Level} {operand : Parser Expr} (ht : Takes operand)
    (h : Confined n operand) (e : Expr) : Confined n (chainRest level operand e) := by
  induction n generalizing e with
  | zero => exact .zero _
  | succ n ih =>
    apply Confined.of_first
    · exact Or.inl ⟨e, [], List.suffix_refl _, fun v => chainRest_of_none rfl operand e v⟩
    intro t _
    cases hjoin : t.operator.bind level.join? with
    | none =>
      exact Or.inl ⟨pure e, confined_pure _ e, fun ts => chainRest_of_none hjoin operand e ts⟩
    | some join =>
      have hround := (confined_space n).bind fun _ => h.pred.bind fun right =>
        (confined_space n).bind fun _ => ih h.pred (join e right)
      exact Or.inr ⟨_, hround, fun ts => chainRest_of_some ht hjoin e ts⟩

theorem confined_chain {level : Level} {operand : Parser Expr} (ht : Takes operand)
    (h : Confined n operand) : Confined n (chain level operand) := by
  rw [chain_eq]
  exact h.bind fun e => (confined_space n).bind fun _ => confined_chainRest ht h e

theorem confined_comparisonWith (ht : Takes inner) (h : Confined n inner) :
    Confined (n + 1) (comparisonWith inner) := by
  have hp : Takes (primary inner) := takes_primary ht
  have hmultiplicative : Confined (n + 1) (multiplicativeWith inner) :=
    confined_chain hp (confined_primary h)
  exact confined_chain (takes_chain (takes_chain hp))
    (confined_chain (takes_chain hp) hmultiplicative)

theorem confined_assignTo (h : Confined n inner) (target : Expr) :
    Confined n (assignTo inner target) := by
  apply (confined_space n).bind
  intro _
  split
  · exact h.bind fun value => (confined_space n).bind fun _ => confined_pure n _
  · exact confined_throw n (by simp)

/-- The value of an assignment stands behind its `=`. -/
theorem confined_assignmentRest (h : Confined n inner) (target : Expr) :
    Confined (n + 1) (assignmentRest inner target) := by
  apply Confined.of_first
  · exact Or.inl ⟨target, [], List.suffix_refl _, fun _ => rfl⟩
  intro t _
  by_cases hassign : t.isOperator .assign
  · refine Or.inr ⟨assignTo inner target, confined_assignTo h target, ?_⟩
    intro ts
    simp only [assignmentRest, hassign, if_true]
  · refine Or.inl ⟨pure target, confined_pure _ target, ?_⟩
    intro ts
    simp only [assignmentRest, hassign, pure_apply, if_false, Bool.false_eq_true]

theorem confined_assignmentWith (ht : Takes inner) (h : Confined n inner) :
    Confined (n + 1) (assignmentWith inner) := by
  rw [assignmentWith_eq]
  exact (confined_comparisonWith ht h).bind fun target => (confined_space _).bind fun _ =>
    confined_assignmentRest h target

end Levels

theorem confined_expression (n : Nat) : Confined n expression := by
  induction n with
  | zero => exact .zero _
  | succ n ih =>
    rw [expression_eq]
    exact confined_assignmentWith takes_expression ih

/-! ### Statements and programs -/

theorem confined_initializer (n : Nat) (name : String) : Confined n (initializer name) :=
  (confined_expectOperator n _).bind fun _ => (confined_space n).bind fun _ =>
    (confined_expression n).bind fun _ => (confined_space n).bind fun _ => confined_pure n _

theorem confined_declaration (n : Nat) : Confined n declaration := by
  rw [declaration_eq]
  apply (confined_space n).bind
  intro _
  apply (confined_identifier n).bind
  intro name
  apply (confined_space n).bind
  intro _
  apply (confined_peek n).bind
  intro t
  split
  · exact confined_pure n _
  · exact confined_initializer n name

theorem confined_statement (n : Nat) : Confined n statement := by
  have hexpr : ∀ m, Confined m (expression >>= fun e => pure (Statement.expr e)) :=
    fun m => (confined_expression m).bind fun e => confined_pure m _
  cases n with
  | zero => exact .zero _
  | succ n =>
    apply Confined.of_first
    · exact hexpr 1 [] Nat.one_pos (by simp [WithinLine])
    intro t _
    by_cases hset : t.kind = .keyword .set
    · refine Or.inr ⟨declaration, confined_declaration n, ?_⟩
      intro ts
      simp only [statement, hset, if_true]
    · refine Or.inl ⟨_, hexpr (n + 1), ?_⟩
      intro ts
      simp only [statement, hset, if_false]
      rfl

/-- **The outcome of a line.**  A program takes the end of its line, or fails at it at the
    latest; what follows the line has no part in it. -/
theorem program_confined {u : List Token} (hline : WithinLine u) :
    (∃ p, ∀ v, program (u ++ .endOfLine :: v) = .ok p v) ∨
      ∃ e w, e ≠ .unexpectedEnd ∧ ∀ v, program (u ++ .endOfLine :: v) = .error e (w ++ v) := by
  -- by the number of tokens: every statement takes one
  induction hn : u.length using Nat.strongRecOn generalizing u with
  | ind n ih =>
    have hskipped : skipSpace u <:+ u := List.dropWhile_suffix _
    simp only [program_eq, skipSpace_append_endOfLine]
    cases hskip : skipSpace u with
    | nil => exact Or.inl ⟨[], fun _ => rfl⟩
    | cons t tail =>
      rw [hskip] at hskipped
      have ht : t.kind ≠ .endOfLine := hline t (hskipped.subset List.mem_cons_self)
      simp only [List.cons_append, ht, if_false]
      rcases confined_statement _ (t :: tail) (Nat.lt_succ_self _) (hline.suffix hskipped) with
        ⟨first, rest, hrest, hfirst⟩ | ⟨e, w, he, hfirst⟩
      · simp only [List.cons_append] at hfirst
        have hlen : rest.length < n := by
          have hadvances := advances_statement _ _ _ (hfirst [])
          have hle := hskipped.length_le
          simp only [List.length_append, List.length_cons, List.length_nil] at hadvances hle
          omega
        rcases ih _ hlen (hline.suffix (hrest.trans hskipped)) rfl with
          ⟨p, hothers⟩ | ⟨e, w, he, hothers⟩
        · refine Or.inl ⟨first :: p, ?_⟩
          intro v
          rw [statementThen, bind_of_ok (hfirst v), bind_of_ok (hothers v)]
          rfl
        · refine Or.inr ⟨e, w, he, ?_⟩
          intro v
          rw [statementThen, bind_of_ok (hfirst v), bind_of_error (hothers v)]
      · simp only [List.cons_append] at hfirst
        refine Or.inr ⟨e, w, he, ?_⟩
        intro v
        rw [statementThen, bind_of_error (hfirst v)]

/-- A program that is read leaves what follows its line. -/
theorem rest_of_program {u v rest : List Token} {p : Program} (hline : WithinLine u)
    (h : program (u ++ .endOfLine :: v) = .ok p rest) : rest = v := by
  rcases program_confined hline with ⟨q, hq⟩ | ⟨e, w, -, hq⟩
  · rw [hq] at h
    cases h
    rfl
  · rw [hq] at h
    cases h

end LineCalc.Parser

namespace LineCalc.Program

open LineCalc.Parser

/-- What follows a line does not change what the line is read as. -/
theorem ofTokens_append {u : List Token} (hline : WithinLine u) (v : List Token) :
    ofTokens (u ++ .endOfLine :: v) = ofTokens (u ++ [.endOfLine]) := by
  unfold ofTokens
  rcases program_confined hline with ⟨p, h⟩ | ⟨e, w, -, h⟩
  · rw [h, h]
  · rw [h, h]

/-- The tokens of a text make one line. -/
theorem exists_line_of_ofText {text : String} {ts : List Token} (h : Token.ofText text = .ok ts) :
    ∃ u, ts = u ++ [.endOfLine] ∧ WithinLine u := by
  obtain ⟨u, rfl, hlexical, -⟩ := Token.canonical_of_ofChars h
  exact ⟨u, rfl, fun t ht => (hlexical t ht).kind_ne_endOfLine⟩

/-- **The parser never reads beyond the first end of line.**  Before it the tokens do not run
    out, and what follows does not matter: the result is the same without it, an error leaves
    all of it and a success leaves nothing else.  So the end of line that a line gets on top
    of its own does not matter either. -/
theorem reads_one_line :
    (∀ u v : List Token, (∀ t ∈ u, t.kind ≠ .endOfLine) →
      (∀ rest, program (u ++ [.endOfLine] ++ v) ≠ .error .unexpectedEnd rest) ∧
        ofTokens (u ++ [.endOfLine] ++ v) = ofTokens (u ++ [.endOfLine]) ∧
        (∀ e rest, program (u ++ [.endOfLine] ++ v) = .error e rest → v <:+ rest) ∧
        ∀ p rest, program (u ++ [.endOfLine] ++ v) = .ok p rest → rest = v) ∧
      ∀ line ts, Token.ofText line = .ok ts →
        Session.parseLine line = (ofTokens ts).mapError .parse := by
  refine ⟨?_, ?_⟩
  · intro u v hline
    have happend : u ++ [.endOfLine] ++ v = u ++ .endOfLine :: v := by simp
    rw [happend]
    refine ⟨?_, ofTokens_append hline v, ?_, ?_⟩
    · intro rest
      rcases program_confined hline with ⟨p, h⟩ | ⟨e, w, he, h⟩
      · simp [h]
      · simp [h, he]
    · intro e rest hread
      rcases program_confined hline with ⟨p, h⟩ | ⟨e', w, -, h⟩
      · rw [h] at hread
        cases hread
      · rw [h] at hread
        cases hread
        exact List.suffix_append w v
    · intro p rest hread
      exact rest_of_program hline hread
  · intro line ts hts
    obtain ⟨u, rfl, hline⟩ := exists_line_of_ofText hts
    have hsame : ofTokens (u ++ [.endOfLine] ++ [.endOfLine]) = ofTokens (u ++ [.endOfLine]) := by
      rw [List.append_assoc]
      exact ofTokens_append hline [.endOfLine]
    simp only [Session.parseLine, Session.tokenizeLine, hts, hsame]
    cases ofTokens (u ++ [.endOfLine]) <;> rfl

/-- A declaration takes the end of the line for its name and fails; the name on the next
    line stays where it is. -/
theorem reads_one_line_unnamed :
    let u : List Token := [.keyword .set]
    let v : List Token := [.name "x", .endOfLine]
    let missing : ParseError := .unexpectedToken .identifier .endOfLine
    (∀ t ∈ u, t.kind ≠ .endOfLine) ∧ program (u ++ [.endOfLine] ++ v) = .error missing v ∧
      ofTokens (u ++ [.endOfLine] ++ v) = ofTokens (u ++ [.endOfLine]) ∧
      Token.ofText "set" = .ok (u ++ [.endOfLine]) ∧
      Session.parseLine "set" = .error (.parse missing) := by
  intro u v missing
  have hline : ∀ t ∈ u, t.kind ≠ .endOfLine := by decide
  have hread : program (u ++ [.endOfLine] ++ v) = .error missing v := rfl
  have hblock : Token.Block u := Token.block_keyword .set
  have hts : Token.ofText "set" = .ok (u ++ [.endOfLine]) :=
    Token.ofText_of_spell hblock.lexical hblock.apart rfl
  obtain ⟨-, hsame, -, -⟩ := reads_one_line.1 u v hline
  refine ⟨hline, hread, hsame, hts, ?_⟩
  rw [reads_one_line.2 "set" _ hts]
  rfl

end LineCalc.Program
