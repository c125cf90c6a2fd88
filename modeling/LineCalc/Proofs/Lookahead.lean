/-
  LineCalc/Proofs/Lookahead.lean
  ==============================
  **One token of lookahead.**  What a parser does is settled by the tokens that it takes
  and the one after them: with other tokens behind that one it has the same outcome,
  success or error, and leaves those.

  `Lookahead` says so of a parser.  It is closed under sequencing, because the token
  after those that the first parser takes is either taken by the second or the one after
  both.  A parser that decides on its first token has it when what it decides on has it
  (`Lookahead.of_first`).  Depth and rounds depend on all the tokens, but not what is
  done with enough of them (`Lookahead.of_bounded`).
-/
import LineCalc.Proofs.LongestPrefix

namespace LineCalc.Parser

open LineCalc.Grammar

variable {α β : Type}

/-- The same outcome with other tokens left. -/
def leaving (rest : List Token) :
    EStateM.Result ParseError (List Token) α → EStateM.Result ParseError (List Token) α
  | .ok a _ => .ok a rest
  | .error e _ => .error e rest

theorem leaving_left (res : EStateM.Result ParseError (List Token) α) :
    leaving (left res) res = res := by
  cases res <;> rfl

/-- The parser takes tokens from the front, and what it does depends on them and on the
    next one, if there is a next one. -/
structure Lookahead (p : Parser α) : Prop where
  takes : Takes p
  alike : ∀ {u r r' : List Token}, left (p (u ++ r)) = r → r'.head? = r.head? →
    p (u ++ r') = leaving r' (p (u ++ r))

namespace Lookahead

theorem head?_append_congr {r r' : List Token} (h : r'.head? = r.head?) (m : List Token) :
    (m ++ r').head? = (m ++ r).head? := by
  rw [List.head?_append, List.head?_append, h]

theorem bind {p : Parser α} {f : α → Parser β} (hp : Lookahead p)
    (hf : ∀ a, Lookahead (f a)) : Lookahead (p >>= f) where
  takes := hp.takes.bind fun a => (hf a).takes
  alike := by
    intro u r r' hleft hhead
    cases h : p (u ++ r) with
    | error e rest =>
      rw [bind_of_error h] at hleft ⊢
      obtain rfl : rest = r := hleft
      have hsame := hp.alike (by rw [h]; rfl) hhead
      rw [h] at hsame
      rw [bind_of_error hsame]
      rfl
    | ok a mid =>
      rw [bind_of_ok h] at hleft ⊢
      -- `m` is what the second parser takes
      obtain ⟨m, rfl⟩ : r <:+ mid := by
        have hsuffix := (hf a).takes mid
        rwa [hleft] at hsuffix
      obtain ⟨w, hw⟩ := hp.takes.of_ok h
      obtain rfl : w ++ m = u := by
        rw [← List.append_assoc] at hw
        exact List.append_cancel_right hw
      rw [List.append_assoc] at h ⊢
      have hsame := hp.alike (by rw [h]; rfl) (head?_append_congr hhead m)
      rw [h] at hsame
      rw [bind_of_ok hsame]
      exact (hf a).alike hleft hhead

/-- A parser that leaves every token in place does not look at any. -/
theorem of_idle {p : Parser α} (res : EStateM.Result ParseError (List Token) α)
    (h : ∀ ts, p ts = leaving ts res) : Lookahead p := by
  have hleft : ∀ ts, left (p ts) = ts := by
    intro ts
    rw [h]
    cases res <;> rfl
  refine ⟨?_, ?_⟩
  · intro ts
    rw [hleft]
  · intro u r r' hr _
    obtain rfl : u = [] := by
      rw [hleft] at hr
      exact List.append_left_eq_self.mp hr
    rw [List.nil_append, List.nil_append, h, h]
    cases res <;> rfl

/-- A parser that does, for each first token, what another one does. -/
theorem of_first {p : Parser α} (hnil : left (p []) = [])
    (h : ∀ t, ∃ q, Lookahead q ∧ ∀ ts, p (t :: ts) = q (t :: ts)) : Lookahead p := by
  refine ⟨?_, ?_⟩
  · intro ts
    cases ts with
    | nil => rw [hnil]
    | cons t ts =>
      obtain ⟨q, hq, heq⟩ := h t
      rw [heq]
      exact hq.takes _
  · intro u r r' hleft hhead
    have hfirst := head?_append_congr hhead u
    cases hts : u ++ r with
    | nil =>
      obtain ⟨rfl, rfl⟩ := List.append_eq_nil_iff.mp hts
      obtain rfl : r' = [] := List.head?_eq_none_iff.mp hhead
      have hsame := leaving_left (p [])
      rw [hnil] at hsame
      exact hsame.symm
    | cons t ts =>
      rw [hts] at hfirst
      obtain ⟨ts', hts'⟩ := List.head?_eq_some_iff.mp hfirst
      obtain ⟨q, hq, heq⟩ := h t
      rw [hts, heq, ← hts] at hleft
      rw [hts', heq, heq, ← hts, ← hts']
      exact hq.alike hleft hhead

/-- What enough of a bound does, with one token of lookahead for every bound. -/
theorem of_bounded {p : Parser α} {q : Nat → Parser α} (hq : ∀ n, Lookahead (q n))
    (h : ∀ {n : Nat} {ts : List Token}, ts.length ≤ n → p ts = q n ts) : Lookahead p := by
  refine ⟨?_, ?_⟩
  · intro ts
    rw [h (Nat.le_refl _)]
    exact (hq _).takes ts
  · intro u r r' hleft hhead
    have hr : p (u ++ r) = q (max (u ++ r).length (u ++ r').length) (u ++ r) :=
      h (Nat.le_max_left ..)
    have hr' : p (u ++ r') = q (max (u ++ r).length (u ++ r').length) (u ++ r') :=
      h (Nat.le_max_right ..)
    rw [hr] at hleft ⊢
    rw [hr']
    exact (hq _).alike hleft hhead

end Lookahead

/-! ### Single tokens -/

theorem lookahead_pure (a : α) : Lookahead (pure a : Parser α) :=
  .of_idle (.ok a []) fun _ => rfl

theorem lookahead_throw (e : ParseError) : Lookahead (throw e : Parser α) :=
  .of_idle (.error e []) fun _ => rfl

theorem lookahead_peek : Lookahead peek := by
  apply Lookahead.of_first rfl
  intro t
  exact ⟨pure t, lookahead_pure t, fun _ => rfl⟩

theorem ne_of_suffix {t : Token} {ts us : List Token} (h : us <:+ ts) : us ≠ t :: ts := by
  intro heq
  have hlen := h.length_le
  rw [heq, List.length_cons] at hlen
  omega

theorem lookahead_next : Lookahead next := by
  refine ⟨takes_next, ?_⟩
  intro u r r' hleft hhead
  cases u with
  | nil =>
    cases r with
    | nil =>
      obtain rfl : r' = [] := List.head?_eq_none_iff.mp hhead
      rfl
    | cons t r => exact absurd hleft (ne_of_suffix (List.suffix_refl r))
  | cons t u =>
    obtain rfl : u = [] := List.append_left_eq_self.mp hleft
    rfl

theorem lookahead_space : Lookahead space := by
  refine ⟨takes_space, ?_⟩
  intro u r r' hleft hhead
  have hskip : skipSpace (u ++ r) = r := hleft
  suffices h : skipSpace (u ++ r') = r' by
    rw [space_apply, space_apply, h]
    rfl
  clear hleft
  induction u with
  | nil =>
    have hsolid : Solid r := by
      rw [← hskip]
      exact solid_skipSpace _
    have hsolid' : Solid r' := by
      unfold Solid
      rwa [hhead]
    exact hsolid'.skipSpace_eq
  | cons t u ih =>
    by_cases hspace : t.kind = .whitespace
    · have hcons : ∀ ts, skipSpace (t :: ts) = skipSpace ts := by simp [skipSpace, hspace]
      rw [List.cons_append, hcons] at hskip ⊢
      exact ih hskip
    · have hsolid : Solid (t :: (u ++ r)) := solid_cons.mpr hspace
      rw [List.cons_append, hsolid.skipSpace_eq] at hskip
      exact absurd hskip.symm (ne_of_suffix (List.suffix_append u r))

theorem lookahead_expectOperator (op : Operator) : Lookahead (expectOperator op) := by
  apply lookahead_next.bind
  intro t
  split
  · exact lookahead_pure _
  · exact lookahead_throw _

theorem lookahead_identifier : Lookahead identifier := by
  apply lookahead_next.bind
  intro t
  split
  · exact lookahead_pure _
  · exact lookahead_throw _

theorem lookahead_number (literal : String) : Lookahead (number literal) := by
  unfold number
  split
  · exact lookahead_pure _
  · exact lookahead_throw _

/-! ### Primary expressions -/

/-- Signs are counted up to the first token that is none. -/
theorem spanSigns_append_congr {u r r' : List Token} {negative : Bool}
    (h : (spanSigns negative (u ++ r)).2 = r) (hhead : r'.head? = r.head?) :
    spanSigns negative (u ++ r') = ((spanSigns negative (u ++ r)).1, r') := by
  induction u generalizing negative with
  | nil =>
    cases r with
    | nil =>
      obtain rfl : r' = [] := List.head?_eq_none_iff.mp hhead
      rfl
    | cons t r =>
      obtain ⟨r'', rfl⟩ := List.head?_eq_some_iff.mp hhead
      simp only [List.nil_append, spanSigns] at h ⊢
      -- white space and signs would have been taken
      split at h
      · exact absurd h (ne_of_suffix (spanSigns_suffix _ r))
      split at h
      · exact absurd h (ne_of_suffix (spanSigns_suffix _ r))
      · simp_all
  | cons t u ih =>
    simp only [List.cons_append, spanSigns] at h ⊢
    by_cases hspace : t.kind = .whitespace
    · simp only [hspace, if_true] at h ⊢
      exact ih h
    · simp only [hspace, if_false] at h ⊢
      by_cases hsign : isSign t
      · simp only [hsign, if_true] at h ⊢
        exact ih h
      · simp only [hsign] at h
        exact absurd h.symm (ne_of_suffix (List.suffix_append u r))

theorem lookahead_signs : Lookahead signs := by
  refine ⟨spanSigns_suffix false, ?_⟩
  intro u r r' hleft hhead
  rw [signs_apply, signs_apply, spanSigns_append_congr hleft hhead]
  rfl

theorem lookahead_signedNumber : Lookahead signedNumber := by
  apply lookahead_signs.bind
  intro negative
  apply lookahead_next.bind
  intro t
  split
  · exact (lookahead_number _).bind fun value => lookahead_pure _
  · exact lookahead_throw _

theorem lookahead_group {inner : Parser Expr} (h : Lookahead inner) : Lookahead (group inner) :=
  lookahead_space.bind fun _ => h.bind fun e => lookahead_space.bind fun _ =>
    (lookahead_expectOperator _).bind fun _ => lookahead_pure e

theorem lookahead_primary {inner : Parser Expr} (h : Lookahead inner) :
    Lookahead (primary inner) := by
  apply Lookahead.of_first rfl
  intro t
  cases primaryStart inner t with
  | atom e _ heq => exact ⟨_, lookahead_next.bind fun _ => lookahead_pure e, heq⟩
  | invalidNumber _ _ heq => exact ⟨_, lookahead_throw _, heq⟩
  | unexpected heq => exact ⟨_, lookahead_throw _, heq⟩
  | group _ heq => exact ⟨_, lookahead_next.bind fun _ => lookahead_group h, heq⟩
  | sign heq => exact ⟨_, lookahead_signedNumber, heq⟩

/-! ### Chains and assignments -/

theorem lookahead_chainTail {level : Level} {operand : Parser Expr} (h : Lookahead operand)
    (rounds : Nat) (e : Expr) : Lookahead (chainTail level operand rounds e) := by
  induction rounds generalizing e with
  | zero => exact lookahead_pure e
  | succ rounds ih =>
    apply Lookahead.of_first rfl
    intro t
    cases hjoin : t.operator.bind level.join? with
    | none => exact ⟨pure e, lookahead_pure e, fun ts => by simp only [chainTail, hjoin]; rfl⟩
    | some join =>
      have hround := lookahead_next.bind fun _ => lookahead_space.bind fun _ =>
        h.bind fun right => lookahead_space.bind fun _ => ih (join e right)
      exact ⟨_, hround, fun ts => by simp only [chainTail, hjoin]; rfl⟩

theorem lookahead_chain {level : Level} {operand : Parser Expr} (h : Lookahead operand) :
    Lookahead (chain level operand) := by
  have hrest : ∀ e, Lookahead (chainRest level operand e) := by
    intro e
    apply Lookahead.of_bounded (fun rounds => lookahead_chainTail h rounds e)
    intro n ts hlen
    exact chainTail_eq_of_le h.takes (Nat.le_refl _) hlen e
  rw [chain_eq]
  exact h.bind fun e => lookahead_space.bind fun _ => hrest e

theorem lookahead_assignTo {inner : Parser Expr} (h : Lookahead inner) (target : Expr) :
    Lookahead (assignTo inner target) := by
  apply lookahead_space.bind
  intro _
  split
  · exact h.bind fun value => lookahead_space.bind fun _ => lookahead_pure _
  · exact lookahead_throw _

theorem lookahead_assignmentRest {inner : Parser Expr} (h : Lookahead inner) (target : Expr) :
    Lookahead (assignmentRest inner target) := by
  apply Lookahead.of_first rfl
  intro t
  by_cases hassign : t.isOperator .assign
  · exact ⟨next >>= fun _ => assignTo inner target,
      lookahead_next.bind fun _ => lookahead_assignTo h target, fun ts => by
        simp only [assignmentRest, hassign, if_true]; rfl⟩
  · exact ⟨pure target, lookahead_pure target, fun ts => by
      simp only [assignmentRest, hassign]; rfl⟩

theorem lookahead_assignmentWith {inner : Parser Expr} (h : Lookahead inner) :
    Lookahead (assignmentWith inner) := by
  have hcomparison : Lookahead (comparisonWith inner) :=
    lookahead_chain (lookahead_chain (lookahead_chain (lookahead_primary h)))
  rw [assignmentWith_eq]
  exact hcomparison.bind fun target => lookahead_space.bind fun _ =>
    lookahead_assignmentRest h target

theorem lookahead_nested (depth : Nat) : Lookahead (nested depth) := by
  induction depth with
  | zero => exact lookahead_throw _
  | succ depth ih => exact lookahead_assignmentWith ih

theorem lookahead_expression : Lookahead expression :=
  .of_bounded lookahead_nested expression_eq_nested

theorem lookahead_ofRank (rank : Rank) : Lookahead (ofRank rank) := by
  induction rank using Rank.operand_induction with
  | primary => exact lookahead_primary lookahead_expression
  | chain level ih =>
    rw [ofRank_chain]
    exact lookahead_chain ih
  | expression => exact lookahead_expression

/-! ### Statements and programs -/

theorem lookahead_initializer (name : String) : Lookahead (initializer name) :=
  (lookahead_expectOperator _).bind fun _ => lookahead_space.bind fun _ =>
    lookahead_expression.bind fun _ => lookahead_space.bind fun _ => lookahead_pure _

theorem lookahead_declaration : Lookahead declaration := by
  rw [declaration_eq]
  apply lookahead_space.bind
  intro _
  apply lookahead_identifier.bind
  intro name
  apply lookahead_space.bind
  intro _
  apply lookahead_peek.bind
  intro t
  split
  · exact lookahead_pure _
  · exact lookahead_initializer name

theorem lookahead_statement : Lookahead statement := by
  apply Lookahead.of_first rfl
  intro t
  by_cases hset : t.kind = .keyword .set
  · exact ⟨next >>= fun _ => declaration, lookahead_next.bind fun _ => lookahead_declaration,
      fun ts => by simp only [statement, hset, if_true]; rfl⟩
  · exact ⟨expression >>= fun e => pure (Statement.expr e),
      lookahead_expression.bind fun e => lookahead_pure _,
      fun ts => by simp only [statement, hset, if_false]; rfl⟩

theorem lookahead_statements (rounds : Nat) : Lookahead (statements rounds) := by
  induction rounds with
  | zero => exact lookahead_throw _
  | succ rounds ih =>
    rw [statements]
    apply lookahead_space.bind
    intro _
    apply lookahead_peek.bind
    intro t
    split
    · exact lookahead_next.bind fun _ => lookahead_pure _
    · exact lookahead_statement.bind fun first => ih.bind fun others => lookahead_pure _

theorem lookahead_program : Lookahead program :=
  .of_bounded lookahead_statements fun hlen => statements_eq_of_le (Nat.le_refl _) hlen

/-! ### All the parsers that can be called -/

/-- A parser that can be called on tokens. -/
inductive Entry where
  | program
  | statement
  | expr (entry : ExprEntry)
  deriving DecidableEq, Repr

/-- What each of them reads. -/
def Entry.Tree : Entry → Type
  | .program => Program
  | .statement => Statement
  | .expr _ => Expr

def Entry.parser : (entry : Entry) → Parser entry.Tree
  | .program => Parser.program
  | .statement => Parser.statement
  | .expr entry => entry.parser

theorem Entry.lookahead (entry : Entry) : Lookahead entry.parser := by
  cases entry with
  | program => exact lookahead_program
  | statement => exact lookahead_statement
  | expr entry =>
    show Lookahead entry.parser
    rw [entry.parser_eq]
    exact lookahead_ofRank entry.rank

/-- **One token of lookahead, no way back.**  A parser that leaves `r` of the tokens `u ++ r`
    has the same outcome, success or error, with any other `r'` behind `u` that starts with
    the same token, or is empty as `r` is, and it leaves `r'`. -/
theorem Entry.parser_append_congr (entry : Entry) (u r r' : List Token)
    (hleft : left (entry.parser (u ++ r)) = r) (hhead : r'.head? = r.head?) :
    entry.parser (u ++ r') = leaving r' (entry.parser (u ++ r)) :=
  entry.lookahead.alike hleft hhead

/-- The value of a declaration fails at a closing parenthesis, which it leaves; its name
    carries an operator, and what stands behind the parenthesis makes no difference. -/
theorem Entry.parser_append_congr_unclosed :
    let close : Token := .ofOperator .rightParen
    let u : List Token := [.ofWord "set", ⟨.whitespace, " ", none⟩, ⟨.identifier, "a", some .minus⟩,
      .ofOperator .assign, .ofOperator .leftParen]
    let r : List Token := [close, .ofWord "x"]
    let r' : List Token := [close, .endOfLine, .ofOperator .plus]
    left (Parser.statement (u ++ r)) = r ∧ r'.head? = r.head? ∧
      Parser.statement (u ++ r') = .error (.unexpectedToken .expression close) r' := by
  intro close u r r'
  have hread : Parser.statement (u ++ r) = .error (.unexpectedToken .expression close) r := rfl
  have hleft : left (Parser.statement (u ++ r)) = r := by rw [hread]; rfl
  have hsame := Entry.parser_append_congr .statement u r r' hleft rfl
  refine ⟨hleft, rfl, hsame.trans ?_⟩
  exact congrArg (leaving r') hread

end LineCalc.Parser
