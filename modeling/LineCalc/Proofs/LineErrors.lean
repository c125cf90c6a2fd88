/-
  LineCalc/Proofs/LineErrors.lean
  ===============================
  **The errors that lines can cause.**  Of the ten kinds of errors, six can come from
  a line of text: every character that the scanner takes for the start of an operator
  is one (`Lexeme.exists_readOperator_eq_ok`), its tokens hold readable digits and an
  end of line, and the trees made of them all have a meaning.

  Which kinds these are does not depend on what a session has been through, and a
  fresh session shows each of them.
-/
import LineCalc.Proofs.EndOfText
import LineCalc.Proofs.ErrorCauses
import LineCalc.Proofs.RoundTrip

namespace LineCalc

/-! ### Kinds of errors -/

inductive LineError.Kind where
  | wrongLexing
  | unknownOperator
  | unexpectedToken
  | invalidTarget
  | invalidNumber
  | unexpectedEnd
  | alreadyDeclared
  | notDeclared
  | unknownVariable
  | unimplemented
  deriving DecidableEq, Repr

def LineError.kind : LineError → LineError.Kind
  | .lex (.unexpectedChar _) | .lex (.unterminatedString _) => .wrongLexing
  | .lex (.unknownOperator _) => .unknownOperator
  | .parse (.unexpectedToken _ _) => .unexpectedToken
  | .parse (.invalidTarget _) => .invalidTarget
  | .parse (.invalidNumber _) => .invalidNumber
  | .parse .unexpectedEnd => .unexpectedEnd
  | .eval (.alreadyDeclared _) => .alreadyDeclared
  | .eval (.notDeclared _) => .notDeclared
  | .eval (.unknownVariable _) => .unknownVariable
  | .eval (.unimplemented _) => .unimplemented

/-- The kinds that a line of text can cause. -/
def LineError.Kind.ofLine : List LineError.Kind :=
  [.wrongLexing, .unexpectedToken, .invalidTarget, .alreadyDeclared, .notDeclared,
    .unknownVariable]

/-! ### Reading tokens -/

theorem Lexeme.kind_of_fault {cs rest : List Char} {e : LexError} (h : read cs = .fault e rest) :
    (LineError.lex e).kind = .wrongLexing := by
  rcases read_eq_fault_iff.mp h with ⟨c, -, -, rfl⟩ | ⟨text, -, -, rfl⟩
  · rfl
  · rfl

theorem Token.kind_of_ofChars {cs : List Char} {e : LexError} (h : ofChars cs = .error e) :
    (LineError.lex e).kind = .wrongLexing := by
  fun_induction ofChars cs with
  | case1 => cases h
  | case2 => cases h
  | case3 cs t feeds rest hread error herror ih =>
    cases h
    exact ih herror
  | case4 cs error rest hread =>
    cases h
    exact Lexeme.kind_of_fault hread

/-! ### Parsing them -/

/-- The digits of a number token are read as their value, rounded once. -/
theorem Token.Lexical.ofText?_eq {t : Token} (ht : t.Lexical) (hkind : t.kind = .number) :
    Binary64.ofText? t.text = some (.ofDecimal false (Numeral.natOfDigits t.text.toList) 0) := by
  have hrun : IsRun Char.isDigit Char.isDigit t.text.toList := by
    simp only [Lexical, hkind] at ht
    exact ht.1
  cases htext : t.text.toList with
  | nil => rw [htext] at hrun; exact hrun.elim
  | cons c cs =>
    rw [htext] at hrun
    rw [← Binary64.ofText?_digits (by simp) (List.forall_mem_cons.mpr hrun), ← htext,
      String.ofList_toList]

theorem Session.kind_of_parseLine {line : String} {error : LineError}
    (h : parseLine line = .error error) : error.kind ∈ LineError.Kind.ofLine := by
  rcases parseLine_error_iff.mp h with ⟨e, hlex, rfl⟩ | ⟨ts, e, htokens, hparse, rfl⟩
  · rw [Token.kind_of_ofChars hlex]
    decide
  · obtain ⟨body, rfl, hlexical, -⟩ := Token.canonical_of_ofChars htokens
    obtain ⟨rest, hprogram⟩ := Program.ofTokens_error_iff.mp hparse
    have hcause := Parser.caused_of_program hprogram
    cases e with
    | unexpectedToken expected found => simp [LineError.kind, LineError.Kind.ofLine]
    | invalidTarget target => simp [LineError.kind, LineError.Kind.ofLine]
    | invalidNumber literal =>
      obtain ⟨t, ht, hkind, rfl, hnone⟩ := hcause
      have hmem : t ∈ body ∨ t = .endOfLine := by simpa using ht
      rcases hmem with hmem | rfl
      · rw [(hlexical t hmem).ofText?_eq hkind] at hnone
        cases hnone
      · cases hkind
    | unexpectedEnd => exact absurd (by simp) hcause

/-! ### Trees with a meaning -/

/-- The tree has no node without a meaning. -/
def Expr.Evaluable : Expr → Prop
  | .variable _ | .number _ | .string _ | .boolean _ | .null => True
  | .whitespace _ | .not _ => False
  | .arith _ left right | .compare _ left right => left.Evaluable ∧ right.Evaluable
  | .assign _ value => value.Evaluable

/-- A declaration or an expression, with a meaning. -/
def Statement.Evaluable : Statement → Prop
  | .program _ => False
  | .declare _ value => value.Evaluable
  | .expr e => e.Evaluable

namespace Grammar

theorem Derives.evaluable {rank : Rank} {u : List Token} {e : Expr} (h : Derives rank u e) :
    e.Evaluable := by
  induction h with
  | name | string | null | trueLiteral | falseLiteral | number | signed => trivial
  | group _ _ _ ih => exact ih
  | operand _ ih => exact ih
  | comparison _ ih => exact ih
  | join _ _ hop _ ihl ihr => cases hop <;> exact ⟨ihl, ihr⟩
  | assign _ _ _ _ ih => exact ih

theorem DerivesStatement.evaluable {u : List Token} {s : Statement} (h : DerivesStatement u s) :
    s.Evaluable := by
  cases h with
  | bare => trivial
  | declare _ _ _ h => exact h.evaluable
  | expr h => exact h.evaluable

theorem Split.evaluable {u : List Token} {p : Program} {pieces : List (List Token)}
    (h : Split u p pieces) : ∀ s ∈ p, s.Evaluable := by
  have hderives := h.derives
  clear h
  induction hderives with
  | nil => simp
  | cons hs _ ih => simpa using ⟨hs.evaluable, ih⟩

end Grammar

/-- **Only trees with a meaning are parsed.** -/
theorem Program.evaluable_of_ofTokens {ts : List Token} {p : Program}
    (h : Program.ofTokens ts = .ok p) : ∀ s ∈ p, s.Evaluable := by
  obtain ⟨rest, hprogram⟩ := ofTokens_ok_iff.mp h
  obtain ⟨u, t, pieces, -, -, hsplit⟩ := Parser.program_eq_ok hprogram
  exact hsplit.evaluable

/-! ### Running them -/

namespace Eval

variable {α β : Type}

/-- The computation does not fail for want of a meaning. -/
def Meaningful (m : Eval α) : Prop :=
  ∀ env e env', m env = .error e env' → (LineError.eval e).kind ∈ LineError.Kind.ofLine

theorem meaningful_pure (a : α) : Meaningful (pure a) := by
  intro env e env' h
  cases h

theorem Meaningful.bind {m : Eval α} {f : α → Eval β} (hm : Meaningful m)
    (hf : ∀ a, Meaningful (f a)) : Meaningful (m >>= f) := by
  intro env e env' h
  cases hres : m env with
  | ok a mid =>
    simp only [Bind.bind, EStateM.bind, hres] at h
    exact hf a mid e env' h
  | error e' mid =>
    simp only [Bind.bind, EStateM.bind, hres] at h
    cases h
    exact hm env e env' hres

theorem meaningful_lookup (name : String) : Meaningful (lookup name) := by
  intro env e env' h
  unfold lookup at h
  split at h <;> cases h
  simp [LineError.kind, LineError.Kind.ofLine]

/-- An update that is refused changes nothing. -/
theorem update_eq_error {f : Env → Except EvalError Env} {env env' : Env} {e : EvalError}
    (h : update f env = .error e env') : f env = .error e ∧ env' = env := by
  unfold update at h
  split at h <;> cases h
  exact ⟨by assumption, rfl⟩

theorem meaningful_define (name : String) (value : Value) : Meaningful (define name value) := by
  intro env e env' h
  have hrefused : env.define name value = .error e := (update_eq_error h).1
  unfold Env.define at hrefused
  split at hrefused <;> cases hrefused
  simp [LineError.kind, LineError.Kind.ofLine]

theorem meaningful_assign (name : String) (value : Value) : Meaningful (assign name value) := by
  intro env e env' h
  have hrefused : env.assign name value = .error e := (update_eq_error h).1
  unfold Env.assign at hrefused
  split at hrefused <;> cases hrefused
  simp [LineError.kind, LineError.Kind.ofLine]

end Eval

open Eval

theorem Expr.meaningful_eval {e : Expr} (h : e.Evaluable) : Meaningful e.eval := by
  induction e with
  | «variable» name => exact meaningful_lookup name
  | number | string | boolean | null => exact meaningful_pure _
  | whitespace | not => exact h.elim
  | arith op left right ihl ihr =>
    exact (ihl h.1).bind fun l => (ihr h.2).bind fun r => meaningful_pure _
  | compare op left right ihl ihr =>
    exact (ihl h.1).bind fun l => (ihr h.2).bind fun r => meaningful_pure _
  | assign name value ih =>
    exact (ih h).bind fun v => (meaningful_assign name v).bind fun _ => meaningful_pure v

theorem Statement.meaningful_eval {s : Statement} (h : s.Evaluable) : Meaningful s.eval := by
  cases s with
  | program body => exact h.elim
  | declare name value =>
    rw [Statement.eval]
    exact (Expr.meaningful_eval h).bind fun v =>
      (meaningful_define name v).bind fun _ => meaningful_pure v
  | expr e =>
    rw [Statement.eval]
    exact Expr.meaningful_eval h

theorem Program.meaningful_evalFrom {p : Program} (h : ∀ s ∈ p, s.Evaluable) (last : Value) :
    Meaningful (Program.evalFrom last p) := by
  induction p generalizing last with
  | nil =>
    rw [Program.evalFrom]
    exact meaningful_pure last
  | cons s p ih =>
    rw [Program.evalFrom]
    exact (Statement.meaningful_eval (h s List.mem_cons_self)).bind fun v =>
      ih (fun t ht => h t (List.mem_cons_of_mem _ ht)) v

/-! ### Sessions -/

namespace Session

theorem evalLine_of_parseLine_error {line : String} {error : LineError}
    (h : parseLine line = .error error) (env : Env) : evalLine line env = .error error env := by
  simp only [evalLine, h]
  rfl

theorem evalLine_of_parseLine_ok {line : String} {p : Program} (h : parseLine line = .ok p) :
    evalLine line = evalProgram p := by
  simp only [evalLine, h]

theorem evalProgram_error_iff {p : Program} {env env' : Env} {error : LineError} :
    evalProgram p env = .error error env' ↔ ∃ e, p.eval env = .error e env' ∧ error = .eval e := by
  unfold evalProgram
  cases p.eval env <;> simp [eq_comm, and_comm]

theorem kind_of_evalLine {line : String} {env env' : Env} {error : LineError}
    (h : evalLine line env = .error error env') : error.kind ∈ LineError.Kind.ofLine := by
  cases hparse : parseLine line with
  | error e =>
    rw [evalLine_of_parseLine_error hparse] at h
    cases h
    exact kind_of_parseLine hparse
  | ok p =>
    rw [evalLine_of_parseLine_ok hparse] at h
    obtain ⟨e, heval, rfl⟩ := evalProgram_error_iff.mp h
    obtain ⟨ts, -, htokens⟩ := parseLine_ok_iff.mp hparse
    have hevaluable := Program.evaluable_of_ofTokens htokens
    exact Program.meaningful_evalFrom hevaluable .null env e env' heval

/-- A request to a session. -/
inductive Call where
  | line (text : String)
  | source (text : String)

/-- The variables that a computation leaves, whether it fails or not. -/
def leaves {ε σ α : Type} : EStateM.Result ε σ α → σ
  | .ok _ vars => vars
  | .error _ vars => vars

def Call.run {σ : Type} [Store σ] (vars : σ) : Call → σ
  | .line text => leaves (evalLine text vars)
  | .source text => leaves (evalSource text vars)

/-- The variables of a new session after a series of calls. -/
def after (calls : List Call) : Env := calls.foldl Call.run .empty

/-! ### Each kind occurs -/

/-- The line of a program runs the program. -/
theorem evalLine_source (gap : Nat) {p : Program} (h : p.Expressible) :
    evalLine (p.source gap) = evalProgram p :=
  evalLine_of_parseLine_ok (parseLine_of_expressible gap h)

theorem evalLine_of_statement {gap : Nat} {s : Statement} {line : String}
    (hline : Program.source gap [s] = line) (h : s.Expressible) :
    evalLine line = evalProgram [s] := by
  rw [← hline, evalLine_source gap (List.forall_mem_singleton.mpr h)]

theorem parseLine_of_block {line : String} {ts : List Token} {e : ParseError}
    (h : Token.Block ts) (hline : line.toList = Token.spell ts)
    (herror : Program.ofTokens (ts ++ [.endOfLine] ++ [.endOfLine]) = .error e) :
    parseLine line = .error (.parse e) :=
  parseLine_error_iff.mpr
    (.inr ⟨_, e, Token.ofText_of_spell h.lexical h.apart hline, herror, rfl⟩)

/-- A fresh session fails in each of the six ways. -/
theorem exists_line_of_kind {kind : LineError.Kind} (h : kind ∈ LineError.Kind.ofLine) :
    ∃ line error env, evalLine line .empty = .error error env ∧ error.kind = kind := by
  -- the first three lines fail before anything runs, the others are lines of programs
  have of_parse : ∀ line error, parseLine line = .error error → error.kind = kind →
      ∃ line error env, evalLine line .empty = .error error env ∧ error.kind = kind :=
    fun line error hparse hkind => ⟨line, error, _, evalLine_of_parseLine_error hparse _, hkind⟩
  have of_eval : ∀ (p : Program) error env, p.Expressible →
      evalProgram p .empty = .error error env → error.kind = kind →
      ∃ line error env, evalLine line .empty = .error error env ∧ error.kind = kind :=
    fun p error env hp heval hkind =>
      ⟨p.source 0, error, env, by rw [evalLine_source 0 hp, heval], hkind⟩
  have hx : IsName "x" := ⟨by simp [Token.IsRun], fun word => by cases word <;> decide⟩
  cases kind with
  | wrongLexing =>
    have hread : Lexeme.read ['@'] = .fault (.unexpectedChar '@') [] := rfl
    have htokens : Token.ofText "@" = .error (.unexpectedChar '@') := Token.ofChars_of_fault hread
    exact of_parse "@" _ (parseLine_error_iff.mpr (.inl ⟨_, htokens, rfl⟩)) rfl
  | unexpectedToken =>
    have hblock : Token.Block [.ofOperator .rightParen] :=
      .single (Token.lexical_ofOperator (by decide)) (by decide)
    exact of_parse ")" _ (parseLine_of_block hblock rfl rfl) rfl
  | invalidTarget =>
    have hblock := (Token.block_keyword .null).join (Token.joint_infixed 0 .assign (by decide))
      (Token.block_keyword .null)
    exact of_parse "null=null" _ (parseLine_of_block hblock rfl rfl) rfl
  | alreadyDeclared =>
    exact of_eval [.declare "x" .null, .declare "x" .null] _ _
      (by simp [Program.Expressible, Statement.Expressible, Expr.Expressible, hx]) rfl rfl
  | notDeclared =>
    exact of_eval [.expr (.assign "x" .null)] _ _
      (by simp [Program.Expressible, Statement.Expressible, Expr.Expressible, hx]) rfl rfl
  | unknownVariable =>
    exact of_eval [.expr (.variable "x")] _ _
      (by simp [Program.Expressible, Statement.Expressible, Expr.Expressible, hx]) rfl rfl
  | unknownOperator | invalidNumber | unexpectedEnd | unimplemented =>
    exact absurd h (by decide)

/-- **The errors of lines.**  Whatever a session has been through, a line fails in one
    of six ways, and each of them occurs. -/
theorem evalLine_error_kind_iff (kind : LineError.Kind) :
    (∃ calls line error env,
        evalLine line (after calls) = .error error env ∧ error.kind = kind) ↔
      kind ∈ LineError.Kind.ofLine := by
  constructor
  · rintro ⟨calls, line, error, env, hfails, rfl⟩
    exact kind_of_evalLine hfails
  · intro h
    obtain ⟨line, error, env, hfails, hkind⟩ := exists_line_of_kind h
    exact ⟨[], line, error, env, hfails, hkind⟩

end Session

end LineCalc
