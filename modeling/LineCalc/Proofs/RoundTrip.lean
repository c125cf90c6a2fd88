/-
  LineCalc/Proofs/RoundTrip.lean
  ==============================
  **Programs are read back from their line.**  Without the blanks, the tokens of a
  line derive the program that it was written from: every compound expression is a
  group of its own, so its operands never have to yield to an operator outside.
  White space means nothing to the parser, and it accepts what the grammar
  derives.
-/
import LineCalc.Proofs.DigitRun
import LineCalc.Proofs.ParserCompleteness
import LineCalc.Proofs.SourceText
import LineCalc.Proofs.WhiteSpace
import LineCalc.Session

namespace LineCalc

open Token (bracket infixed)

/-! ### Without blanks the tokens derive the program -/

namespace Grammar

open LineCalc.Parser

theorem Derives.operandRank_of_primary {u : List Token} {e : Expr} (h : Derives .primary u e)
    (level : Level) : Derives (operandRank level) u e := by
  cases level with
  | multiplicative => exact h
  | additive => exact .operand h
  | comparison => exact .operand (.operand h)

theorem Derives.expression_of_chain {level : Level} {u : List Token} {e : Expr}
    (h : Derives (.chain level) u e) : Derives .expression u e := by
  cases level with
  | multiplicative => exact .comparison (.operand (.operand h))
  | additive => exact .comparison (.operand h)
  | comparison => exact .comparison h

theorem Derives.expression_of_primary {u : List Token} {e : Expr} (h : Derives .primary u e) :
    Derives .expression u e :=
  .comparison (.operand (h.operandRank_of_primary .comparison))

/-- Two operands in brackets. -/
theorem Derives.bracket_join {level : Level} {op : Operator} {node : Expr → Expr → Expr}
    {u w : List Token} {left right : Expr} (hop : Joins level op node)
    (hl : Derives .primary u left) (hr : Derives .primary w right) :
    Derives .primary (bracket (u ++ .ofOperator op :: w)) (node left right) := by
  have hjoin := Derives.join (.operand (hl.operandRank_of_primary level))
    (by simp [Token.isOperator, Token.ofOperator] : (Token.ofOperator op).isOperator op) hop
    (hr.operandRank_of_primary level)
  exact .group rfl hjoin.expression_of_chain rfl

theorem Derives.bracket_assign {name : String} {u w : List Token} {value : Expr}
    (hl : Derives .primary u (.variable name)) (hr : Derives .primary w value) :
    Derives .primary (bracket (u ++ .ofOperator .assign :: w)) (.assign name value) := by
  have hassign := Derives.assign (t := .ofOperator .assign)
    (.operand (hl.operandRank_of_primary .comparison)) rfl hr.expression_of_primary
  exact .group rfl hassign rfl

end Grammar

namespace Token

open LineCalc.Parser

theorem strip_space (gap : Nat) : strip (space gap) = [] := by
  cases gap <;> simp [space, strip]

theorem strip_infixed (gap : Nat) (op : Operator) : strip (infixed gap op) = [ofOperator op] := by
  rw [infixed, strip_append, strip_space, strip_cons_of_ne (by simp [ofOperator]), strip_space]
  rfl

theorem strip_bracket (ts : List Token) : strip (bracket ts) = bracket (strip ts) := by
  simp [bracket, strip, ofOperator]

theorem strip_operation (gap : Nat) (op : Operator) (us ws : List Token) :
    strip (bracket (us ++ infixed gap op ++ ws)) =
      bracket (strip us ++ ofOperator op :: strip ws) := by
  simp [strip_bracket, strip_infixed]

end Token

open LineCalc.Parser LineCalc.Grammar

theorem Binary64.ofText?_digits_of_isIntegral {units : Nat} (fits : Fits units)
    (h : units % unitsPerOne = 0) : ofText? (digits units) = some (.finite false units fits) := by
  have hwhole : units / unitsPerOne * unitsPerOne = units :=
    Nat.div_mul_cancel (Nat.dvd_of_mod_eq_zero h)
  have hfits : Fits (units / unitsPerOne * unitsPerOne) := hwhole.symm ▸ fits
  have hread := ofText?_toDigits hfits
  simp only [hwhole] at hread
  exact hread

theorem ArithOp.exists_joins (op : ArithOp) :
    ∃ level, Joins level op.operator (.arith op) := by
  cases op with
  | add => exact ⟨_, .add⟩
  | sub => exact ⟨_, .sub⟩
  | mul => exact ⟨_, .mul⟩
  | div => exact ⟨_, .div⟩

theorem CompareOp.joins (op : CompareOp) :
    Joins .comparison op.operator (.compare op) := by
  cases op with
  | equal => exact .equal
  | notEqual => exact .notEqual

theorem Expr.derives_tokens (gap : Nat) {e : Expr} (h : e.Expressible) :
    Derives .primary (strip (e.tokens gap)) e := by
  induction e with
  | «variable» name => exact .name rfl
  | number value =>
    cases value with
    | finite negative units fits =>
      have hread := Binary64.ofText?_digits_of_isIntegral fits (of_decide_eq_true h)
      cases negative with
      | false => exact .number rfl hread
      | true =>
        have hne : [Token.ofOperator .minus] ≠ [] := by simp
        have hsigned := Derives.signed (t := .digits units) hne (by decide) rfl hread
        rw [if_pos (by decide)] at hsigned
        exact .group rfl hsigned.expression_of_primary rfl
    | infinite negative => cases h
    | nan => cases h
  | string text => exact .string rfl
  | boolean value =>
    cases value with
    | false => exact .falseLiteral rfl
    | true => exact .trueLiteral rfl
  | null => exact .null rfl
  | whitespace text => exact h.elim
  | not inner => exact h.elim
  | arith op left right ihl ihr =>
    obtain ⟨level, hop⟩ := op.exists_joins
    rw [tokens, Token.strip_operation]
    exact .bracket_join hop (ihl h.1) (ihr h.2)
  | compare op left right ihl ihr =>
    rw [tokens, Token.strip_operation]
    exact .bracket_join op.joins (ihl h.1) (ihr h.2)
  | assign name value ih =>
    rw [tokens, Token.strip_operation]
    exact .bracket_assign (.name rfl) (ih h.2)

/-- An expression is written as an atom or in brackets. -/
theorem Expr.exists_head_tokens (gap : Nat) {e : Expr} (h : e.Expressible) :
    ∃ t w, strip (e.tokens gap) = t :: w ∧ isSign t = false ∧ t.kind ≠ .keyword .set := by
  have hbracket : ∀ ts, ∃ t w, strip (bracket ts) = t :: w ∧ isSign t = false ∧
      t.kind ≠ .keyword .set := fun ts =>
    ⟨_, _, Token.strip_bracket ts, rfl, by decide⟩
  cases e with
  | «variable» name => exact ⟨.name name, [], rfl, rfl, by simp [Token.name]⟩
  | number value =>
    cases value with
    | finite negative units fits =>
      cases negative with
      | false => exact ⟨.digits units, [], rfl, rfl, by simp [Token.digits]⟩
      | true => exact hbracket _
    | infinite negative => cases h
    | nan => cases h
  | string text => exact ⟨.string text, [], rfl, rfl, by simp [Token.string]⟩
  | boolean value => cases value <;> exact ⟨_, [], rfl, rfl, by decide⟩
  | null => exact ⟨_, [], rfl, rfl, by decide⟩
  | whitespace text => exact h.elim
  | not inner => exact h.elim
  | arith op left right => exact hbracket _
  | compare op left right => exact hbracket _
  | assign name value => exact hbracket _

theorem Statement.strip_tokens_declare (gap : Nat) (name : String) (value : Expr) :
    strip ((Statement.declare name value).tokens gap) =
      .keyword .set :: .name name :: .ofOperator .assign :: strip (value.tokens gap) := by
  simp [tokens, Token.strip_space, Token.strip_infixed, strip_cons_of_ne, Token.keyword, Token.name]

theorem Statement.derives_tokens (gap : Nat) {s : Statement} (h : s.Expressible) :
    DerivesStatement (strip (s.tokens gap)) s := by
  cases s with
  | program body => exact h.elim
  | declare name value =>
    rw [strip_tokens_declare]
    exact .declare rfl rfl rfl (value.derives_tokens gap h.2).expression_of_primary
  | expr e =>
    exact .expr (e.derives_tokens gap h).expression_of_primary

theorem Statement.not_startsWithSign_tokens (gap : Nat) {s : Statement} (h : s.Expressible) :
    ¬ StartsWithSign (strip (s.tokens gap)) := by
  rintro ⟨t, ht, hsign⟩
  cases s with
  | program body => exact h.elim
  | declare name value =>
    rw [strip_tokens_declare] at ht
    obtain rfl : Token.keyword .set = t := by simpa using ht
    cases hsign
  | expr e =>
    obtain ⟨t', w, hw, hsign', -⟩ := e.exists_head_tokens gap h
    obtain rfl : t' = t := by simpa [tokens, hw] using ht
    rw [hsign] at hsign'
    cases hsign'

theorem Statement.not_isBare_tokens (gap : Nat) {s : Statement} (h : s.Expressible) :
    ¬ IsBare (strip (s.tokens gap)) := by
  rintro ⟨a, b, heq, hset⟩
  cases s with
  | program body => exact h.elim
  | declare name value =>
    rw [strip_tokens_declare] at heq
    simp at heq
  | expr e =>
    obtain ⟨t, w, hw, -, hkind⟩ := e.exists_head_tokens gap h
    rw [tokens, hw] at heq
    obtain ⟨rfl, -⟩ := List.cons.inj heq
    exact hkind hset

theorem Program.strip_tokens (gap : Nat) (p : Program) :
    strip (p.tokens gap) = (p.map fun s => strip (s.tokens gap)).flatten := by
  rw [tokens]
  induction p with
  | nil => rfl
  | cons s p ih =>
    cases p with
    | nil => simp
    | cons s' p =>
      simp only [List.map_cons, List.intercalate_cons_cons] at ih ⊢
      simp [ih, Token.strip_space]

theorem Program.split_tokens (gap : Nat) {p : Program} (h : p.Expressible) :
    Split (strip (p.tokens gap)) p (p.map fun s => strip (s.tokens gap)) where
  flatten := p.strip_tokens gap
  derives := by
    rw [List.forall₂_map_left_iff, List.forall₂_same]
    exact fun s hs => s.derives_tokens gap (h s hs)
  no_sign piece hpiece := by
    obtain ⟨s, hs, rfl⟩ := List.mem_map.mp (List.mem_of_mem_tail hpiece)
    exact s.not_startsWithSign_tokens gap (h s hs)
  bare_last piece hpiece := by
    obtain ⟨s, hs, rfl⟩ := List.mem_map.mp (List.mem_of_mem_dropLast hpiece)
    exact s.not_isBare_tokens gap (h s hs)

/-- The tokens of a text that count. -/
theorem Token.plain_of_mem_strip {ts : List Token} (hlex : ∀ t ∈ ts, t.Lexical) :
    ∀ t ∈ strip ts, t.Plain ∧ t.kind ≠ .endOfLine := by
  intro t ht
  obtain ⟨hmem, hspace⟩ := List.mem_filter.mp ht
  exact ⟨⟨(hlex t hmem).wellFormed, by simpa using hspace⟩, (hlex t hmem).kind_ne_endOfLine⟩

/-- The tokens of a text are read as the program that they can be cut into without their white
    space; the parser cannot tell the difference. -/
theorem Program.ofTokens_of_split {ts : List Token} {p : Program} {pieces : List (List Token)}
    (hlex : ∀ t ∈ ts, t.Lexical) (h : Split (strip ts) p pieces) :
    Program.ofTokens (ts ++ [.endOfLine] ++ [.endOfLine]) = .ok p := by
  have hread := program_of_split (v := [.endOfLine]) h (Token.plain_of_mem_strip hlex)
  have hstrip : strip (ts ++ [.endOfLine] ++ [.endOfLine]) =
      strip ts ++ [.endOfLine, .endOfLine] := by
    simp [strip, Token.endOfLine]
  rw [ofTokens_of_stripLeft (blind_program _), hstrip, ofTokens_ok_iff]
  exact ⟨_, hread⟩

theorem Program.ofTokens_tokens (gap : Nat) {p : Program} (h : p.Expressible) :
    Program.ofTokens (p.tokens gap ++ [.endOfLine] ++ [.endOfLine]) = .ok p :=
  ofTokens_of_split (p.lexical_tokens gap h) (p.split_tokens gap h)

/-! ### Parsing a line -/

namespace Session

theorem parseLine_ok_iff {line : String} {p : Program} :
    parseLine line = .ok p ↔
      ∃ ts, Token.ofText line = .ok ts ∧ Program.ofTokens (ts ++ [.endOfLine]) = .ok p := by
  unfold parseLine tokenizeLine
  cases Token.ofText line with
  | error e => simp
  | ok ts => cases hparse : Program.ofTokens (ts ++ [.endOfLine]) <;> simp [hparse]

theorem parseLine_error_iff {line : String} {error : LineError} :
    parseLine line = .error error ↔
      (∃ e, Token.ofText line = .error e ∧ error = .lex e) ∨
        ∃ ts e, Token.ofText line = .ok ts ∧
          Program.ofTokens (ts ++ [.endOfLine]) = .error e ∧ error = .parse e := by
  unfold parseLine tokenizeLine
  cases Token.ofText line with
  | error e => simp [eq_comm]
  | ok ts => cases hparse : Program.ofTokens (ts ++ [.endOfLine]) <;> simp [hparse, eq_comm]

/-- The line of a program is the program. -/
theorem parseLine_of_expressible (gap : Nat) {p : Program} (h : p.Expressible) :
    parseLine (p.source gap) = .ok p := by
  rw [parseLine_ok_iff]
  exact ⟨_, p.ofText_source gap h, p.ofTokens_tokens gap h⟩

end Session

/-- **Programs are read back from their line.**  It does not matter how many blanks
    stand around the operators. -/
theorem Session.parseLine_source (gap : Nat) (p : Program) (h : p.Expressible) :
    Session.parseLine (p.source gap) = .ok p :=
  parseLine_of_expressible gap h

/-- A program with brackets inside brackets, a negative number, a negative zero
    and a text with a quote. -/
def Program.bracketed : Program :=
  [.declare "x1" (.arith .sub
      (.number (.finite true (3 * Binary64.unitsPerOne) (by decide +kernel)))
      (.compare .notEqual (.string "a\"b") .null)),
    .expr (.arith .mul (.assign "y" (.variable "x1")) (.number (.zero true))),
    .expr (.boolean false)]

theorem Session.parseLine_bracketed :
    Program.bracketed.Expressible ∧
      Session.parseLine "set x1 = ((-3) - (\"a\\\"b\" != null)) ((y = x1) * (-0)) false" =
        .ok Program.bracketed := by
  have hx : IsName "x1" := ⟨by simp [Token.IsRun], fun word => by cases word <;> decide⟩
  have hy : IsName "y" := ⟨by simp [Token.IsRun], fun word => by cases word <;> decide⟩
  have hthree : Binary64.isIntegral
      (.finite true (3 * Binary64.unitsPerOne) (by decide +kernel)) := by decide +kernel
  have hzero : Binary64.isIntegral (.zero true) := by decide +kernel
  have hexpressible : Program.bracketed.Expressible := by
    simp [Program.bracketed, Program.Expressible, Statement.Expressible, Expr.Expressible, hx, hy,
      hthree, hzero]
  have hsource : Program.bracketed.source 1 =
      "set x1 = ((-3) - (\"a\\\"b\" != null)) ((y = x1) * (-0)) false" := by decide +kernel
  exact ⟨hexpressible, hsource ▸ Session.parseLine_source 1 Program.bracketed hexpressible⟩

end LineCalc
