/-
  LineCalc/Proofs/Grammar.lean
  ============================
  **The grammar, apart from any parser.**  `Derives rank u e` says that the tokens
  `u` are an expression of that rank with the tree `e`; `DerivesStatement` does so
  for statements.  White space has no place in these lists: a token list with
  white space stands for its `strip`.

  A program is a list of statements written one after the other, with nothing in
  between.  `Split u p pieces` says that `pieces` cut `u` into the statements of
  `p`.  Juxtaposition leaves two gaps that the grammar of a single statement
  cannot see: a sign after a statement would have gone on with it as an operator,
  and a declaration without a value is only one at the end of the line.
-/
import LineCalc.Proofs.Recursion

open LineCalc.Parser (Level isSign)

namespace LineCalc

/-! ### Tokens -/

/-- The token carries an operator exactly when it is of that kind. -/
def Token.WellFormed (t : Token) : Prop := t.kind = .operator ↔ t.operator.isSome

/-- A well-formed token that is no white space. -/
def Token.Plain (t : Token) : Prop := t.WellFormed ∧ t.kind ≠ .whitespace

theorem Token.isOperator_iff {t : Token} {op : Operator} :
    t.isOperator op ↔ t.operator = some op := by
  simp [isOperator]

theorem Token.Plain.kind_eq {t : Token} {op : Operator} (h : t.Plain) (hop : t.isOperator op) :
    t.kind = .operator :=
  h.1.mpr (by simp [isOperator_iff.mp hop])

theorem Token.Plain.operator_eq_none {t : Token} (h : t.Plain) (hkind : t.kind ≠ .operator) :
    t.operator = none := by
  simpa using mt h.1.mpr hkind

/-- The tokens that count. -/
def Parser.strip (ts : List Token) : List Token := ts.filter (·.kind ≠ .whitespace)

namespace Grammar

/-! ### Expressions -/

/-- How tightly an expression holds together. -/
inductive Rank where
  | primary
  | chain (level : Level)
  | expression
  deriving DecidableEq, Repr

/-- The rank of the operands of a chain. -/
def operandRank : Level → Rank
  | .multiplicative => .primary
  | .additive => .chain .multiplicative
  | .comparison => .chain .additive

/-- What passes from the operands to each chain holds from primary expressions on. -/
@[elab_as_elim]
theorem Rank.operand_induction {motive : Rank → Prop} (primary : motive .primary)
    (chain : ∀ level, motive (operandRank level) → motive (.chain level))
    (expression : motive .expression) (rank : Rank) : motive rank := by
  cases rank with
  | primary => exact primary
  | chain level =>
    cases level with
    | multiplicative => exact chain _ primary
    | additive => exact chain _ (chain _ primary)
    | comparison => exact chain _ (chain _ (chain _ primary))
  | expression => exact expression

/-- The operators of each level and the nodes that they make. -/
inductive Joins : Level → Operator → (Expr → Expr → Expr) → Prop where
  | mul : Joins .multiplicative .star (.arith .mul)
  | div : Joins .multiplicative .slash (.arith .div)
  | add : Joins .additive .plus (.arith .add)
  | sub : Joins .additive .minus (.arith .sub)
  | equal : Joins .comparison .equal (.compare .equal)
  | notEqual : Joins .comparison .notEqual (.compare .notEqual)

/-- An odd number of these signs is a minus. -/
def negates (signs : List Token) : Bool := signs.countP (·.isOperator .minus) % 2 = 1

/-- The tokens are an expression of this rank with this tree. -/
inductive Derives : Rank → List Token → Expr → Prop where
  | name {t : Token} (h : t.kind = .identifier) : Derives .primary [t] (.variable t.text)
  | string {t : Token} (h : t.kind = .string) : Derives .primary [t] (.string t.text)
  | null {t : Token} (h : t.kind = .keyword .null) : Derives .primary [t] .null
  | trueLiteral {t : Token} (h : t.kind = .keyword .trueLiteral) :
      Derives .primary [t] (.boolean true)
  | falseLiteral {t : Token} (h : t.kind = .keyword .falseLiteral) :
      Derives .primary [t] (.boolean false)
  | number {t : Token} {value : Binary64} (h : t.kind = .number)
      (hvalue : Binary64.ofText? t.text = some value) : Derives .primary [t] (.number value)
  | signed {signs : List Token} {t : Token} {value : Binary64} (hne : signs ≠ [])
      (hsigns : ∀ s ∈ signs, isSign s) (h : t.kind = .number)
      (hvalue : Binary64.ofText? t.text = some value) :
      Derives .primary (signs ++ [t]) (.number (if negates signs then value.neg else value))
  | group {l r : Token} {u : List Token} {e : Expr} (hl : l.isOperator .leftParen)
      (h : Derives .expression u e) (hr : r.isOperator .rightParen) :
      Derives .primary (l :: (u ++ [r])) e
  | operand {level : Level} {u : List Token} {e : Expr} (h : Derives (operandRank level) u e) :
      Derives (.chain level) u e
  | join {level : Level} {u w : List Token} {l r : Expr} {t : Token} {op : Operator}
      {node : Expr → Expr → Expr} (hl : Derives (.chain level) u l) (ht : t.isOperator op)
      (hop : Joins level op node) (hr : Derives (operandRank level) w r) :
      Derives (.chain level) (u ++ t :: w) (node l r)
  | comparison {u : List Token} {e : Expr} (h : Derives (.chain .comparison) u e) :
      Derives .expression u e
  | assign {u w : List Token} {name : String} {t : Token} {value : Expr}
      (hl : Derives (.chain .comparison) u (.variable name)) (ht : t.isOperator .assign)
      (hr : Derives .expression w value) :
      Derives .expression (u ++ t :: w) (.assign name value)

/-! ### Statements and programs -/

/-- The tokens are this statement. -/
inductive DerivesStatement : List Token → Statement → Prop where
  | bare {s n : Token} (hs : s.kind = .keyword .set) (hn : n.kind = .identifier) :
      DerivesStatement [s, n] (.declare n.text .null)
  | declare {s n t : Token} {u : List Token} {e : Expr} (hs : s.kind = .keyword .set)
      (hn : n.kind = .identifier) (ht : t.isOperator .assign) (h : Derives .expression u e) :
      DerivesStatement (s :: n :: t :: u) (.declare n.text e)
  | expr {u : List Token} {e : Expr} (h : Derives .expression u e) : DerivesStatement u (.expr e)

/-- A declaration without a value. -/
def IsBare (piece : List Token) : Prop := ∃ s n, piece = [s, n] ∧ s.kind = .keyword .set

/-- The tokens start with a plus or a minus. -/
def StartsWithSign (piece : List Token) : Prop := ∃ t ∈ piece.head?, isSign t

/-- The pieces cut the tokens into the statements of a program. -/
structure Split (u : List Token) (p : Program) (pieces : List (List Token)) : Prop where
  flatten : u = pieces.flatten
  derives : List.Forall₂ DerivesStatement pieces p
  no_sign : ∀ piece ∈ pieces.tail, ¬ StartsWithSign piece
  bare_last : ∀ piece ∈ pieces.dropLast, ¬ IsBare piece

/-! ### Where an expression ends -/

/-- The operators that go on with an expression of a rank. -/
def continuations : Rank → List Operator
  | .primary => []
  | .chain .multiplicative => [.star, .slash]
  | .chain .additive => [.plus, .minus, .star, .slash]
  | .chain .comparison => [.equal, .notEqual, .plus, .minus, .star, .slash]
  | .expression => [.assign, .equal, .notEqual, .plus, .minus, .star, .slash]

/-- The tokens do not go on with an expression of this rank. -/
def Stops (rank : Rank) (ts : List Token) : Prop :=
  ∀ t ∈ ts.head?, ∀ op ∈ continuations rank, t.isOperator op = false

theorem stops_of_operator_eq_none {rank : Rank} {t : Token} {ts : List Token}
    (h : t.operator = none) : Stops rank (t :: ts) := by
  simp [Stops, Token.isOperator, h]

theorem stops_of_isOperator {rank : Rank} {t : Token} {op : Operator} {ts : List Token}
    (h : t.isOperator op) (hop : op ∉ continuations rank) : Stops rank (t :: ts) := by
  intro t' ht' op' hop'
  obtain rfl : t = t' := by simpa using ht'
  simp only [Token.isOperator, Token.isOperator_iff.mp h, Option.some.injEq,
    decide_eq_false_iff_not]
  rintro rfl
  exact hop hop'

/-- An operator of a chain does not go on with its operands. -/
theorem Joins.not_mem_continuations {level : Level} {op : Operator} {node : Expr → Expr → Expr}
    (h : Joins level op node) : op ∉ continuations (operandRank level) := by
  cases h <;> decide

/-! ### What stands in a derivation -/

/-- The kinds of tokens that are expressions on their own. -/
def atomKinds : List Token.Kind :=
  [.identifier, .string, .number, .keyword .null, .keyword .trueLiteral, .keyword .falseLiteral]

/-- The token can start an expression. -/
def StartsExpression (t : Token) : Prop :=
  t.kind ∈ atomKinds ∨ t.isOperator .leftParen ∨ isSign t

theorem Derives.exists_head {rank : Rank} {u : List Token} {e : Expr} (h : Derives rank u e) :
    ∃ t w, u = t :: w ∧ StartsExpression t := by
  induction h with
  | name h | string h | null h | trueLiteral h | falseLiteral h | number h =>
    exact ⟨_, [], rfl, Or.inl (by simp [atomKinds, h])⟩
  | @signed signs t value hne hsigns =>
    cases signs with
    | nil => exact absurd rfl hne
    | cons s signs => exact ⟨s, signs ++ [t], rfl, Or.inr (Or.inr (hsigns s (by simp)))⟩
  | group hl => exact ⟨_, _, rfl, Or.inr (Or.inl hl)⟩
  | operand _ ih => exact ih
  | comparison _ ih => exact ih
  | join _ _ _ _ ih =>
    obtain ⟨s, v, rfl, hs⟩ := ih
    exact ⟨s, _, rfl, hs⟩
  | assign _ _ _ ih =>
    obtain ⟨s, v, rfl, hs⟩ := ih
    exact ⟨s, _, rfl, hs⟩

theorem kind_eq_operator_of_isSign {t : Token} (ht : t.Plain) (h : isSign t) :
    t.kind = .operator := by
  rcases Bool.or_eq_true_iff.mp h with h | h <;> exact ht.kind_eq h

/-- An expression is no declaration. -/
theorem StartsExpression.kind_ne_set {t : Token} (h : StartsExpression t) (ht : t.Plain) :
    t.kind ≠ .keyword .set := by
  rcases h with h | h | h
  · intro hset
    rw [hset] at h
    revert h
    decide
  · simp [ht.kind_eq h]
  · simp [kind_eq_operator_of_isSign ht h]

/-- What starts an expression goes on with none, signs apart. -/
theorem StartsExpression.stops {t : Token} (h : StartsExpression t) (ht : t.Plain)
    (hsign : isSign t = false) (ts : List Token) : Stops .expression (t :: ts) := by
  rcases h with h | h | h
  · refine stops_of_operator_eq_none (ht.operator_eq_none ?_)
    intro hop
    rw [hop] at h
    revert h
    decide
  · exact stops_of_isOperator h (by decide)
  · rw [h] at hsign
    cases hsign

/-- The token ends the line and is nothing else besides. -/
def IsEnd (t : Token) : Prop := t.kind = .endOfLine ∧ t.operator = none

theorem not_isEnd_of_isOperator {t : Token} {op : Operator} (h : t.isOperator op) : ¬ IsEnd t := by
  rintro ⟨-, hnone⟩
  simp [Token.isOperator, hnone] at h

theorem not_isEnd_of_kind {t : Token} {kind : Token.Kind} (h : t.kind = kind)
    (hne : kind ≠ .endOfLine) : ¬ IsEnd t := by
  rintro ⟨hend, -⟩
  exact hne (h.symm.trans hend)

/-- A token of an expression is one on its own or carries an operator. -/
theorem Derives.atom_or_operator {rank : Rank} {u : List Token} {e : Expr}
    (h : Derives rank u e) : ∀ t ∈ u, t.kind ∈ atomKinds ∨ ∃ op, t.isOperator op := by
  induction h with
  | name h | string h | null h | trueLiteral h | falseLiteral h | number h =>
    simp [atomKinds, h]
  | signed _ hsigns h =>
    simp only [List.mem_append, List.mem_singleton]
    rintro t (ht | rfl)
    · rcases Bool.or_eq_true_iff.mp (hsigns t ht) with h | h <;> exact Or.inr ⟨_, h⟩
    · exact Or.inl (by simp [atomKinds, h])
  | group hl _ hr ih =>
    simp only [List.mem_cons, List.mem_append, List.not_mem_nil, or_false]
    rintro t (rfl | ht | rfl)
    · exact Or.inr ⟨_, hl⟩
    · exact ih t ht
    · exact Or.inr ⟨_, hr⟩
  | operand _ ih => exact ih
  | comparison _ ih => exact ih
  | join _ ht _ _ ihl ihr | assign _ ht _ ihl ihr =>
    simp only [List.mem_cons, List.mem_append]
    rintro s (hs | rfl | hs)
    · exact ihl s hs
    · exact Or.inr ⟨_, ht⟩
    · exact ihr s hs

/-- Among well-formed tokens, an expression has no other kinds. -/
theorem Derives.kind_ne {rank : Rank} {u : List Token} {e : Expr} (h : Derives rank u e)
    {kind : Token.Kind} (hkind : kind ∉ atomKinds) (hop : kind ≠ .operator) {t : Token}
    (ht : t ∈ u) (hwell : t.WellFormed) : t.kind ≠ kind := by
  rintro rfl
  rcases h.atom_or_operator t ht with hatom | ⟨op, hcarries⟩
  · exact hkind hatom
  · exact hop (hwell.mpr (by simp [Token.isOperator_iff.mp hcarries]))

/-- An expression does not reach beyond the line. -/
theorem Derives.not_isEnd {rank : Rank} {u : List Token} {e : Expr} (h : Derives rank u e) :
    ∀ t ∈ u, ¬ IsEnd t := by
  rintro t ht ⟨hend, hnone⟩
  rcases h.atom_or_operator t ht with hatom | ⟨op, hcarries⟩
  · rw [hend] at hatom
    revert hatom
    decide
  · exact not_isEnd_of_isOperator hcarries ⟨hend, hnone⟩

theorem DerivesStatement.not_isEnd {u : List Token} {s : Statement} (h : DerivesStatement u s) :
    ∀ t ∈ u, ¬ IsEnd t := by
  cases h with
  | bare hs hn =>
    simp only [List.mem_cons, List.not_mem_nil, or_false]
    rintro t (rfl | rfl)
    · exact not_isEnd_of_kind hs (by simp)
    · exact not_isEnd_of_kind hn (by simp)
  | declare hs hn ht h =>
    simp only [List.mem_cons]
    rintro t (rfl | rfl | rfl | hmem)
    · exact not_isEnd_of_kind hs (by simp)
    · exact not_isEnd_of_kind hn (by simp)
    · exact not_isEnd_of_isOperator ht
    · exact h.not_isEnd t hmem
  | expr h => exact h.not_isEnd

/-! ### Putting programs together -/

theorem Split.nil : Split [] [] [] := ⟨rfl, .nil, by simp, by simp⟩

theorem DerivesStatement.exists_head {u : List Token} {s : Statement} (h : DerivesStatement u s) :
    ∃ t w, u = t :: w := by
  cases h with
  | bare => exact ⟨_, _, rfl⟩
  | declare => exact ⟨_, _, rfl⟩
  | expr h =>
    obtain ⟨t, w, rfl, -⟩ := h.exists_head
    exact ⟨t, w, rfl⟩

/-- What starts a statement goes on with none, signs apart. -/
theorem DerivesStatement.stops {u : List Token} {s : Statement} (h : DerivesStatement u s)
    (hu : ∀ t ∈ u, t.Plain) (hsign : ¬ StartsWithSign u) (ts : List Token) :
    Stops .expression (u ++ ts) := by
  cases h with
  | bare hs => exact stops_of_operator_eq_none ((hu _ (by simp)).operator_eq_none (by simp [hs]))
  | declare hs => exact stops_of_operator_eq_none ((hu _ (by simp)).operator_eq_none (by simp [hs]))
  | expr h =>
    obtain ⟨t, w, rfl, hstart⟩ := h.exists_head
    refine hstart.stops (hu t (by simp)) ?_ _
    by_contra h
    exact hsign ⟨t, rfl, by simpa using h⟩

/-- A statement in front of a program. -/
theorem Split.cons {piece u : List Token} {s : Statement} {p : Program}
    {pieces : List (List Token)} (hs : DerivesStatement piece s) (hp : Split u p pieces)
    (hsign : ¬ StartsWithSign u) (hbare : IsBare piece → u = []) :
    Split (piece ++ u) (s :: p) (piece :: pieces) := by
  obtain ⟨rfl, hderives, hsigns, hlast⟩ := hp
  refine ⟨rfl, .cons hs hderives, ?_, ?_⟩
  · cases hderives with
    | nil => simp
    | cons hfirst hothers =>
      obtain ⟨t, w, rfl⟩ := hfirst.exists_head
      exact List.forall_mem_cons.mpr ⟨hsign, hsigns⟩
  · cases hderives with
    | nil => simp
    | cons hfirst hothers =>
      obtain ⟨t, w, rfl⟩ := hfirst.exists_head
      rw [List.dropLast_cons_cons]
      exact List.forall_mem_cons.mpr ⟨fun h => by simpa using hbare h, hlast⟩

theorem Split.uncons {piece u : List Token} {s : Statement} {p : Program}
    {pieces : List (List Token)} (h : Split u (s :: p) (piece :: pieces)) :
    u = piece ++ pieces.flatten ∧ DerivesStatement piece s ∧ Split pieces.flatten p pieces ∧
      ¬ StartsWithSign pieces.flatten ∧ (IsBare piece → pieces.flatten = []) := by
  obtain ⟨rfl, hderives, hsigns, hlast⟩ := h
  obtain ⟨hs, hp⟩ := List.forall₂_cons.mp hderives
  cases hp with
  | nil => exact ⟨rfl, hs, Split.nil, by simp [StartsWithSign], fun _ => rfl⟩
  | @cons next s' others p' hfirst hothers =>
    obtain ⟨t, w, rfl⟩ := hfirst.exists_head
    rw [List.dropLast_cons_cons] at hlast
    obtain ⟨hbare, hlast⟩ := List.forall_mem_cons.mp hlast
    obtain ⟨hsign, hsigns⟩ := List.forall_mem_cons.mp hsigns
    exact ⟨rfl, hs, ⟨rfl, .cons hfirst hothers, hsigns, hlast⟩, hsign, fun h => absurd h hbare⟩

theorem Split.not_isEnd {u : List Token} {p : Program} {pieces : List (List Token)}
    (h : Split u p pieces) : ∀ t ∈ u, ¬ IsEnd t := by
  obtain ⟨rfl, hderives, -, -⟩ := h
  induction hderives with
  | nil => simp
  | cons hs _ ih =>
    intro t ht
    rcases List.mem_append.mp ht with ht | ht
    · exact hs.not_isEnd t ht
    · exact ih t ht

end Grammar

end LineCalc
