/-
  LineCalc/Proofs/Precedence.lean
  ===============================
  **Precedences and the levels of the parser.**  The precedence of an operator is said to
  be higher the tighter it binds.  The parser never looks at it: its levels are written
  down on their own, from assignments over comparisons and sums to products.  Here the
  two are compared on chains, names joined by operators without any brackets.

  Every tree of a chain is ordered by the levels (`Unbracketed`): the operator of an
  operand has the level of the operator above it, or a tighter one.  Precedences run the
  same way but for one pair, since `=` is given a higher precedence than `==` and `!=`
  and the parser takes it at a looser level.  A chain that mixes the two, such as
  `x = a == b`, is therefore read against the precedences; all others are read by them.
-/
import LineCalc.Proofs.LineErrors
import LineCalc.Proofs.ParserCompleteness

open LineCalc.Parser (Level)

namespace LineCalc

/-- The operators that join two operands. -/
def Operator.joining : List Operator :=
  [.plus, .minus, .star, .slash, .equal, .notEqual, .assign]

/-! ### Operators in a tree -/

namespace Expr

/-- The operator at the root. -/
def operator? : Expr → Option Operator
  | .arith op _ _ => some op.operator
  | .compare op _ _ => some op.operator
  | .assign _ _ => some .assign
  | _ => none

/-- The trees right below the root; the name that is assigned to is none. -/
def operands : Expr → List Expr
  | .arith _ left right | .compare _ left right => [left, right]
  | .assign _ value => [value]
  | .not inner => [inner]
  | _ => []

/-- The tree and all trees inside it. -/
def subtrees : Expr → List Expr
  | .arith op left right => .arith op left right :: (left.subtrees ++ right.subtrees)
  | .compare op left right => .compare op left right :: (left.subtrees ++ right.subtrees)
  | .assign name value => .assign name value :: value.subtrees
  | .not inner => .not inner :: inner.subtrees
  | e => [e]

/-- The operators in a tree. -/
def operators (e : Expr) : List Operator := e.subtrees.filterMap operator?

/-- Where an operand has an operator of its own, it is related to the one above it. -/
def Nests (R : Operator → Operator → Prop) (e : Expr) : Prop :=
  ∀ node ∈ e.subtrees, ∀ operand ∈ node.operands, ∀ outer ∈ node.operator?,
    ∀ inner ∈ operand.operator?, R outer inner

instance {R : Operator → Operator → Prop} [DecidableRel R] (e : Expr) : Decidable (e.Nests R) :=
  inferInstanceAs (Decidable (∀ node ∈ e.subtrees, ∀ operand ∈ node.operands,
    ∀ outer ∈ node.operator?, ∀ inner ∈ operand.operator?, R outer inner))

/-- No operator stands below one that binds tighter. -/
def RespectsPrecedence (e : Expr) : Prop :=
  e.Nests fun outer inner => outer.precedence ≤ inner.precedence

instance (e : Expr) : Decidable e.RespectsPrecedence :=
  inferInstanceAs (Decidable (e.Nests fun outer inner => outer.precedence ≤ inner.precedence))

theorem subtrees_eq (e : Expr) : e.subtrees = e :: e.operands.flatMap subtrees := by
  cases e <;> simp [subtrees, operands]

theorem mem_operators_iff {e : Expr} {op : Operator} :
    op ∈ e.operators ↔ op ∈ e.operator? ∨ ∃ operand ∈ e.operands, op ∈ operand.operators := by
  unfold operators
  rw [subtrees_eq]
  simp only [List.mem_filterMap, List.mem_cons, List.mem_flatMap, Option.mem_def]
  constructor
  · rintro ⟨node, rfl | ⟨operand, hoperand, hnode⟩, hop⟩
    · exact .inl hop
    · exact .inr ⟨operand, hoperand, node, hnode, hop⟩
  · rintro (hop | ⟨operand, hoperand, node, hnode, hop⟩)
    · exact ⟨e, .inl rfl, hop⟩
    · exact ⟨node, .inr ⟨operand, hoperand, hnode⟩, hop⟩

theorem nests_iff {R : Operator → Operator → Prop} {e : Expr} :
    e.Nests R ↔
      (∀ operand ∈ e.operands, ∀ outer ∈ e.operator?, ∀ inner ∈ operand.operator?,
        R outer inner) ∧
      ∀ operand ∈ e.operands, operand.Nests R := by
  unfold Nests
  rw [subtrees_eq]
  simp only [List.forall_mem_cons, List.mem_flatMap]
  refine and_congr_right fun _ => ⟨fun h operand hoperand node hnode => ?_, fun h node hnode => ?_⟩
  · exact h node ⟨operand, hoperand, hnode⟩
  · obtain ⟨operand, hoperand, hnode⟩ := hnode
    exact h operand hoperand node hnode

/-- What holds of a tree when it holds of its operands holds of every tree. -/
theorem induction_on_operands {P : Expr → Prop}
    (step : ∀ e : Expr, (∀ operand ∈ e.operands, P operand) → P e) (e : Expr) : P e := by
  induction e with
  | not inner ih => exact step _ (by simpa [operands] using ih)
  | arith op left right ihl ihr => exact step _ (by simpa [operands] using ⟨ihl, ihr⟩)
  | compare op left right ihl ihr => exact step _ (by simpa [operands] using ⟨ihl, ihr⟩)
  | assign name value ih => exact step _ (by simpa [operands] using ih)
  | _ => exact step _ (by simp [operands])

theorem Evaluable.operand {e operand : Expr} (h : e.Evaluable) (hoperand : operand ∈ e.operands) :
    operand.Evaluable := by
  cases e with
  | arith op left right | compare op left right =>
    rcases List.mem_pair.mp hoperand with rfl | rfl
    · exact h.1
    · exact h.2
  | assign name value =>
    obtain rfl := List.mem_singleton.mp hoperand
    exact h
  | not inner => exact h.elim
  | _ => cases hoperand

/-- Nothing but an operator has operands. -/
theorem Evaluable.exists_operator {e operand : Expr} (h : e.Evaluable)
    (hoperand : operand ∈ e.operands) : ∃ op, op ∈ e.operator? := by
  cases e with
  | arith | compare | assign => exact ⟨_, rfl⟩
  | not inner => exact h.elim
  | _ => cases hoperand

/-- Operators that are related where they nest are so by any weaker relation on the
    operators of the tree. -/
theorem Nests.mono {R S : Operator → Operator → Prop} {e : Expr} (h : e.Nests R)
    (hRS : ∀ outer ∈ e.operators, ∀ inner ∈ e.operators, R outer inner → S outer inner) :
    e.Nests S := by
  induction e using induction_on_operands with
  | step e ih =>
    obtain ⟨hroot, hbelow⟩ := nests_iff.mp h
    refine nests_iff.mpr ⟨fun operand hoperand outer houter inner hinner => ?_,
      fun operand hoperand => ?_⟩
    · have hmem : inner ∈ operand.operators := mem_operators_iff.mpr (.inl hinner)
      exact hRS outer (mem_operators_iff.mpr (.inl houter)) inner
        (mem_operators_iff.mpr (.inr ⟨operand, hoperand, hmem⟩))
        (hroot operand hoperand outer houter inner hinner)
    · refine ih operand hoperand (hbelow operand hoperand) fun outer houter inner hinner => ?_
      exact hRS outer (mem_operators_iff.mpr (.inr ⟨operand, hoperand, houter⟩)) inner
        (mem_operators_iff.mpr (.inr ⟨operand, hoperand, hinner⟩))

end Expr

/-! ### The levels as an order of operators -/

namespace Grammar

/-- How deep the parser has descended when it takes the operator. -/
def tier : Operator → Nat
  | .assign => 0
  | .equal | .notEqual => 1
  | .plus | .minus => 2
  | .star | .slash => 3
  | _ => 4

/-- How deep the parser has descended for an expression of this rank. -/
def Rank.tier : Rank → Nat
  | .expression => 0
  | .chain .comparison => 1
  | .chain .additive => 2
  | .chain .multiplicative => 3
  | .primary => 4

theorem tier_operandRank (level : Level) :
    (operandRank level).tier = (Rank.chain level).tier + 1 := by
  cases level <;> rfl

theorem Joins.tier_eq {level : Level} {op : Operator} {node : Expr → Expr → Expr}
    (h : Joins level op node) : tier op = (Rank.chain level).tier := by
  cases h <;> rfl

theorem Joins.operator?_eq {level : Level} {op : Operator} {node : Expr → Expr → Expr}
    (h : Joins level op node) (left right : Expr) : (node left right).operator? = some op := by
  cases h <;> rfl

theorem Joins.operands_eq {level : Level} {op : Operator} {node : Expr → Expr → Expr}
    (h : Joins level op node) (left right : Expr) :
    (node left right).operands = [left, right] := by
  cases h <;> rfl

/-- The only pair of levels that the precedences turn round is a comparison below an
    assignment. -/
theorem precedence_le_or_mixed : ∀ outer ∈ Operator.joining, ∀ inner ∈ Operator.joining,
    tier outer ≤ tier inner → outer.precedence ≤ inner.precedence ∨
      outer = .assign ∧ (inner = .equal ∨ inner = .notEqual) := by
  decide

theorem eq_assign_of_tier_le {op : Operator} (h : tier op ≤ tier .assign) : op = .assign := by
  cases op <;> simp [tier] at h ⊢

/-- At the levels of comparisons and assignments, a precedence that is not below that of
    an assignment is that of an assignment. -/
theorem eq_assign_of_precedence_le {op : Operator} (htier : tier op ≤ 1)
    (h : Operator.assign.precedence ≤ op.precedence) : op = .assign := by
  cases op <;> simp [tier, Operator.precedence] at htier h ⊢

end Grammar

open Grammar

/-- No operator stands below one of a tighter level. -/
def Expr.RespectsLevels (e : Expr) : Prop := e.Nests fun outer inner => tier outer ≤ tier inner

namespace Expr

/-- The root is at the loosest level of the tree. -/
theorem RespectsLevels.exists_root_le {e : Expr} {op : Operator} (h : e.RespectsLevels)
    (hmeans : e.Evaluable) (hop : op ∈ e.operators) :
    ∃ root ∈ e.operator?, tier root ≤ tier op := by
  induction e using induction_on_operands with
  | step e ih =>
    rcases mem_operators_iff.mp hop with hroot | ⟨operand, hoperand, hop⟩
    · exact ⟨op, hroot, le_refl _⟩
    · obtain ⟨hnested, hbelow⟩ := nests_iff.mp h
      obtain ⟨root, hroot⟩ := hmeans.exists_operator hoperand
      obtain ⟨inner, hinner, hle⟩ :=
        ih operand hoperand (hbelow operand hoperand) (hmeans.operand hoperand) hop
      exact ⟨root, hroot, (hnested operand hoperand root hroot inner hinner).trans hle⟩

/-- An assignment and a comparison in one tree meet somewhere, the assignment above. -/
theorem RespectsLevels.not_respectsPrecedence {e : Expr} {op : Operator} (h : e.RespectsLevels)
    (hmeans : e.Evaluable) (hassign : .assign ∈ e.operators) (hop : op ∈ e.operators)
    (hcompare : op = .equal ∨ op = .notEqual) : ¬ e.RespectsPrecedence := by
  intro hrespects
  induction e using induction_on_operands with
  | step e ih =>
    -- the root is an assignment, so that the comparison is in its value
    obtain ⟨root, hroot, hle⟩ := h.exists_root_le hmeans hassign
    obtain rfl := eq_assign_of_tier_le hle
    obtain ⟨value, hvalue, hop'⟩ : ∃ value ∈ e.operands, op ∈ value.operators := by
      refine (mem_operators_iff.mp hop).resolve_left fun hop' => ?_
      rw [Option.mem_def.mp hroot, Option.mem_some] at hop'
      rcases hcompare with rfl | rfl <;> cases hop'
    have hlevels := (nests_iff.mp h).2 value hvalue
    obtain ⟨hnested, hbelow⟩ := nests_iff.mp hrespects
    -- and its value starts with a comparison, against the precedences, or is again one
    obtain ⟨inner, hinner, hle'⟩ :=
      RespectsLevels.exists_root_le hlevels (hmeans.operand hvalue) hop'
    have htier : tier inner ≤ 1 := by rcases hcompare with rfl | rfl <;> exact hle'
    obtain rfl := eq_assign_of_precedence_le htier (hnested value hvalue _ hroot inner hinner)
    exact ih value hvalue hlevels (hmeans.operand hvalue) (mem_operators_iff.mpr (.inl hinner))
      hop' (hbelow value hvalue)

end Expr

/-! ### Chains -/

/-- A name or an operator, as they stand in a chain. -/
def Token.IsLink (t : Token) : Prop :=
  t.kind = .identifier ∧ t.operator = none ∨ ∃ op ∈ Operator.joining, t = .ofOperator op

namespace Token.IsLink

variable {t : Token}

theorem kind_eq (h : t.IsLink) : t.kind = .identifier ∨ t.kind = .operator := by
  rcases h with ⟨hkind, -⟩ | ⟨op, -, rfl⟩
  · exact .inl hkind
  · exact .inr rfl

theorem plain (h : t.IsLink) : t.Plain := by
  rcases h with ⟨hkind, hnone⟩ | ⟨op, -, rfl⟩
  · simp [Token.Plain, Token.WellFormed, hkind, hnone]
  · simp [Token.Plain, Token.WellFormed, Token.ofOperator]

theorem mem_joining {op : Operator} (h : t.IsLink) (hop : t.isOperator op) :
    op ∈ Operator.joining := by
  rw [Token.isOperator_iff] at hop
  rcases h with ⟨-, hnone⟩ | ⟨op', hop', rfl⟩
  · rw [hnone] at hop
    cases hop
  · obtain rfl : op' = op := by simpa [Token.ofOperator] using hop
    exact hop'

end Token.IsLink

namespace Grammar

/-- What a derivation makes of tokens without brackets: the operators of the tree are
    those of the tokens, ordered by their levels and at least as tight as the rank. -/
structure Unbracketed (rank : Rank) (u : List Token) (e : Expr) : Prop where
  root : ∀ op ∈ e.operator?, rank.tier ≤ tier op
  levels : e.RespectsLevels
  operators : ∀ op, op ∈ e.operators ↔ ∃ t ∈ u, t.isOperator op

/-- An expression of a tighter rank. -/
theorem Unbracketed.loosen {rank rank' : Rank} {u : List Token} {e : Expr}
    (h : Unbracketed rank u e) (hle : rank'.tier ≤ rank.tier) : Unbracketed rank' u e :=
  { h with root := fun op hop => hle.trans (h.root op hop) }

/-- A new root over operands of its level or tighter ones. -/
theorem Unbracketed.node {rank : Rank} {u : List Token} {e : Expr} {op : Operator}
    (hroot : e.operator? = some op) (hrank : rank.tier ≤ tier op)
    (hoperands : ∀ operand ∈ e.operands,
      operand.RespectsLevels ∧ ∀ inner ∈ operand.operator?, tier op ≤ tier inner)
    (hu : ∀ op', (∃ t ∈ u, t.isOperator op') ↔
      op' = op ∨ ∃ operand ∈ e.operands, op' ∈ operand.operators) : Unbracketed rank u e where
  root op' hop' := by
    obtain rfl : op = op' := by simpa [hroot] using hop'
    exact hrank
  levels := by
    refine Expr.nests_iff.mpr ⟨fun operand hoperand outer houter inner hinner => ?_,
      fun operand hoperand => (hoperands operand hoperand).1⟩
    obtain rfl : op = outer := by simpa [hroot] using houter
    exact (hoperands operand hoperand).2 inner hinner
  operators op' := by
    rw [Expr.mem_operators_iff, hroot, Option.mem_some, eq_comm, hu]

theorem exists_isOperator_append {u w : List Token} {t : Token} {op op' : Operator}
    (ht : t.isOperator op) :
    (∃ s ∈ u ++ t :: w, s.isOperator op') ↔
      op' = op ∨ (∃ s ∈ u, s.isOperator op') ∨ ∃ s ∈ w, s.isOperator op' := by
  have hroot : t.isOperator op' ↔ op' = op := by
    rw [Token.isOperator_iff, Token.isOperator_iff.mp ht, Option.some.injEq, eq_comm]
  simp only [List.mem_append, List.mem_cons, or_and_right, exists_or, exists_eq_left, hroot]
  exact or_left_comm

theorem Derives.unbracketed {rank : Rank} {u : List Token} {e : Expr} (h : Derives rank u e)
    (hu : ∀ t ∈ u, t.IsLink) : Unbracketed rank u e := by
  induction h with
  | @name t h =>
    have hnone := (hu t List.mem_cons_self).plain.operator_eq_none (by simp [h])
    refine ⟨by simp [Expr.operator?], Expr.nests_iff.mpr (by simp [Expr.operands]), fun op => ?_⟩
    rw [Expr.mem_operators_iff]
    simp [Expr.operator?, Expr.operands, Token.isOperator, hnone]
  | @string t h | @null t h | @trueLiteral t h | @falseLiteral t h | @number t value h =>
    have hkind := (hu t List.mem_cons_self).kind_eq
    simp [h] at hkind
  | @signed signs t value _ _ h =>
    have hkind := (hu t (by simp)).kind_eq
    simp [h] at hkind
  | group hl =>
    have hmem := (hu _ List.mem_cons_self).mem_joining hl
    simp [Operator.joining] at hmem
  | @operand level u e _ ih => exact (ih hu).loosen (by rw [tier_operandRank]; omega)
  | @join level u w l r t op node _ ht hop _ ihl ihr =>
    have hleft := ihl fun s hs => hu s (List.mem_append_left _ hs)
    have hright := ihr fun s hs => hu s (List.mem_append_right _ (List.mem_cons_of_mem _ hs))
    refine .node (hop.operator?_eq l r) (le_of_eq hop.tier_eq.symm) ?_ fun op' => ?_
    · rw [hop.operands_eq, hop.tier_eq]
      simp only [List.forall_mem_cons, List.not_mem_nil, false_implies, implies_true, and_true]
      refine ⟨⟨hleft.levels, hleft.root⟩, hright.levels, fun inner hinner => ?_⟩
      have hle := hright.root inner hinner
      rw [tier_operandRank] at hle
      omega
    · rw [hop.operands_eq, exists_isOperator_append ht]
      simp [hleft.operators, hright.operators]
  | comparison _ ih => exact (ih hu).loosen (Nat.zero_le _)
  | @assign u w name t value _ ht _ ihl ihr =>
    have hleft := ihl fun s hs => hu s (List.mem_append_left _ hs)
    have hright := ihr fun s hs => hu s (List.mem_append_right _ (List.mem_cons_of_mem _ hs))
    refine .node rfl (Nat.zero_le _) ?_ fun op' => ?_
    · intro operand hoperand
      obtain rfl : operand = value := by simpa [Expr.operands] using hoperand
      exact ⟨hright.levels, fun inner _ => Nat.zero_le _⟩
    · -- the name that is assigned to brings no operator
      rw [exists_isOperator_append ht, ← hleft.operators, ← hright.operators]
      simp [Expr.operands, Expr.operators, Expr.subtrees, Expr.operator?]

/-- A line that is read as one expression is a derivation of it. -/
theorem derives_of_ofTokens {u : List Token} {e : Expr}
    (hu : ∀ t ∈ u, t.Plain ∧ t.kind ≠ .endOfLine)
    (h : Program.ofTokens (u ++ [.endOfLine]) = .ok [.expr e]) : Derives .expression u e := by
  obtain ⟨rest, hread⟩ := Program.ofTokens_ok_iff.mp h
  obtain ⟨w, t, pieces, heq, hend, hsplit⟩ := Parser.program_eq_ok hread
  have hw : ∀ s ∈ w, ¬ IsEnd s := fun s hs hsend =>
    hsplit.not_isEnd s (by simp [Parser.strip, hs, hsend.1]) hsend
  obtain rfl := Parser.eq_of_append_endOfLine heq (fun s hs => (hu s hs).2) hw hend
  rw [Parser.strip_eq_self fun s hs => (hu s hs).1.2] at hsplit
  -- the only piece is the whole line
  obtain ⟨hflatten, hderives, -, -⟩ := hsplit
  cases hderives with
  | cons hs hnone =>
    cases hnone
    rw [hflatten]
    cases hs with
    | expr h => simpa using h

end Grammar

namespace Chain

/-- Names joined by operators: the first one, and each operator with the name after it. -/
def tokens (first : String) : List (Operator × String) → List Token
  | [] => [.name first]
  | (op, next) :: links => .name first :: .ofOperator op :: tokens next links

theorem isLink_name (text : String) : (Token.name text).IsLink := .inl ⟨rfl, rfl⟩

theorem isLink_of_mem_tokens {first : String} {links : List (Operator × String)}
    (h : ∀ link ∈ links, link.1 ∈ Operator.joining) : ∀ t ∈ tokens first links, t.IsLink := by
  induction links generalizing first with
  | nil => simpa [tokens] using isLink_name first
  | cons link links ih =>
    obtain ⟨hlink, hlinks⟩ := List.forall_mem_cons.mp h
    rw [tokens, List.forall_mem_cons, List.forall_mem_cons]
    exact ⟨isLink_name first, .inr ⟨link.1, hlink, rfl⟩, ih hlinks⟩

theorem exists_isOperator_tokens_iff {first : String} {links : List (Operator × String)}
    {op : Operator} :
    (∃ t ∈ tokens first links, t.isOperator op) ↔ op ∈ links.map Prod.fst := by
  induction links generalizing first with
  | nil => simp [tokens, Token.isOperator, Token.name]
  | cons link links ih =>
    have hcons : tokens first (link :: links) =
        [.name first] ++ .ofOperator link.1 :: tokens link.2 links := rfl
    have hname : ¬ ∃ t ∈ [Token.name first], t.isOperator op := by
      simp [Token.isOperator, Token.name]
    rw [hcons, exists_isOperator_append (Token.isOperator_iff.mpr rfl), ih, List.map_cons,
      List.mem_cons, or_iff_right hname]

/-- **Precedences against levels.**  A chain is read by the precedences of its operators
    exactly when it does not mix assignments with comparisons; when it does, a comparison
    right below an assignment is all that goes against them. -/
theorem respectsPrecedence_iff_not_mixed (first : String) (links : List (Operator × String))
    (e : Expr) (hlinks : ∀ link ∈ links, link.1 ∈ Operator.joining)
    (h : Program.ofTokens (tokens first links ++ [.endOfLine]) = .ok [.expr e]) :
    (e.RespectsPrecedence ↔
      ¬ (.assign ∈ links.map Prod.fst ∧
        (.equal ∈ links.map Prod.fst ∨ .notEqual ∈ links.map Prod.fst))) ∧
    e.Nests fun outer inner => outer.precedence ≤ inner.precedence ∨
      outer = .assign ∧ (inner = .equal ∨ inner = .notEqual) := by
  have htokens : ∀ t ∈ tokens first links, t.IsLink := isLink_of_mem_tokens hlinks
  have hderives : Derives .expression (tokens first links) e := by
    refine derives_of_ofTokens (fun t ht => ⟨(htokens t ht).plain, ?_⟩) h
    rcases (htokens t ht).kind_eq with hkind | hkind <;> simp [hkind]
  obtain ⟨-, hlevels, hoperators⟩ := hderives.unbracketed htokens
  simp only [exists_isOperator_tokens_iff] at hoperators
  have hjoining : ∀ op ∈ e.operators, op ∈ Operator.joining := by
    intro op hop
    obtain ⟨link, hlink, rfl⟩ := List.mem_map.mp ((hoperators op).mp hop)
    exact hlinks link hlink
  simp only [← hoperators]
  refine ⟨⟨?_, fun hunmixed => ?_⟩, ?_⟩
  · rintro hrespects ⟨hassign, hcompare | hcompare⟩
    · exact hlevels.not_respectsPrecedence hderives.evaluable hassign hcompare (.inl rfl) hrespects
    · exact hlevels.not_respectsPrecedence hderives.evaluable hassign hcompare (.inr rfl) hrespects
  · refine hlevels.mono fun outer houter inner hinner hle => ?_
    refine (precedence_le_or_mixed outer (hjoining outer houter) inner (hjoining inner hinner)
      hle).resolve_right ?_
    rintro ⟨rfl, rfl | rfl⟩
    · exact hunmixed ⟨houter, .inl hinner⟩
    · exact hunmixed ⟨houter, .inr hinner⟩
  · exact hlevels.mono fun outer houter inner hinner =>
      precedence_le_or_mixed outer (hjoining outer houter) inner (hjoining inner hinner)

/-- Sums and products in the value of two assignments: `x = y = a + b * c - d`. -/
theorem respectsPrecedence_nested_assignments :
    let links : List (Operator × String) :=
      [(.assign, "y"), (.assign, "a"), (.plus, "b"), (.star, "c"), (.minus, "d")]
    let e : Expr := .assign "x" (.assign "y" (.arith .sub
      (.arith .add (.variable "a") (.arith .mul (.variable "b") (.variable "c"))) (.variable "d")))
    (∀ link ∈ links, link.1 ∈ Operator.joining) ∧
      Program.ofTokens (tokens "x" links ++ [.endOfLine]) = .ok [.expr e] ∧
      e.RespectsPrecedence := by
  intro links e
  have hlinks : ∀ link ∈ links, link.1 ∈ Operator.joining := by decide
  have hread : Program.ofTokens (tokens "x" links ++ [.endOfLine]) = .ok [.expr e] := rfl
  exact ⟨hlinks, hread,
    (respectsPrecedence_iff_not_mixed "x" links e hlinks hread).1.mpr (by decide)⟩

/-- The chain `x = a == b` is read as the assignment of a comparison, and `==` has the
    lower precedence. -/
theorem mixed_chain_against_precedence :
    let links : List (Operator × String) := [(.assign, "a"), (.equal, "b")]
    let e : Expr := .assign "x" (.compare .equal (.variable "a") (.variable "b"))
    (∀ link ∈ links, link.1 ∈ Operator.joining) ∧
      Program.ofTokens (tokens "x" links ++ [.endOfLine]) = .ok [.expr e] ∧
      ¬ e.RespectsPrecedence := by
  exact ⟨by decide, rfl, by decide⟩

end Chain

end LineCalc
