/-
  LineCalc/Proofs/LongestPrefix.lean
  ==================================
  **How far a parser of expressions reads.**  On well-formed tokens each of them takes
  exactly a derivation of its rank and stops where no operator goes on with it; no
  longer part of the tokens at their front is derivable.

  Soundness and completeness of the parsers say so for nesting without a bound.  A
  parser that is called from outside is tied to the number of tokens instead, which is
  no bound (`tied_eq`).  That nothing longer is derivable is no further induction: the
  longer part would be read in two ways, up to its end and up to the shorter part.
-/
import LineCalc.Proofs.ParserCompleteness

namespace LineCalc.Parser

open LineCalc.Grammar

/-! ### The parsers that can be called -/

/-- The parsers of expressions, by the rule that each of them starts at. -/
inductive ExprEntry where
  | multiplicative
  | additive
  | comparison
  | assignment
  | expression
  deriving DecidableEq, Repr

def ExprEntry.parser : ExprEntry → Parser Expr
  | .multiplicative => Parser.multiplicative
  | .additive => Parser.additive
  | .comparison => Parser.comparison
  | .assignment => Parser.assignment
  | .expression => Parser.expression

/-- What each of them reads. -/
def ExprEntry.rank : ExprEntry → Rank
  | .multiplicative => .chain .multiplicative
  | .additive => .chain .additive
  | .comparison => .chain .comparison
  | .assignment | .expression => .expression

/-- A level of expressions that only looks into nested ones behind a token. -/
def Deepens (level : Parser Expr → Parser Expr) : Prop :=
  ∀ {n : Nat} {inner inner' : Parser Expr}, Takes inner → Agree n inner inner' →
    Agree (n + 1) (level inner) (level inner')

/-- Nesting as deep as there are tokens is nesting without a bound. -/
theorem tied_eq {level : Parser Expr → Parser Expr} (h : Deepens level) :
    tied level = level expression := by
  funext ts
  have hagree : Agree ts.length (nested ts.length) expression := by
    intro us hlen
    exact (expression_eq_nested hlen).symm
  exact h (takes_nested _) hagree ts (Nat.le_succ _)

theorem deepens_multiplicativeWith : Deepens multiplicativeWith := by
  intro n inner inner' hi h
  exact agree_chain (takes_primary hi) (agree_primary hi h)

theorem deepens_additiveWith : Deepens additiveWith := by
  intro n inner inner' hi h
  exact agree_chain (takes_chain (takes_primary hi)) (deepens_multiplicativeWith hi h)

theorem ExprEntry.parser_eq (entry : ExprEntry) : entry.parser = ofRank entry.rank := by
  cases entry with
  | multiplicative => exact tied_eq deepens_multiplicativeWith
  | additive => exact tied_eq deepens_additiveWith
  | comparison => exact tied_eq agree_comparisonWith
  | assignment => rfl
  | expression => rfl

/-! ### Reading exactly a derivation -/

theorem reads_ofRank (rank : Rank) : Reads rank (ofRank rank) := by
  induction rank using Rank.operand_induction with
  | primary => exact reads_primary reads_expression
  | chain level ih =>
    rw [ofRank_chain]
    exact reads_chain (takes_ofRank _) ih
  | expression => exact reads_expression

/-- A parser leaves `r` of the tokens `u ++ r` exactly when `u` is a derivation and ends there. -/
theorem ofRank_eq_ok_iff {rank : Rank} {u r : List Token} {e : Expr}
    (hu : ∀ t ∈ u, t.Plain) (hr : Solid r) :
    ofRank rank (u ++ r) = .ok e r ↔ Derives rank u e ∧ Stops rank r := by
  constructor
  · intro h
    obtain ⟨⟨w, hw, hderives⟩, hstops, -⟩ := reads_ofRank rank (solid_append hu hr) h
    obtain rfl : u = w := List.append_cancel_right hw
    rw [strip_eq_self fun t ht => (hu t ht).2] at hderives
    exact ⟨hderives, hstops⟩
  · rintro ⟨hderives, hstops⟩
    exact (readBack_of_derives hderives hu).of_stops hr hstops

/-- A derivation that goes on behind another one goes on with an operator for it. -/
theorem not_stops_of_derives_append {rank : Rank} {u : List Token} {t : Token} {x : List Token}
    {e e' : Expr} (h : Derives rank u e) (h' : Derives rank (u ++ t :: x) e')
    (hplain : ∀ s ∈ u ++ t :: x, s.Plain) : ¬ Stops rank (t :: x) := by
  intro hstops
  have hu : ∀ s ∈ u, s.Plain := fun s hs => hplain s (List.mem_append_left _ hs)
  have ht : t.Plain := hplain t (by simp)
  -- the longer one is read to its end, and also up to the shorter one
  have hshort : ofRank rank (u ++ t :: x) = .ok e (t :: x) :=
    (ofRank_eq_ok_iff hu (solid_cons.mpr ht.2)).mpr ⟨h, hstops⟩
  have hlong : ofRank rank (u ++ t :: x ++ []) = .ok e' [] :=
    (ofRank_eq_ok_iff hplain solid_nil).mpr ⟨h', by simp [Stops]⟩
  rw [List.append_nil, hshort] at hlong
  cases hlong

/-- Nothing longer than `u` at the front of `u ++ r` is derivable. -/
theorem prefix_of_derives {rank : Rank} {u r v : List Token} {e e' : Expr}
    (hwell : ∀ t ∈ u ++ r, t.WellFormed) (h : Derives rank u e) (hstops : Stops rank r)
    (hv : v <+: u ++ r) (h' : Derives rank v e') : v <+: u := by
  rcases List.prefix_or_prefix_of_prefix hv (List.prefix_append u r) with hshort | ⟨x, rfl⟩
  · exact hshort
  cases x with
  | nil => simp
  | cons t x =>
    have hplain : ∀ s ∈ u ++ t :: x, s.Plain := by
      intro s hs
      have hs' : s.WellFormed := hwell s (hv.subset hs)
      exact ⟨hs', h'.kind_ne (by decide) (by decide) hs hs'⟩
    obtain ⟨y, hy⟩ := (List.prefix_append_right_inj u).mp hv
    have hhead : Stops rank (t :: x) := by
      intro s hs
      apply hstops s
      rw [← hy]
      exact hs
    exact absurd hhead (not_stops_of_derives_append h h' hplain)

theorem advances_ofRank (rank : Rank) : Advances (ofRank rank) := by
  induction rank using Rank.operand_induction with
  | primary => exact advances_primary takes_expression
  | chain level ih =>
    rw [ofRank_chain]
    exact advances_chain (takes_ofRank _) ih
  | expression => exact advances_expression

/-- **An expression is read as far as it goes.**  On well-formed tokens a parser of
    expressions reads exactly `u` and leaves `r` when `u` is derivable at its rank and `r`
    does not start with an operator that goes on with it.  Nothing longer is derivable
    then, and a success has always taken a token, whatever the tokens are. -/
theorem ExprEntry.reads_exactly (entry : ExprEntry) (u r : List Token) (e : Expr)
    (hu : ∀ t ∈ u, t.WellFormed ∧ t.kind ≠ .whitespace) (hr : ∀ t ∈ r, t.WellFormed)
    (hsolid : ∀ t ∈ r.head?, t.kind ≠ .whitespace) :
    (entry.parser (u ++ r) = .ok e r ↔ Derives entry.rank u e ∧ Stops entry.rank r) ∧
      (entry.parser (u ++ r) = .ok e r →
        ∀ v e', v <+: u ++ r → Derives entry.rank v e' → v <+: u) ∧
      ∀ ts e' rest, entry.parser ts = .ok e' rest → rest.length < ts.length := by
  have hiff : entry.parser (u ++ r) = .ok e r ↔ Derives entry.rank u e ∧ Stops entry.rank r := by
    rw [entry.parser_eq]
    exact ofRank_eq_ok_iff hu hsolid
  have hwell : ∀ t ∈ u ++ r, t.WellFormed := by
    intro t ht
    rcases List.mem_append.mp ht with ht | ht
    · exact (hu t ht).1
    · exact hr t ht
  refine ⟨hiff, ?_, ?_⟩
  · intro h v e' hv hderives
    obtain ⟨hshort, hstops⟩ := hiff.mp h
    exact prefix_of_derives hwell hshort hstops hv hderives
  · rw [entry.parser_eq]
    exact advances_ofRank entry.rank

/-- A sum takes `(x = y) * "s"` and leaves `== +`, although the latter is no comparison. -/
theorem ExprEntry.reads_exactly_product :
    let u : List Token := [.ofOperator .leftParen, .ofWord "x", .ofOperator .assign, .ofWord "y",
      .ofOperator .rightParen, .ofOperator .star, ⟨.string, "s", none⟩]
    let r : List Token := [.ofOperator .equal, .ofOperator .plus]
    let e : Expr := .arith .mul (.assign "x" (.variable "y")) (.string "s")
    (∀ t ∈ u, t.WellFormed ∧ t.kind ≠ .whitespace) ∧ (∀ t ∈ r, t.WellFormed) ∧
      (∀ t ∈ r.head?, t.kind ≠ .whitespace) ∧ Parser.additive (u ++ r) = .ok e r ∧
      Derives (.chain .additive) u e ∧ Stops (.chain .additive) r ∧
      ∀ v e', v <+: u ++ r → Derives (.chain .additive) v e' → v <+: u := by
  intro u r e
  have hu : ∀ t ∈ u, t.WellFormed ∧ t.kind ≠ .whitespace := by
    unfold Token.WellFormed
    decide
  have hr : ∀ t ∈ r, t.WellFormed := by
    unfold Token.WellFormed
    decide
  have hsolid : ∀ t ∈ r.head?, t.kind ≠ .whitespace := by decide
  have hread : Parser.additive (u ++ r) = .ok e r := rfl
  obtain ⟨hiff, hlongest, -⟩ := ExprEntry.reads_exactly .additive u r e hu hr hsolid
  obtain ⟨hderives, hstops⟩ := hiff.mp hread
  exact ⟨hu, hr, hsolid, hread, hderives, hstops, hlongest hread⟩

end LineCalc.Parser
