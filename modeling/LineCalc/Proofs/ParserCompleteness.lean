/-
  LineCalc/Proofs/ParserCompleteness.lean
  =======================================
  **What is derivable is read.**  A derivation over well-formed tokens is what the
  parser of its rank reads, up to exactly its last token, when no operator goes on
  with it.  Together with soundness this makes the parser accept the grammar and
  nothing else.

  The induction is over the derivation.  A chain derives to the left but is read
  from the left, so for chains the statement is about the parser that goes on: after
  a derived part it is in the state of `chainRest` with the tree derived so far,
  whatever follows.
-/
import LineCalc.Proofs.ParserSoundness

namespace LineCalc.Parser

open LineCalc.Grammar

theorem solid_append {u ts : List Token} (hu : ∀ t ∈ u, t.Plain) (hts : Solid ts) :
    Solid (u ++ ts) := by
  cases u with
  | nil => exact hts
  | cons t u => exact solid_cons.mpr (hu t (List.mem_cons_self ..)).2

/-! ### Reading back -/

/-- The parser of each rank. -/
def ofRank : Rank → Parser Expr
  | .primary => primary expression
  | .chain .multiplicative => multiplicativeWith expression
  | .chain .additive => additiveWith expression
  | .chain .comparison => comparisonWith expression
  | .expression => expression

theorem ofRank_chain (level : Level) :
    ofRank (.chain level) = chain level (ofRank (operandRank level)) := by
  cases level <;> rfl

theorem takes_ofRank (rank : Rank) : Takes (ofRank rank) := by
  induction rank using Rank.operand_induction with
  | primary => exact takes_primary takes_expression
  | chain level ih =>
    rw [ofRank_chain]
    exact takes_chain ih
  | expression => exact takes_expression

/-- Reading the tokens gives the tree, whatever follows; a chain may then go on. -/
def ReadBack : Rank → List Token → Expr → Prop
  | .primary, u, e => ∀ ts, primary expression (u ++ ts) = .ok e ts
  | .chain level, u, e => ∀ ts, Solid ts → Stops (operandRank level) ts →
      ofRank (.chain level) (u ++ ts) = chainRest level (ofRank (operandRank level)) e ts
  | .expression, u, e => ∀ ts, Solid ts → Stops .expression ts → expression (u ++ ts) = .ok e ts

theorem chainRest_of_stops {level : Level} {operand : Parser Expr} {e : Expr} {ts : List Token}
    (h : Stops (.chain level) ts) : chainRest level operand e ts = .ok e ts := by
  cases ts with
  | nil => rfl
  | cons t ts => exact chainRest_of_none ((stops_chain_iff.mp h).2 t rfl) operand e ts

/-- Where nothing goes on with it, exactly the derivation is read. -/
theorem ReadBack.of_stops {rank : Rank} {u : List Token} {e : Expr} (h : ReadBack rank u e)
    {ts : List Token} (hsolid : Solid ts) (hstops : Stops rank ts) :
    ofRank rank (u ++ ts) = .ok e ts := by
  cases rank with
  | primary => exact h ts
  | chain level =>
    rw [h ts hsolid (stops_chain_iff.mp hstops).1]
    exact chainRest_of_stops hstops
  | expression => exact h ts hsolid hstops

/-! ### The rules, one by one -/

theorem spanSigns_append {signs : List Token} {t : Token} (negative : Bool) (ts : List Token)
    (hsigns : ∀ s ∈ signs, isSign s) (hplain : ∀ s ∈ signs, s.kind ≠ .whitespace)
    (ht : t.kind ≠ .whitespace) (hsign : isSign t = false) :
    spanSigns negative (signs ++ t :: ts) = (negative ^^ negates signs, t :: ts) := by
  induction signs generalizing negative with
  | nil => simp [spanSigns, ht, hsign, negates]
  | cons s signs ih =>
    have hs : isSign s := hsigns s (List.mem_cons_self ..)
    have hspace : s.kind ≠ .whitespace := hplain s (List.mem_cons_self ..)
    rw [List.cons_append, spanSigns, if_neg hspace, if_pos hs,
      ih _ (fun s' h => hsigns s' (List.mem_cons_of_mem _ h))
        (fun s' h => hplain s' (List.mem_cons_of_mem _ h)), negates_cons, Bool.xor_assoc]

theorem readBack_signed {signs : List Token} {t : Token} {value : Binary64} (hne : signs ≠ [])
    (hsigns : ∀ s ∈ signs, isSign s) (hkind : t.kind = .number)
    (hvalue : Binary64.ofText? t.text = some value) (hu : ∀ s ∈ signs ++ [t], s.Plain) :
    ReadBack .primary (signs ++ [t]) (.number (if negates signs then value.neg else value)) := by
  intro ts
  have hplain : ∀ s ∈ signs, s.Plain := fun s hs => hu s (List.mem_append_left _ hs)
  have ht : t.Plain := hu t (by simp)
  have hnone := ht.operator_eq_none (by simp [hkind])
  have hspan := spanSigns_append false ts hsigns (fun s hs => (hplain s hs).2) ht.2
    (by simp [isSign, Token.isOperator, hnone])
  have hread : signedNumber (signs ++ t :: ts) =
      .ok (.number (if negates signs then value.neg else value)) ts := by
    rw [signedNumber, bind_of_ok (signs_apply _), hspan, bind_of_ok (next_eq_ok_iff.mpr rfl)]
    simp only [hkind, if_true, Bool.false_xor]
    rw [bind_of_ok (number_eq_ok_iff.mpr ⟨hvalue, rfl⟩)]
    rfl
  cases signs with
  | nil => exact absurd rfl hne
  | cons s signs =>
    have hs : s.operator = some .plus ∨ s.operator = some .minus := by
      simpa [isSign, Token.isOperator] using hsigns s (List.mem_cons_self ..)
    have hop : s.kind = .operator := (hplain s (List.mem_cons_self ..)).1.mpr (by
      rcases hs with hs | hs <;> simp [hs])
    simp only [List.cons_append, List.append_assoc, List.nil_append] at hread ⊢
    rcases hs with hs | hs <;> simpa only [primary, hop, hs] using hread

theorem readBack_group {l r : Token} {u : List Token} {e : Expr} (hl : l.isOperator .leftParen)
    (hr : r.isOperator .rightParen) (hu : ∀ t ∈ l :: (u ++ [r]), t.Plain)
    (h : ReadBack .expression u e) : ReadBack .primary (l :: (u ++ [r])) e := by
  intro ts
  have hplain : ∀ t ∈ u, t.Plain := fun t ht => hu t (by simp [ht])
  have hrp : r.Plain := hu r (by simp)
  have hop : l.kind = .operator := (hu l (by simp)).kind_eq hl
  have hsolid : Solid (r :: ts) := solid_cons.mpr hrp.2
  have hinner : expression (u ++ r :: ts) = .ok e (r :: ts) :=
    h _ hsolid (stops_of_isOperator hr (by simp [continuations]))
  have hgroup : group expression (u ++ r :: ts) = .ok e ts := by
    rw [group, space_bind, (solid_append hplain hsolid).skipSpace_eq, bind_of_ok hinner, space_bind,
      hsolid.skipSpace_eq, bind_of_ok (expectOperator_eq_ok_iff.mpr ⟨r, rfl, hr⟩)]
    rfl
  rw [Token.isOperator_iff] at hl
  simpa only [List.cons_append, List.append_assoc, List.nil_append, primary, hop, hl] using hgroup

theorem readBack_operand {level : Level} {u : List Token} {e : Expr}
    (h : ReadBack (operandRank level) u e) : ReadBack (.chain level) u e := by
  intro ts hsolid hstops
  rw [ofRank_chain, chain_eq, bind_of_ok (h.of_stops hsolid hstops), space_bind,
    hsolid.skipSpace_eq]

theorem readBack_join {level : Level} {u w : List Token} {l r : Expr} {t : Token} {op : Operator}
    {node : Expr → Expr → Expr} (ht : t.isOperator op) (hop : Joins level op node)
    (hu : ∀ s ∈ u ++ t :: w, s.Plain) (hl : ReadBack (.chain level) u l)
    (hr : ReadBack (operandRank level) w r) : ReadBack (.chain level) (u ++ t :: w) (node l r) := by
  intro ts hsolid hstops
  have hplain : ∀ s ∈ w, s.Plain := fun s hs => hu s (by simp [hs])
  have htp : t.Plain := hu t (by simp)
  -- the left part is read up to the operator, and the chain goes on there
  rw [List.append_assoc, List.cons_append, hl _ (solid_cons.mpr htp.2)
      (stops_of_isOperator ht (hop.not_mem_continuations)),
    chainRest_of_some (takes_ofRank _) (bind_join?_of_joins ht hop), space_bind,
    (solid_append hplain hsolid).skipSpace_eq, bind_of_ok (hr.of_stops hsolid hstops), space_bind,
    hsolid.skipSpace_eq]

theorem readBack_comparison {u : List Token} {e : Expr} (h : ReadBack (.chain .comparison) u e) :
    ReadBack .expression u e := by
  intro ts hsolid hstops
  obtain ⟨hchain, hassign⟩ := stops_expression_iff.mp hstops
  have hleft : comparisonWith expression (u ++ ts) = .ok e ts := h.of_stops hsolid hchain
  rw [expression_eq, assignmentWith_eq, bind_of_ok hleft, space_bind, hsolid.skipSpace_eq]
  cases ts with
  | nil => rfl
  | cons t ts => simp [assignmentRest, hassign t rfl]

theorem readBack_assign {u w : List Token} {name : String} {t : Token} {value : Expr}
    (ht : t.isOperator .assign) (hu : ∀ s ∈ u ++ t :: w, s.Plain)
    (hl : ReadBack (.chain .comparison) u (.variable name)) (hr : ReadBack .expression w value) :
    ReadBack .expression (u ++ t :: w) (.assign name value) := by
  intro ts hsolid hstops
  have hplain : ∀ s ∈ w, s.Plain := fun s hs => hu s (by simp [hs])
  have hsolid' : Solid (t :: (w ++ ts)) := solid_cons.mpr (hu t (by simp)).2
  have hleft : comparisonWith expression (u ++ t :: (w ++ ts)) =
      .ok (.variable name) (t :: (w ++ ts)) :=
    hl.of_stops hsolid' (stops_of_isOperator ht (by simp [continuations]))
  have hvalue : expression (w ++ ts) = .ok value ts := hr ts hsolid hstops
  rw [List.append_assoc, List.cons_append, expression_eq, assignmentWith_eq, bind_of_ok hleft,
    space_bind, hsolid'.skipSpace_eq, assignmentRest]
  simp only [ht, if_true]
  rw [assignTo_variable, space_bind, (solid_append hplain hsolid).skipSpace_eq, bind_of_ok hvalue,
    space_bind, hsolid.skipSpace_eq]
  rfl

/-- **Expressions are complete.** -/
theorem readBack_of_derives {rank : Rank} {u : List Token} {e : Expr} (h : Derives rank u e)
    (hu : ∀ t ∈ u, t.Plain) : ReadBack rank u e := by
  induction h with
  | name h | string h | null h | trueLiteral h | falseLiteral h =>
    intro ts
    simp [primary, h]
  | number h hvalue =>
    intro ts
    simp [primary, h, hvalue]
  | signed hne hsigns h hvalue => exact readBack_signed hne hsigns h hvalue hu
  | group hl _ hr ih =>
    exact readBack_group hl hr hu (ih fun t ht => hu t (by simp [ht]))
  | operand _ ih => exact readBack_operand (ih hu)
  | join _ ht hop _ ihl ihr =>
    exact readBack_join ht hop hu (ihl fun t ht => hu t (by simp [ht]))
      (ihr fun t ht => hu t (by simp [ht]))
  | comparison _ ih => exact readBack_comparison (ih hu)
  | assign _ ht _ ihl ihr =>
    exact readBack_assign ht hu (ihl fun t ht => hu t (by simp [ht]))
      (ihr fun t ht => hu t (by simp [ht]))

/-! ### Statements and programs -/

theorem Follows.endOfLine {piece ts : List Token} (h : Follows piece ts) (hbare : IsBare piece) :
    ∃ t rest, ts = t :: rest ∧ t.kind = .endOfLine := by
  obtain ⟨-, ⟨-, t, ht, hend⟩ | ⟨hnot, -⟩⟩ := h
  · cases ts with
    | nil => simp at ht
    | cons t' rest =>
      obtain rfl : t' = t := by simpa using ht
      exact ⟨t', rest, rfl, hend⟩
  · exact absurd hbare hnot

theorem Follows.stops {piece ts : List Token} (h : Follows piece ts) (hbare : ¬ IsBare piece) :
    Stops .expression ts := by
  obtain ⟨-, ⟨h, -⟩ | ⟨-, hstops⟩⟩ := h
  · exact absurd h hbare
  · exact hstops

/-- The beginning of a declaration. -/
theorem declaration_name {n t : Token} {ts : List Token} (hn : n.kind = .identifier)
    (ht : t.kind ≠ .whitespace) :
    declaration (n :: t :: ts) =
      if t.kind = .endOfLine then .ok (.declare n.text .null) (t :: ts)
      else initializer n.text (t :: ts) := by
  have hname : Solid (n :: t :: ts) := solid_cons.mpr (by simp [hn])
  have hsolid : Solid (t :: ts) := solid_cons.mpr ht
  rw [declaration_eq, space_bind, hname.skipSpace_eq,
    bind_of_ok (identifier_eq_ok_iff.mpr ⟨n, rfl, hn, rfl⟩), space_bind, hsolid.skipSpace_eq,
    bind_of_ok (peek_cons t ts)]
  split <;> rfl

/-- **Statements are complete.** -/
theorem statement_of_derives {u ts : List Token} {s : Statement} (h : DerivesStatement u s)
    (hu : ∀ t ∈ u, t.Plain) (hfollows : Follows u ts) : statement (u ++ ts) = .ok s ts := by
  have hsolid : Solid ts := hfollows.1
  cases h with
  | @bare set n hs hn =>
    obtain ⟨t, rest, rfl, hend⟩ := hfollows.endOfLine ⟨set, n, rfl, hs⟩
    simp only [List.cons_append, List.nil_append, statement, hs, if_true]
    rw [declaration_name hn (by simp [hend]), if_pos hend]
  | @declare set n t w e hs hn ht h =>
    have hw : ∀ t ∈ w, t.Plain := fun t ht => hu t (by simp [ht])
    have htp : t.Plain := hu t (by simp)
    have hstops : Stops .expression ts := hfollows.stops (by
      rintro ⟨s, n', heq, -⟩
      simp at heq)
    have hvalue : expression (w ++ ts) = .ok e ts := readBack_of_derives h hw ts hsolid hstops
    simp only [List.cons_append, statement, hs, if_true]
    rw [declaration_name hn htp.2, if_neg (by simp [htp.kind_eq ht]), initializer,
      bind_of_ok (expectOperator_eq_ok_iff.mpr ⟨t, rfl, ht⟩), space_bind,
      (solid_append hw hsolid).skipSpace_eq, bind_of_ok hvalue, space_bind, hsolid.skipSpace_eq]
    rfl
  | @expr u e h =>
    obtain ⟨t, w, rfl, hstart⟩ := h.exists_head
    have hset : t.kind ≠ .keyword .set := hstart.kind_ne_set (hu t (by simp))
    have hstops : Stops .expression ts := hfollows.stops (by
      rintro ⟨s, n, heq, hkind⟩
      obtain ⟨rfl, -⟩ := List.cons.inj heq
      exact hset hkind)
    have hread : expression (t :: w ++ ts) = .ok e ts := readBack_of_derives h hu ts hsolid hstops
    simp only [List.cons_append, statement, hset, if_false] at hread ⊢
    exact bind_of_ok hread

/-- A program goes on with no expression, signs apart. -/
theorem stops_of_split {u ts : List Token} {p : Program} {pieces : List (List Token)}
    (h : Split u p pieces) (hu : ∀ t ∈ u, t.Plain) (hsign : ¬ StartsWithSign u)
    (hts : Stops .expression ts) : Stops .expression (u ++ ts) := by
  obtain ⟨rfl, hderives, -, -⟩ := h
  cases hderives with
  | nil => exact hts
  | @cons first s others p' hfirst =>
    have hplain : ∀ t ∈ first, t.Plain := fun t ht => hu t (by simp [ht])
    obtain ⟨t, w, rfl⟩ := hfirst.exists_head
    rw [List.flatten_cons, List.append_assoc]
    exact hfirst.stops hplain hsign _

/-- What follows a piece of a program. -/
theorem follows_of_split {u v piece : List Token} {p : Program} {pieces : List (List Token)}
    (h : Split u p pieces) (hu : ∀ t ∈ u, t.Plain) (hsign : ¬ StartsWithSign u)
    (hbare : IsBare piece → u = []) : Follows piece (u ++ .endOfLine :: v) := by
  have hend : Solid (Token.endOfLine :: v) := solid_cons.mpr (by decide)
  refine ⟨solid_append hu hend, ?_⟩
  by_cases hpiece : IsBare piece
  · obtain rfl := hbare hpiece
    exact Or.inl ⟨hpiece, .endOfLine, rfl, rfl⟩
  · exact Or.inr ⟨hpiece, stops_of_split h hu hsign (stops_of_operator_eq_none rfl)⟩

/-- A statement is read off the front of a program. -/
theorem program_of_derives {piece ts : List Token} {s : Statement}
    (hs : DerivesStatement piece s) (hpiece : ∀ t ∈ piece, t.Plain ∧ t.kind ≠ .endOfLine)
    (hfollows : Follows piece ts) :
    program (piece ++ ts) = (program >>= fun others => pure (s :: others)) ts := by
  have hplain : ∀ t ∈ piece, t.Plain := fun t ht => (hpiece t ht).1
  have hread := statement_of_derives hs hplain hfollows
  obtain ⟨t, w, rfl⟩ := hs.exists_head
  rw [program_eq, (solid_append hplain hfollows.1).skipSpace_eq]
  simp only [List.cons_append, (hpiece t List.mem_cons_self).2, if_false] at hread ⊢
  rw [statementThen, bind_of_ok hread]

/-- **Programs are complete.** -/
theorem program_of_split {u v : List Token} {p : Program} {pieces : List (List Token)}
    (h : Split u p pieces) (hu : ∀ t ∈ u, t.Plain ∧ t.kind ≠ .endOfLine) :
    program (u ++ .endOfLine :: v) = .ok p v := by
  induction p generalizing u pieces with
  | nil =>
    have hend : Solid (Token.endOfLine :: v) := solid_cons.mpr (by decide)
    obtain ⟨rfl, hderives, -, -⟩ := h
    cases hderives
    rw [program_eq, List.flatten_nil, List.nil_append, hend.skipSpace_eq]
    rfl
  | cons s p ih =>
    cases pieces with
    | nil => cases h.derives
    | cons piece pieces =>
      obtain ⟨rfl, hs, hp, hsign, hbare⟩ := h.uncons
      have hpiece : ∀ t ∈ piece, t.Plain ∧ t.kind ≠ .endOfLine :=
        fun t ht => hu t (List.mem_append_left _ ht)
      have hothers : ∀ t ∈ pieces.flatten, t.Plain ∧ t.kind ≠ .endOfLine :=
        fun t ht => hu t (List.mem_append_right _ ht)
      have hfollows : Follows piece (pieces.flatten ++ .endOfLine :: v) :=
        follows_of_split hp (fun t ht => (hothers t ht).1) hsign hbare
      rw [List.append_assoc, program_of_derives hs hpiece hfollows, bind_of_ok (ih hp hothers)]
      rfl

/-! ### The parser and the grammar -/

theorem strip_eq_self {u : List Token} (h : ∀ t ∈ u, t.kind ≠ .whitespace) : strip u = u := by
  simpa [strip] using h

/-- A program read from a line ends at the end of that line. -/
theorem eq_of_append_endOfLine {u v w rest : List Token} {t : Token}
    (h : u ++ .endOfLine :: v = w ++ t :: rest) (hu : ∀ s ∈ u, s.kind ≠ .endOfLine)
    (hw : ∀ s ∈ w, ¬ IsEnd s) (ht : t.kind = .endOfLine) : u = w := by
  rcases List.append_eq_append_iff.mp h with ⟨a, rfl, ha⟩ | ⟨a, rfl, ha⟩
  · cases a with
    | nil => simp
    | cons s a =>
      obtain ⟨rfl, -⟩ := List.cons.inj ha
      exact absurd ⟨rfl, rfl⟩ (hw .endOfLine (by simp))
  · cases a with
    | nil => simp
    | cons s a =>
      obtain ⟨rfl, -⟩ := List.cons.inj ha
      exact absurd ht (hu t (by simp))

end LineCalc.Parser

namespace LineCalc.Grammar

open LineCalc.Parser

/-- **The parser accepts exactly the grammar.**  The tokens of a line are read as a
    program exactly when they can be cut into the statements of that program. -/
theorem ofTokens_eq_ok_iff (u v : List Token) (p : Program)
    (hu : ∀ t ∈ u, t.WellFormed ∧ t.kind ≠ .whitespace ∧ t.kind ≠ .endOfLine) :
    Program.ofTokens (u ++ [.endOfLine] ++ v) = .ok p ↔ ∃ pieces, Split u p pieces := by
  have hplain : ∀ t ∈ u, t.Plain ∧ t.kind ≠ .endOfLine := fun t ht =>
    ⟨⟨(hu t ht).1, (hu t ht).2.1⟩, (hu t ht).2.2⟩
  rw [List.append_assoc, List.singleton_append, Program.ofTokens_ok_iff]
  constructor
  · rintro ⟨rest, hread⟩
    obtain ⟨w, t, pieces, heq, hend, hsplit⟩ := program_eq_ok hread
    -- the program ends at the first end of line, so its tokens are those before it
    have hw : ∀ s ∈ w, ¬ IsEnd s := by
      intro s hs hsend
      exact hsplit.not_isEnd s (by simp [strip, hs, hsend.1]) hsend
    obtain rfl := eq_of_append_endOfLine heq (fun s hs => (hplain s hs).2) hw hend
    rw [strip_eq_self fun s hs => (hplain s hs).1.2] at hsplit
    exact ⟨pieces, hsplit⟩
  · rintro ⟨pieces, hsplit⟩
    exact ⟨v, program_of_split hsplit hplain⟩

/-- Three statements in a row, `y = (x) "s" set z`, the last without a value. -/
def juxtaposed : List Token :=
  [.ofWord "y", .ofOperator .assign, .ofOperator .leftParen, .ofWord "x", .ofOperator .rightParen,
    ⟨.string, "s", none⟩, .ofWord "set", .ofWord "z"]

theorem ofTokens_juxtaposed :
    (∀ t ∈ juxtaposed, t.WellFormed ∧ t.kind ≠ .whitespace ∧ t.kind ≠ .endOfLine) ∧
      ∃ pieces, Split juxtaposed
        [.expr (.assign "y" (.variable "x")), .expr (.string "s"), .declare "z" .null] pieces := by
  have hplain : ∀ t ∈ juxtaposed, t.WellFormed ∧ t.kind ≠ .whitespace ∧ t.kind ≠ .endOfLine := by
    unfold Token.WellFormed
    decide
  exact ⟨hplain, (ofTokens_eq_ok_iff juxtaposed [] _ hplain).mp rfl⟩

end LineCalc.Grammar
