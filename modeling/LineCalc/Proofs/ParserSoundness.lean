/-
  LineCalc/Proofs/ParserSoundness.lean
  ====================================
  **What a parser reads is derivable.**  Whatever the tokens, white space and
  malformed ones included, an expression that is read has taken a derivation of
  its tree, white space apart, and stops where no operator goes on with it.

  The statement for each parser is `Reads`.  It is carried through the levels one
  by one, through a chain by induction on the tokens left, and through nesting by
  induction on the depth.
-/
import LineCalc.Proofs.Grammar
import Mathlib.Data.List.TakeWhile

namespace LineCalc.Parser

open LineCalc.Grammar

/-! ### White space -/

/-- The tokens do not start with white space. -/
def Solid (ts : List Token) : Prop := ∀ t ∈ ts.head?, t.kind ≠ .whitespace

theorem solid_nil : Solid [] := by simp [Solid]

@[simp] theorem solid_cons {t : Token} {ts : List Token} :
    Solid (t :: ts) ↔ t.kind ≠ .whitespace := by
  simp [Solid]

theorem solid_skipSpace (ts : List Token) : Solid (skipSpace ts) := by
  intro t ht
  have hhead := List.head?_dropWhile_not (·.kind = .whitespace) ts
  rw [show (ts.dropWhile (·.kind = .whitespace)).head? = some t from ht] at hhead
  simpa using hhead

theorem Solid.skipSpace_eq {ts : List Token} (h : Solid ts) : skipSpace ts = ts := by
  cases ts with
  | nil => rfl
  | cons t ts => simp [skipSpace, solid_cons.mp h]

@[simp] theorem strip_nil : strip [] = [] := rfl

@[simp] theorem strip_append (ts us : List Token) : strip (ts ++ us) = strip ts ++ strip us :=
  List.filter_append ..

theorem strip_cons_of_ne {t : Token} {ts : List Token} (h : t.kind ≠ .whitespace) :
    strip (t :: ts) = t :: strip ts := by
  simp [strip, h]

theorem strip_cons_of_eq {t : Token} {ts : List Token} (h : t.kind = .whitespace) :
    strip (t :: ts) = strip ts := by
  simp [strip, h]

/-- What `skipSpace` takes away is white space. -/
theorem exists_eq_append_skipSpace (ts : List Token) :
    ∃ blank, ts = blank ++ skipSpace ts ∧ strip blank = [] := by
  refine ⟨ts.takeWhile (·.kind = .whitespace), List.takeWhile_append_dropWhile.symm, ?_⟩
  simp only [strip, List.filter_eq_nil_iff]
  intro t ht
  simpa using List.mem_takeWhile_imp ht

/-! ### The operators of a level -/

theorem join?_eq_some_iff {level : Level} {op : Operator} {node : Expr → Expr → Expr} :
    level.join? op = some node ↔ Joins level op node := by
  constructor
  · intro h
    cases level <;> cases op <;> simp only [Level.join?, Option.some.injEq, reduceCtorEq] at h <;>
      (subst h; constructor)
  · intro h
    cases h <;> rfl

theorem exists_joins {level : Level} {t : Token} {node : Expr → Expr → Expr}
    (h : t.operator.bind level.join? = some node) :
    ∃ op, t.isOperator op ∧ Joins level op node := by
  obtain ⟨op, hop, hjoin⟩ := Option.bind_eq_some_iff.mp h
  exact ⟨op, Token.isOperator_iff.mpr hop, join?_eq_some_iff.mp hjoin⟩

theorem bind_join?_of_joins {level : Level} {t : Token} {op : Operator} {node : Expr → Expr → Expr}
    (ht : t.isOperator op) (h : Joins level op node) : t.operator.bind level.join? = some node := by
  rw [Token.isOperator_iff.mp ht]
  exact join?_eq_some_iff.mpr h

/-- A chain ends where its operands end and no operator of its own stands. -/
theorem stops_chain_iff {level : Level} {ts : List Token} :
    Stops (.chain level) ts ↔
      Stops (operandRank level) ts ∧ ∀ t ∈ ts.head?, t.operator.bind level.join? = none := by
  cases ts with
  | nil => simp [Stops]
  | cons t ts =>
    cases hop : t.operator with
    | none => simp [Stops, Token.isOperator, hop]
    | some op =>
      cases level <;> cases op <;>
        simp [Stops, continuations, operandRank, Token.isOperator, hop, Level.join?]

theorem stops_expression_iff {ts : List Token} :
    Stops .expression ts ↔
      Stops (.chain .comparison) ts ∧ ∀ t ∈ ts.head?, t.isOperator .assign = false := by
  cases ts with
  | nil => simp [Stops]
  | cons t ts => simp [Stops, continuations, and_comm]

/-! ### Primary expressions -/

/-- A success of the parser has read a derivation of this rank. -/
def Reads (rank : Rank) (p : Parser Expr) : Prop :=
  ∀ ⦃ts e rest⦄, Solid ts → p ts = .ok e rest →
    (∃ u, ts = u ++ rest ∧ Derives rank (strip u) e) ∧ Stops rank rest ∧
      (rank ≠ .primary → Solid rest)

/-- The same with the white space around it. -/
theorem Reads.spaced {rank : Rank} {p : Parser Expr} (hp : Reads rank p) {ts rest : List Token}
    {e : Expr} (h : p (skipSpace ts) = .ok e rest) :
    (∃ u, ts = u ++ skipSpace rest ∧ Derives rank (strip u) e) ∧ Stops rank (skipSpace rest) := by
  obtain ⟨⟨u, hu, hderives⟩, hstops, hsolid⟩ := hp (solid_skipSpace ts) h
  obtain ⟨front, hfront, hstrip⟩ := exists_eq_append_skipSpace ts
  obtain ⟨back, hback, hstrip'⟩ := exists_eq_append_skipSpace rest
  refine ⟨⟨front ++ u ++ back, ?_, by simpa [hstrip, hstrip'] using hderives⟩, ?_⟩
  · rw [List.append_assoc, List.append_assoc, ← hback, ← hu, ← hfront]
  · cases rank with
    | primary => simp [Stops, continuations]
    | chain level => rwa [(hsolid (by simp)).skipSpace_eq]
    | expression => rwa [(hsolid (by simp)).skipSpace_eq]

theorem negates_cons (t : Token) (signs : List Token) :
    negates (t :: signs) = (t.isOperator .minus ^^ negates signs) := by
  cases h : t.isOperator .minus with
  | false => simp [negates, h]
  | true =>
    simp only [negates, List.countP_cons, h, if_true, Bool.true_xor, ← decide_not,
      decide_eq_decide]
    omega

/-- The signs at the front, and whether they negate. -/
theorem spanSigns_spec (negative : Bool) (ts : List Token) :
    ∃ u, ts = u ++ (spanSigns negative ts).2 ∧ (∀ s ∈ strip u, isSign s) ∧
      (spanSigns negative ts).1 = (negative ^^ negates (strip u)) := by
  fun_induction spanSigns negative ts with
  | case1 negative => exact ⟨[], rfl, by simp, by simp [negates]⟩
  | case2 negative t ts hspace ih =>
    obtain ⟨u, hts, hsigns, hneg⟩ := ih
    have hstrip : strip (t :: u) = strip u := by simp [strip, hspace]
    exact ⟨t :: u, congrArg (t :: ·) hts, by rwa [hstrip], by rw [hneg, hstrip]⟩
  | case3 negative t ts hspace hsign ih =>
    obtain ⟨u, hts, hsigns, hneg⟩ := ih
    have hstrip : strip (t :: u) = t :: strip u := strip_cons_of_ne hspace
    refine ⟨t :: u, congrArg (t :: ·) hts, ?_, ?_⟩
    · rw [hstrip]
      simpa [hsign] using hsigns
    · rw [hneg, hstrip, negates_cons, Bool.xor_assoc]
  | case4 negative t ts hspace hsign => exact ⟨[], rfl, by simp, by simp [negates]⟩

theorem signs_apply (ts : List Token) :
    signs ts = .ok (spanSigns false ts).1 (spanSigns false ts).2 := rfl

theorem next_eq_ok_iff {ts rest : List Token} {t : Token} :
    next ts = .ok t rest ↔ ts = t :: rest := by
  cases ts with
  | nil => simp [next]
  | cons t' ts => simp [next]

theorem number_eq_ok_iff {literal : String} {ts rest : List Token} {value : Binary64} :
    number literal ts = .ok value rest ↔ Binary64.ofText? literal = some value ∧ ts = rest := by
  unfold number
  cases Binary64.ofText? literal <;> simp

/-- A number read behind the sign `t`. -/
theorem signedNumber_eq_ok {t : Token} {ts rest : List Token} {e : Expr}
    (hop : t.kind = .operator) (h : signedNumber (t :: ts) = .ok e rest) :
    ∃ u, t :: ts = u ++ rest ∧ Derives .primary (strip u) e := by
  obtain ⟨u, hts, hsigns, hneg⟩ := spanSigns_spec false (t :: ts)
  rw [signedNumber, bind_of_ok (signs_apply (t :: ts))] at h
  obtain ⟨n, mid, hnext, h⟩ := bind_eq_ok_iff.mp h
  rw [next_eq_ok_iff.mp hnext] at hts
  by_cases hkind : n.kind = .number
  · simp only [hkind, if_true] at h
    obtain ⟨value, mid', hread, h⟩ := bind_eq_ok_iff.mp h
    obtain ⟨hvalue, rfl⟩ := number_eq_ok_iff.mp hread
    simp only [pure_apply, EStateM.Result.ok.injEq] at h
    obtain ⟨rfl, rfl⟩ := h
    -- the sign itself is among the signs, for the number is another token
    have hne : strip u ≠ [] := by
      cases u with
      | nil =>
        obtain ⟨rfl, -⟩ := List.cons.inj hts
        simp [hop] at hkind
      | cons s u =>
        obtain ⟨rfl, -⟩ := List.cons.inj hts
        simp [strip, hop]
    refine ⟨u ++ [n], by simp [hts], ?_⟩
    rw [strip_append, strip_cons_of_ne (by simp [hkind]), hneg, Bool.false_xor]
    exact .signed hne hsigns hkind hvalue
  · simp [hkind] at h

theorem expectOperator_eq_ok_iff {op : Operator} {ts rest : List Token} :
    expectOperator op ts = .ok () rest ↔ ∃ t, ts = t :: rest ∧ t.isOperator op := by
  unfold expectOperator
  rw [bind_eq_ok_iff]
  constructor
  · rintro ⟨t, mid, hnext, h⟩
    obtain rfl := next_eq_ok_iff.mp hnext
    by_cases hop : t.isOperator op
    · simp only [hop, if_true, pure_apply, EStateM.Result.ok.injEq, true_and] at h
      exact ⟨t, by rw [h], hop⟩
    · simp [hop] at h
  · rintro ⟨t, rfl, hop⟩
    exact ⟨t, rest, rfl, by simp [hop]⟩

theorem group_eq_ok {inner : Parser Expr} (hi : Reads .expression inner) {ts rest : List Token}
    {e : Expr} (h : group inner ts = .ok e rest) :
    ∃ u r, ts = u ++ r :: rest ∧ Derives .expression (strip u) e ∧ r.isOperator .rightParen ∧
      r.kind ≠ .whitespace := by
  rw [group, space_bind] at h
  obtain ⟨e', mid, hinner, h⟩ := bind_eq_ok_iff.mp h
  obtain ⟨⟨u, hts, hderives⟩, -⟩ := hi.spaced hinner
  rw [space_bind] at h
  obtain ⟨⟨⟩, mid', hclose, h⟩ := bind_eq_ok_iff.mp h
  obtain ⟨r, hr, hparen⟩ := expectOperator_eq_ok_iff.mp hclose
  simp only [pure_apply, EStateM.Result.ok.injEq] at h
  obtain ⟨rfl, rfl⟩ := h
  have hsolid := solid_skipSpace mid
  rw [hr] at hts hsolid
  exact ⟨u, r, hts, hderives, hparen, solid_cons.mp hsolid⟩

theorem reads_primary {inner : Parser Expr} (hi : Reads .expression inner) :
    Reads .primary (primary inner) := by
  intro ts e rest hsolid h
  refine ⟨?_, by simp [Stops, continuations], fun hne => absurd rfl hne⟩
  cases ts with
  | nil => cases h
  | cons t ts =>
    have hone : ∀ {e'}, Derives .primary [t] e' →
        ∃ u, t :: ts = u ++ ts ∧ Derives .primary (strip u) e' := by
      intro e' hderives
      refine ⟨[t], rfl, ?_⟩
      rwa [strip_cons_of_ne (solid_cons.mp hsolid)]
    simp only [primary] at h
    split at h
    · cases h; exact hone (.name ‹_›)
    · cases h; exact hone (.string ‹_›)
    · exact absurd ‹_› (solid_cons.mp hsolid)
    · cases h; exact hone (.null ‹_›)
    · cases h; exact hone (.trueLiteral ‹_›)
    · cases h; exact hone (.falseLiteral ‹_›)
    · split at h
      · cases h; exact hone (.number ‹_› ‹_›)
      · cases h
    · next hkind =>
      split at h
      · next hop =>
        obtain ⟨u, r, rfl, hderives, hr, hspace⟩ := group_eq_ok hi h
        refine ⟨t :: (u ++ [r]), by simp, ?_⟩
        rw [strip_cons_of_ne (solid_cons.mp hsolid), strip_append, strip_cons_of_ne hspace]
        exact .group (Token.isOperator_iff.mpr hop) hderives hr
      · exact signedNumber_eq_ok hkind h
      · exact signedNumber_eq_ok hkind h
      · cases h
    · cases h

/-! ### Chains and assignments -/

theorem reads_chainRest {level : Level} {operand : Parser Expr} (ht : Takes operand)
    (ho : Reads (operandRank level) operand) {ts rest w : List Token} {left e : Expr}
    (hsolid : Solid ts) (hstops : Stops (operandRank level) ts)
    (hleft : Derives (.chain level) w left) (h : chainRest level operand left ts = .ok e rest) :
    (∃ u, ts = u ++ rest ∧ Derives (.chain level) (w ++ strip u) e) ∧ Stops (.chain level) rest ∧
      Solid rest := by
  induction hn : ts.length using Nat.strong_induction_on generalizing ts w left with
  | _ n ih =>
    cases ts with
    | nil =>
      cases h
      exact ⟨⟨[], rfl, by simpa using hleft⟩, by simp [Stops], solid_nil⟩
    | cons t ts =>
      cases hjoin : t.operator.bind level.join? with
      | none =>
        rw [chainRest_of_none hjoin] at h
        cases h
        exact ⟨⟨[], rfl, by simpa using hleft⟩,
          stops_chain_iff.mpr ⟨hstops, by simpa using hjoin⟩, hsolid⟩
      | some node =>
        obtain ⟨op, hop, hnode⟩ := exists_joins hjoin
        rw [chainRest_of_some ht hjoin, space_bind] at h
        obtain ⟨right, mid, hright, h⟩ := bind_eq_ok_iff.mp h
        rw [space_bind] at h
        obtain ⟨⟨v, hv, hderives⟩, hmid⟩ := ho.spaced hright
        have hlen : (skipSpace mid).length < n := by
          rw [← hn, hv]
          simp only [List.length_cons, List.length_append]
          omega
        obtain ⟨⟨u, hu, hwhole⟩, hend⟩ :=
          ih _ hlen (solid_skipSpace mid) hmid (hleft.join hop hnode hderives) h rfl
        refine ⟨⟨t :: (v ++ u), ?_, ?_⟩, hend⟩
        · rw [hv, hu, List.cons_append, List.append_assoc]
        · rw [strip_cons_of_ne (solid_cons.mp hsolid), strip_append]
          simpa using hwhole

theorem reads_chain {level : Level} {operand : Parser Expr} (ht : Takes operand)
    (ho : Reads (operandRank level) operand) : Reads (.chain level) (chain level operand) := by
  intro ts e rest hsolid h
  rw [chain_eq] at h
  obtain ⟨left, mid, hleft, h⟩ := bind_eq_ok_iff.mp h
  rw [space_bind] at h
  rw [← hsolid.skipSpace_eq] at hleft
  obtain ⟨⟨w, hw, hderives⟩, hmid⟩ := ho.spaced hleft
  obtain ⟨⟨u, hu, hwhole⟩, hstops, hsolid'⟩ :=
    reads_chainRest ht ho (solid_skipSpace mid) hmid (.operand hderives) h
  refine ⟨⟨w ++ u, ?_, by simpa using hwhole⟩, hstops, fun _ => hsolid'⟩
  rw [hw, hu, List.append_assoc]

theorem reads_comparisonWith {inner : Parser Expr} (ht : Takes inner)
    (hi : Reads .expression inner) : Reads (.chain .comparison) (comparisonWith inner) := by
  have hp := takes_primary ht
  exact reads_chain (takes_chain (takes_chain hp)) (reads_chain (takes_chain hp)
    (reads_chain hp (reads_primary hi)))

theorem assignTo_variable (inner : Parser Expr) (name : String) :
    assignTo inner (.variable name) = (do
      space
      let value ← inner
      space
      pure (.assign name value)) := rfl

theorem assignTo_eq_ok {inner : Parser Expr} (hi : Reads .expression inner) {target e : Expr}
    {ts rest : List Token} (h : assignTo inner target ts = .ok e rest) :
    ∃ name value u, target = .variable name ∧ e = .assign name value ∧ ts = u ++ rest ∧
      Derives .expression (strip u) value ∧ Stops .expression rest ∧ Solid rest := by
  cases target with
  | «variable» name =>
    rw [assignTo_variable, space_bind] at h
    obtain ⟨value, mid, hvalue, h⟩ := bind_eq_ok_iff.mp h
    obtain ⟨⟨u, hu, hderives⟩, hstops⟩ := hi.spaced hvalue
    rw [space_bind] at h
    cases h
    exact ⟨name, value, u, rfl, rfl, hu, hderives, hstops, solid_skipSpace mid⟩
  | _ => cases h

theorem reads_assignmentWith {inner : Parser Expr} (ht : Takes inner)
    (hi : Reads .expression inner) : Reads .expression (assignmentWith inner) := by
  intro ts e rest hsolid h
  rw [assignmentWith_eq] at h
  obtain ⟨left, mid, hleft, h⟩ := bind_eq_ok_iff.mp h
  rw [space_bind] at h
  rw [← hsolid.skipSpace_eq] at hleft
  obtain ⟨⟨w, hw, hderives⟩, hmid⟩ := (reads_comparisonWith ht hi).spaced hleft
  have hsolid' := solid_skipSpace mid
  cases hskip : skipSpace mid with
  | nil =>
    rw [hskip] at h hw
    cases h
    exact ⟨⟨w, hw, .comparison hderives⟩, by simp [Stops], fun _ => solid_nil⟩
  | cons t mid' =>
    rw [hskip] at h hw hmid hsolid'
    by_cases hassign : t.isOperator .assign
    · simp only [assignmentRest, hassign, if_true] at h
      obtain ⟨name, value, u, rfl, rfl, hu, hvalue, hstops, hend⟩ := assignTo_eq_ok hi h
      refine ⟨⟨w ++ t :: u, ?_, ?_⟩, hstops, fun _ => hend⟩
      · rw [hw, hu, List.append_assoc, List.cons_append]
      · rw [strip_append, strip_cons_of_ne (solid_cons.mp hsolid')]
        exact .assign hderives hassign hvalue
    · simp only [assignmentRest, hassign] at h
      cases h
      exact ⟨⟨w, hw, .comparison hderives⟩,
        stops_expression_iff.mpr ⟨hmid, by simpa using hassign⟩, fun _ => hsolid'⟩

theorem reads_nested (depth : Nat) : Reads .expression (nested depth) := by
  induction depth with
  | zero => intro ts e rest _ h; cases h
  | succ depth ih => exact reads_assignmentWith (takes_nested depth) ih

/-- **Expressions are sound.** -/
theorem reads_expression : Reads .expression expression := by
  intro ts e rest hsolid h
  rw [expression_eq_nested (Nat.le_refl _)] at h
  exact reads_nested _ hsolid h

/-! ### Statements -/

theorem identifier_eq_ok_iff {ts rest : List Token} {name : String} :
    identifier ts = .ok name rest ↔ ∃ t, ts = t :: rest ∧ t.kind = .identifier ∧ name = t.text := by
  unfold identifier
  rw [bind_eq_ok_iff]
  constructor
  · rintro ⟨t, mid, hnext, h⟩
    obtain rfl := next_eq_ok_iff.mp hnext
    by_cases hkind : t.kind = .identifier
    · simp only [hkind, if_true, pure_apply, EStateM.Result.ok.injEq] at h
      exact ⟨t, by rw [h.2], hkind, h.1.symm⟩
    · simp [hkind] at h
  · rintro ⟨t, rfl, hkind, rfl⟩
    exact ⟨t, rest, rfl, by simp [hkind]⟩

/-- What may follow a statement: another statement cannot go on with it, and behind a
    declaration without a value the line ends. -/
def Follows (piece rest : List Token) : Prop :=
  Solid rest ∧ ((IsBare piece ∧ ∃ t ∈ rest.head?, t.kind = .endOfLine) ∨
    (¬ IsBare piece ∧ Stops .expression rest))

theorem peek_cons (t : Token) (ts : List Token) : peek (t :: ts) = .ok t (t :: ts) := rfl

theorem initializer_eq_ok {name : String} {ts rest : List Token} {s : Statement}
    (h : initializer name ts = .ok s rest) :
    ∃ t u value, ts = t :: (u ++ rest) ∧ t.isOperator .assign ∧
      Derives .expression (strip u) value ∧ s = .declare name value ∧
      Stops .expression rest ∧ Solid rest := by
  rw [initializer] at h
  obtain ⟨⟨⟩, mid, hassign, hvalue⟩ := bind_eq_ok_iff.mp h
  obtain ⟨t, rfl, ht⟩ := expectOperator_eq_ok_iff.mp hassign
  rw [space_bind] at hvalue
  obtain ⟨value, mid', he, hpure⟩ := bind_eq_ok_iff.mp hvalue
  obtain ⟨⟨u, hu, hderives⟩, hstops⟩ := reads_expression.spaced he
  rw [space_bind] at hpure
  cases hpure
  exact ⟨t, u, value, by rw [hu], ht, hderives, rfl, hstops, solid_skipSpace mid'⟩

theorem declaration_eq_ok {set : Token} {ts rest : List Token} {s : Statement}
    (hset : set.kind = .keyword .set) (h : declaration ts = .ok s rest) :
    ∃ u, set :: ts = u ++ rest ∧ DerivesStatement (strip u) s ∧ Follows (strip u) rest := by
  rw [declaration_eq, space_bind] at h
  obtain ⟨name, mid, hname, h⟩ := bind_eq_ok_iff.mp h
  obtain ⟨n, hn, hkind, rfl⟩ := identifier_eq_ok_iff.mp hname
  rw [space_bind] at h
  obtain ⟨front, hfront, hstrip⟩ := exists_eq_append_skipSpace ts
  obtain ⟨back, hback, hstrip'⟩ := exists_eq_append_skipSpace mid
  have hts : set :: ts = (set :: (front ++ n :: back)) ++ skipSpace mid := by
    rw [hfront, hn, List.cons_append, List.append_assoc, List.cons_append, ← hback]
  have hsolid := solid_skipSpace mid
  have hwords : strip (set :: (front ++ n :: back)) = [set, n] := by
    rw [strip_cons_of_ne (by simp [hset]), strip_append, strip_cons_of_ne (by simp [hkind]),
      hstrip, hstrip']
    rfl
  cases hmid : skipSpace mid with
  | nil => rw [hmid] at h; cases h
  | cons t mid' =>
    rw [hmid] at h hts hsolid
    rw [bind_of_ok (peek_cons t mid')] at h
    by_cases hend : t.kind = .endOfLine
    · simp only [hend, if_true] at h
      cases h
      refine ⟨_, hts, ?_, ?_⟩
      · rw [hwords]
        exact .bare hset hkind
      · rw [hwords]
        exact ⟨hsolid, Or.inl ⟨⟨set, n, rfl, hset⟩, t, rfl, hend⟩⟩
    · simp only [hend, if_false] at h
      obtain ⟨t', u, value, heq, hassign, hderives, rfl, hstops, hsolid'⟩ :=
        initializer_eq_ok h
      obtain ⟨rfl, rfl⟩ := List.cons.inj heq
      have hall : strip (set :: (front ++ n :: back) ++ t :: u) = set :: n :: t :: strip u := by
        rw [strip_append, hwords, strip_cons_of_ne (solid_cons.mp hsolid)]
        rfl
      refine ⟨set :: (front ++ n :: back) ++ t :: u, ?_, ?_, ?_⟩
      · rw [hts]
        simp
      · rw [hall]
        exact .declare hset hkind hassign hderives
      · rw [hall]
        refine ⟨hsolid', Or.inr ⟨?_, hstops⟩⟩
        rintro ⟨s, n', heq, -⟩
        simp at heq

/-- **Statements are sound.** -/
theorem statement_eq_ok {ts rest : List Token} {s : Statement} (hsolid : Solid ts)
    (h : statement ts = .ok s rest) :
    ∃ u, ts = u ++ rest ∧ DerivesStatement (strip u) s ∧ Follows (strip u) rest := by
  cases ts with
  | nil => cases h
  | cons t ts =>
    simp only [statement] at h
    by_cases hset : t.kind = .keyword .set
    · simp only [hset, if_true] at h
      exact declaration_eq_ok hset h
    · simp only [hset, if_false] at h
      obtain ⟨e, mid, he, h⟩ := bind_eq_ok_iff.mp h
      cases h
      obtain ⟨⟨u, hu, hderives⟩, hstops, hend⟩ := reads_expression hsolid he
      refine ⟨u, hu, .expr hderives, hend (by simp), Or.inr ⟨?_, hstops⟩⟩
      -- the first token that counts is `t`, which is no `set`
      rintro ⟨s, n, hstrip, hkind⟩
      cases u with
      | nil => simp at hstrip
      | cons t' u =>
        obtain ⟨rfl, -⟩ := List.cons.inj hu
        rw [strip_cons_of_ne (solid_cons.mp hsolid)] at hstrip
        obtain ⟨rfl, -⟩ := List.cons.inj hstrip
        exact hset hkind

/-! ### Programs -/

/-- Behind a declaration without a value there is nothing but the end of the line. -/
theorem program_of_endOfLine {ts rest u : List Token} {p : Program} {t : Token}
    (h : program ts = .ok p rest) (hhead : ∃ s ∈ ts.head?, s.kind = .endOfLine)
    (hts : ts = u ++ t :: rest) : u = [] := by
  obtain ⟨s, hs, hkind⟩ := hhead
  cases ts with
  | nil => simp at hs
  | cons s' ts =>
    obtain rfl : s' = s := by simpa using hs
    have hsolid : Solid (s' :: ts) := solid_cons.mpr (by simp [hkind])
    rw [program_eq, hsolid.skipSpace_eq] at h
    simp only [hkind, if_true, EStateM.Result.ok.injEq] at h
    have hlen := congrArg List.length hts
    simp only [h.2, List.length_append, List.length_cons] at hlen
    exact List.eq_nil_of_length_eq_zero (by omega)

/-- No sign follows a statement. -/
theorem not_startsWithSign_strip {u rest : List Token} (hsolid : Solid (u ++ rest))
    (h : Stops .expression (u ++ rest)) : ¬ StartsWithSign (strip u) := by
  rintro ⟨t, ht, hsign⟩
  cases u with
  | nil => simp at ht
  | cons t' u =>
    rw [strip_cons_of_ne (solid_cons.mp hsolid)] at ht
    obtain rfl : t' = t := by simpa using ht
    have hplus := h t' rfl .plus (by simp [continuations])
    have hminus := h t' rfl .minus (by simp [continuations])
    simp [isSign, hplus, hminus] at hsign

/-- **Programs are sound.**  A program that is read is cut into statements up to
    the end of the line. -/
theorem program_eq_ok {ts rest : List Token} {p : Program} (h : program ts = .ok p rest) :
    ∃ u t pieces, ts = u ++ t :: rest ∧ t.kind = .endOfLine ∧ Split (strip u) p pieces := by
  induction hn : ts.length using Nat.strong_induction_on generalizing ts p with
  | _ n ih =>
    obtain ⟨blank, hblank, hstrip⟩ := exists_eq_append_skipSpace ts
    have hsolid := solid_skipSpace ts
    rw [program_eq] at h
    cases hskip : skipSpace ts with
    | nil => rw [hskip] at h; cases h
    | cons t rest' =>
      rw [hskip] at h hblank hsolid
      by_cases hend : t.kind = .endOfLine
      · simp only [hend, if_true] at h
        cases h
        exact ⟨blank, t, [], hblank, hend, by rw [hstrip]; exact Split.nil⟩
      · simp only [hend, if_false] at h
        rw [statementThen] at h
        obtain ⟨first, mid, hfirst, hothers⟩ := bind_eq_ok_iff.mp h
        obtain ⟨others, mid', hprogram, hpure⟩ := bind_eq_ok_iff.mp hothers
        cases hpure
        obtain ⟨u, hu, hderives, hfollows⟩ := statement_eq_ok hsolid hfirst
        have hlen : mid.length < n := by
          have := advances_statement _ _ _ hfirst
          rw [← hn, hblank]
          simp only [List.length_append]
          omega
        obtain ⟨v, t', pieces, rfl, hend', hsplit⟩ := ih _ hlen hprogram rfl
        refine ⟨blank ++ u ++ v, t', strip u :: pieces, ?_, hend', ?_⟩
        · rw [hblank, hu]
          simp
        · rw [strip_append, strip_append, hstrip, List.nil_append]
          obtain ⟨hsolid', ⟨hbare, hhead⟩ | ⟨hbare, hstops⟩⟩ := hfollows
          · obtain rfl := program_of_endOfLine hprogram hhead rfl
            exact Split.cons hderives hsplit (by simp [StartsWithSign]) fun _ => rfl
          · exact Split.cons hderives hsplit (not_startsWithSign_strip hsolid' hstops)
              fun h => absurd h hbare

end LineCalc.Parser
