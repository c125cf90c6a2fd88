/-
  LineCalc/Proofs/WhiteSpace.lean
  ===============================
  **White space means nothing.**  A program is read from a token list as from the
  list without its white space, with the same tree or the same error, and what is
  left over is the same again, white space apart.

  A parser that starts with `space` can be run anywhere and is `Blind`; one that
  looks at its first token at once is blind when that token is no white space,
  which is how the others call it (`BlindWhenSolid`).
-/
import LineCalc.Proofs.ParserSoundness

namespace LineCalc.Parser

open LineCalc.Grammar

variable {α β : Type}

/-- An outcome, with the white space taken out of what is left. -/
def stripLeft : EStateM.Result ParseError (List Token) α → EStateM.Result ParseError (List Token) α
  | .ok a rest => .ok a (strip rest)
  | .error e rest => .error e (strip rest)

/-- The parser does on any tokens what it does without their white space. -/
def Blind (p : Parser α) : Prop := ∀ ts, stripLeft (p ts) = p (strip ts)

/-- The same for tokens that do not start with white space. -/
def BlindWhenSolid (p : Parser α) : Prop := ∀ ts, Solid ts → stripLeft (p ts) = p (strip ts)

theorem Blind.whenSolid {p : Parser α} (h : Blind p) : BlindWhenSolid p := fun ts _ => h ts

theorem solid_strip (ts : List Token) : Solid (strip ts) := by
  intro t ht
  have hmem := List.mem_of_mem_head? ht
  simpa using (List.mem_filter.mp hmem).2

theorem strip_skipSpace (ts : List Token) : strip (skipSpace ts) = strip ts := by
  obtain ⟨blank, hts, hblank⟩ := exists_eq_append_skipSpace ts
  conv_rhs => rw [hts, strip_append, hblank, List.nil_append]

theorem bind_strip {p : Parser α} {f : α → Parser β} {ts : List Token}
    (hp : stripLeft (p ts) = p (strip ts))
    (hf : ∀ a rest, p ts = .ok a rest → stripLeft (f a rest) = f a (strip rest)) :
    stripLeft ((p >>= f) ts) = (p >>= f) (strip ts) := by
  cases h : p ts with
  | ok a rest =>
    rw [h] at hp
    rw [bind_of_ok h, bind_of_ok hp.symm, hf a rest h]
  | error e rest =>
    rw [h] at hp
    rw [bind_of_error h, bind_of_error hp.symm]
    rfl

theorem Blind.bind {p : Parser α} {f : α → Parser β} (hp : Blind p) (hf : ∀ a, Blind (f a)) :
    Blind (p >>= f) := fun ts => bind_strip (hp ts) fun a rest _ => hf a rest

theorem BlindWhenSolid.bind {p : Parser α} {f : α → Parser β} (hp : BlindWhenSolid p)
    (hf : ∀ a, Blind (f a)) : BlindWhenSolid (p >>= f) :=
  fun ts hsolid => bind_strip (hp ts hsolid) fun a rest _ => hf a rest

/-- Behind white space, any tokens will do. -/
theorem blind_space_bind {f : Unit → Parser α} (h : BlindWhenSolid (f ())) :
    Blind (space >>= f) := by
  intro ts
  rw [space_bind, space_bind, h _ (solid_skipSpace ts), strip_skipSpace,
    (solid_strip ts).skipSpace_eq]

theorem blind_pure (a : α) : Blind (pure a : Parser α) := fun _ => rfl

theorem blind_throw (e : ParseError) : Blind (throw e : Parser α) := fun _ => rfl

theorem BlindWhenSolid.of_cons {p : Parser α} (hnil : stripLeft (p []) = p [])
    (h : ∀ t ts, t.kind ≠ .whitespace → stripLeft (p (t :: ts)) = p (t :: strip ts)) :
    BlindWhenSolid p := by
  intro ts hsolid
  cases ts with
  | nil => exact hnil
  | cons t ts =>
    have ht := solid_cons.mp hsolid
    rw [strip_cons_of_ne ht]
    exact h t ts ht

theorem blind_next : BlindWhenSolid next := .of_cons rfl fun _ _ _ => rfl

theorem blind_expectOperator (op : Operator) : BlindWhenSolid (expectOperator op) := by
  refine blind_next.bind fun t => ?_
  split
  · exact blind_pure _
  · exact blind_throw _

theorem blind_identifier : BlindWhenSolid identifier := by
  refine blind_next.bind fun t => ?_
  split
  · exact blind_pure _
  · exact blind_throw _

theorem spanSigns_strip (negative : Bool) (ts : List Token) :
    spanSigns negative (strip ts) =
      ((spanSigns negative ts).1, strip (spanSigns negative ts).2) ∧
    Solid (spanSigns negative ts).2 := by
  fun_induction spanSigns negative ts with
  | case1 => exact ⟨rfl, solid_nil⟩
  | case2 negative t ts hspace ih =>
    rwa [strip_cons_of_eq hspace]
  | case3 negative t ts hspace hsign ih =>
    rw [strip_cons_of_ne hspace, spanSigns, if_neg hspace, if_pos hsign]
    exact ih
  | case4 negative t ts hspace hsign =>
    rw [strip_cons_of_ne hspace, spanSigns, if_neg hspace, if_neg hsign]
    exact ⟨rfl, solid_cons.mpr hspace⟩

theorem blind_number (literal : String) : Blind (number literal) := by
  unfold number
  split
  · exact blind_pure _
  · exact blind_throw _

theorem blind_signedNumber : Blind signedNumber := by
  intro ts
  obtain ⟨hspan, hsolid⟩ := spanSigns_strip false ts
  refine bind_strip ?_ fun negative rest hsigns => ?_
  · rw [signs_apply, signs_apply, hspan]
    rfl
  · obtain ⟨rfl, rfl⟩ : (spanSigns false ts).1 = negative ∧ (spanSigns false ts).2 = rest := by
      simpa [signs_apply] using hsigns
    refine (blind_next.bind fun t => ?_) _ hsolid
    split
    · exact (blind_number _).bind fun _ => blind_pure _
    · exact blind_throw _

theorem blind_group {inner : Parser Expr} (h : BlindWhenSolid inner) : Blind (group inner) :=
  blind_space_bind (h.bind fun e =>
    blind_space_bind ((blind_expectOperator _).bind fun _ => blind_pure e))

theorem blind_primary {inner : Parser Expr} (h : BlindWhenSolid inner) :
    BlindWhenSolid (primary inner) := by
  refine .of_cons rfl fun t ts ht => ?_
  have hleft : ∀ e : ParseError, stripLeft (.error e (t :: ts) : EStateM.Result _ _ Expr) =
      .error e (t :: strip ts) := by
    intro e
    rw [stripLeft, strip_cons_of_ne ht]
  cases primaryStart inner t with
  | atom e _ heq => rw [heq, heq]; rfl
  | invalidNumber _ _ heq => rw [heq, heq, hleft]
  | unexpected heq => rw [heq, heq, hleft]
  | group _ heq => rw [heq, heq]; exact blind_group h ts
  | sign heq => rw [heq, heq, blind_signedNumber (t :: ts), strip_cons_of_ne ht]

/-! ### Chains and assignments -/

theorem blind_chainTail {level : Level} {operand : Parser Expr} (h : BlindWhenSolid operand)
    (rounds : Nat) (e : Expr) : BlindWhenSolid (chainTail level operand rounds e) := by
  induction rounds generalizing e with
  | zero => exact (blind_pure e).whenSolid
  | succ rounds ih =>
    refine .of_cons rfl fun t ts ht => ?_
    simp only [chainTail]
    split
    · simp [stripLeft, strip_cons_of_ne ht]
    · exact blind_space_bind (h.bind fun right => blind_space_bind (ih _)) ts

theorem length_strip_le (ts : List Token) : (strip ts).length ≤ ts.length :=
  List.length_filter_le ..

theorem blind_chainRest {level : Level} {operand : Parser Expr} (ht : Takes operand)
    (h : BlindWhenSolid operand) (e : Expr) : BlindWhenSolid (chainRest level operand e) := by
  intro ts hsolid
  have hrounds : chainRest level operand e (strip ts) =
      chainTail level operand ts.length e (strip ts) :=
    chainTail_eq_of_le ht (Nat.le_refl _) (length_strip_le ts) e
  rw [hrounds]
  exact blind_chainTail h _ e ts hsolid

theorem blind_chain {level : Level} {operand : Parser Expr} (ht : Takes operand)
    (h : BlindWhenSolid operand) : BlindWhenSolid (chain level operand) := by
  rw [chain_eq]
  exact h.bind fun e => blind_space_bind (blind_chainRest ht h e)

theorem blind_comparisonWith {inner : Parser Expr} (ht : Takes inner) (h : BlindWhenSolid inner) :
    BlindWhenSolid (comparisonWith inner) := by
  have hp := takes_primary ht
  exact blind_chain (takes_chain (takes_chain hp)) (blind_chain (takes_chain hp)
    (blind_chain hp (blind_primary h)))

theorem blind_assignTo {inner : Parser Expr} (h : BlindWhenSolid inner) (target : Expr) :
    Blind (assignTo inner target) := by
  refine blind_space_bind ?_
  split
  · exact h.bind fun _ => blind_space_bind (blind_pure _).whenSolid
  · exact (blind_throw _).whenSolid

theorem blind_assignmentRest {inner : Parser Expr} (h : BlindWhenSolid inner) (left : Expr) :
    BlindWhenSolid (assignmentRest inner left) := by
  refine .of_cons rfl fun t ts ht => ?_
  simp only [assignmentRest]
  split
  · exact blind_assignTo h left ts
  · simp [stripLeft, strip_cons_of_ne ht]

theorem blind_assignmentWith {inner : Parser Expr} (ht : Takes inner) (h : BlindWhenSolid inner) :
    BlindWhenSolid (assignmentWith inner) := by
  rw [assignmentWith_eq]
  exact (blind_comparisonWith ht h).bind fun left => blind_space_bind (blind_assignmentRest h left)

theorem blind_nested (depth : Nat) : BlindWhenSolid (nested depth) := by
  induction depth with
  | zero => exact (blind_throw _).whenSolid
  | succ depth ih => exact blind_assignmentWith (takes_nested depth) ih

theorem blind_expression : BlindWhenSolid expression := by
  intro ts hsolid
  rw [expression_eq_nested (Nat.le_refl _), expression_eq_nested (length_strip_le ts)]
  exact blind_nested _ ts hsolid

/-! ### Statements and programs -/

theorem blind_initializer (name : String) : BlindWhenSolid (initializer name) :=
  (blind_expectOperator _).bind fun _ => blind_space_bind (blind_expression.bind fun _ =>
    blind_space_bind (blind_pure _).whenSolid)

theorem blind_declaration : Blind declaration := by
  rw [declaration_eq]
  refine blind_space_bind (blind_identifier.bind fun name => blind_space_bind ?_)
  refine .of_cons rfl fun t ts ht => ?_
  rw [bind_of_ok (peek_cons t ts), bind_of_ok (peek_cons t (strip ts)), ← strip_cons_of_ne ht]
  split
  · exact blind_pure _ _
  · exact blind_initializer name _ (solid_cons.mpr ht)

theorem blind_statement : BlindWhenSolid statement := by
  refine .of_cons rfl fun t ts ht => ?_
  simp only [statement]
  split
  · exact blind_declaration ts
  · rw [← strip_cons_of_ne ht]
    exact (blind_expression.bind fun e => blind_pure (Statement.expr e)) _ (solid_cons.mpr ht)

theorem blind_statements (rounds : Nat) : Blind (statements rounds) := by
  induction rounds with
  | zero => exact blind_throw _
  | succ rounds ih =>
    rw [statements]
    refine blind_space_bind (.of_cons rfl fun t ts ht => ?_)
    rw [bind_of_ok (peek_cons t ts), bind_of_ok (peek_cons t (strip ts)), ← strip_cons_of_ne ht]
    split
    · exact (blind_next.bind fun _ => blind_pure _) _ (solid_cons.mpr ht)
    · exact (blind_statement.bind fun _ => ih.bind fun _ => blind_pure _) _ (solid_cons.mpr ht)

/-- **White space means nothing** to the outcome of a program. -/
theorem blind_program : Blind program := by
  intro ts
  have hrounds : program (strip ts) = statements ts.length (strip ts) :=
    statements_eq_of_le (Nat.le_refl _) (length_strip_le ts)
  rw [hrounds]
  exact blind_statements _ ts

end LineCalc.Parser

namespace LineCalc.Program

open LineCalc.Parser

/-- What a program is read as does not depend on the white space left behind it. -/
theorem ofTokens_of_stripLeft {ts us : List Token} (h : stripLeft (program ts) = program us) :
    ofTokens ts = ofTokens us := by
  unfold ofTokens
  rw [← h]
  cases program ts <;> rfl

/-- **White space is invisible.**  Any tokens, malformed ones and lists without an end of
    line among them, are read as the tokens that are left without those of the kind white
    space: as the same program, or with the same error. -/
theorem ofTokens_without_whitespace (ts : List Token) :
    ofTokens ts = ofTokens (ts.filter (·.kind ≠ .whitespace)) :=
  ofTokens_of_stripLeft (blind_program ts)

-- white space is told by its kind: here it carries a `+`, and the tokens run out
example :
    ofTokens [⟨.identifier, "x", none⟩, ⟨.whitespace, " ", some .plus⟩, .ofOperator .minus] =
      .error .unexpectedEnd := by
  rfl

end LineCalc.Program
