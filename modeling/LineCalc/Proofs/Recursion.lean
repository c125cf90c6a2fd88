/-
  LineCalc/Proofs/Recursion.lean
  ==============================
  **The parsers as their rules read.**  A parser is run with a depth for nested
  expressions and a number of rounds for chains and statements, both taken from
  the number of tokens.  Neither ever runs out: the parsers here are shown to be
  solutions of their own rules,

    * `expression_eq`: an expression is an assignment over expressions;
    * `chainRest_of_some`: a chain goes on with an operand and the rest of it;
    * `program_eq`: a program is the end of the line, or a statement and a program.

  Three properties carry the proofs.  A parser `Takes` tokens from the front and
  leaves a suffix; it `Advances` when a success has taken a token; and two
  parsers `Agree` up to a length when they do the same on lists that short.  All
  three are closed under sequencing, so that each rule costs one line.
-/
import LineCalc.Program.Parser
import Mathlib.Data.List.Infix

namespace LineCalc.Parser

variable {α β : Type}

/-! ### What a parser leaves -/

/-- The tokens left after a parser has run, whether it fails or not. -/
def left : EStateM.Result ParseError (List Token) α → List Token
  | .ok _ rest => rest
  | .error _ rest => rest

theorem bind_of_ok {p : Parser α} {f : α → Parser β} {ts rest : List Token} {a : α}
    (h : p ts = .ok a rest) : (p >>= f) ts = f a rest := by
  simp only [bind, EStateM.bind, h]

theorem bind_of_error {p : Parser α} {f : α → Parser β} {ts rest : List Token} {e : ParseError}
    (h : p ts = .error e rest) : (p >>= f) ts = .error e rest := by
  simp only [bind, EStateM.bind, h]

@[simp] theorem pure_apply (a : α) (ts : List Token) : (pure a : Parser α) ts = .ok a ts := rfl

@[simp] theorem throw_apply (e : ParseError) (ts : List Token) :
    (throw e : Parser α) ts = .error e ts := rfl

@[simp] theorem space_apply (ts : List Token) : space ts = .ok () (skipSpace ts) := rfl

@[simp] theorem space_bind (f : Unit → Parser α) (ts : List Token) :
    (space >>= f) ts = f () (skipSpace ts) := rfl

theorem bind_eq_ok_iff {p : Parser α} {f : α → Parser β} {ts rest : List Token} {b : β} :
    (p >>= f) ts = .ok b rest ↔ ∃ a mid, p ts = .ok a mid ∧ f a mid = .ok b rest := by
  cases h : p ts with
  | ok a mid => simp [bind_of_ok h]
  | error e mid => simp [bind_of_error h]

/-- The parser takes tokens from the front of the list and nowhere else. -/
def Takes (p : Parser α) : Prop := ∀ ts, left (p ts) <:+ ts

theorem Takes.of_ok {p : Parser α} (hp : Takes p) {ts rest : List Token} {a : α}
    (h : p ts = .ok a rest) : rest <:+ ts := by
  have := hp ts
  rwa [h] at this

theorem Takes.bind {p : Parser α} {f : α → Parser β} (hp : Takes p) (hf : ∀ a, Takes (f a)) :
    Takes (p >>= f) := by
  intro ts
  have hleft := hp ts
  cases h : p ts with
  | ok a rest =>
    rw [h] at hleft
    rw [bind_of_ok h]
    exact (hf a rest).trans hleft
  | error e rest =>
    rw [h] at hleft
    rw [bind_of_error h]
    exact hleft

theorem takes_pure (a : α) : Takes (pure a : Parser α) := fun ts => List.suffix_refl ts

theorem takes_throw (e : ParseError) : Takes (throw e : Parser α) := fun ts => List.suffix_refl ts

theorem takes_space : Takes space := fun _ => List.dropWhile_suffix _

theorem takes_next : Takes next := by
  intro ts
  cases ts with
  | nil => exact List.suffix_refl _
  | cons t ts => exact List.suffix_cons t ts

theorem takes_expectOperator (op : Operator) : Takes (expectOperator op) := by
  refine takes_next.bind fun t => ?_
  split
  · exact takes_pure _
  · exact takes_throw _

theorem takes_number (literal : String) : Takes (number literal) := by
  unfold number
  split
  · exact takes_pure _
  · exact takes_throw _

theorem spanSigns_suffix (negative : Bool) (ts : List Token) :
    (spanSigns negative ts).2 <:+ ts := by
  fun_induction spanSigns negative ts with
  | case1 => exact List.suffix_refl _
  | case2 _ _ _ _ ih => exact ih.trans (List.suffix_cons ..)
  | case3 _ _ _ _ _ ih => exact ih.trans (List.suffix_cons ..)
  | case4 => exact List.suffix_refl _

theorem takes_signedNumber : Takes signedNumber := by
  refine Takes.bind (fun ts => spanSigns_suffix false ts) fun negative =>
    takes_next.bind fun t => ?_
  split
  · exact (takes_number _).bind fun value => takes_pure _
  · exact takes_throw _

theorem takes_group {inner : Parser Expr} (h : Takes inner) : Takes (group inner) :=
  takes_space.bind fun _ => h.bind fun e => takes_space.bind fun _ =>
    (takes_expectOperator _).bind fun _ => takes_pure e

/-- What a primary expression does, by its first token: the token is the expression, or it
    cannot start one and stays in place, or it opens a group, or it is a sign. -/
inductive PrimaryStart (inner : Parser Expr) (t : Token) : Prop where
  | atom (e : Expr) (hend : t.kind ≠ .endOfLine)
      (h : ∀ ts, primary inner (t :: ts) = .ok e ts)
  | invalidNumber (hkind : t.kind = .number) (hvalue : Binary64.ofText? t.text = none)
      (h : ∀ ts, primary inner (t :: ts) = .error (.invalidNumber t.text) (t :: ts))
  | unexpected
      (h : ∀ ts, primary inner (t :: ts) = .error (.unexpectedToken .expression t) (t :: ts))
  | group (hend : t.kind ≠ .endOfLine)
      (h : ∀ ts, primary inner (t :: ts) = Parser.group inner ts)
  | sign (h : ∀ ts, primary inner (t :: ts) = signedNumber (t :: ts))

theorem primaryStart (inner : Parser Expr) (t : Token) : PrimaryStart inner t := by
  cases hkind : t.kind with
  | identifier =>
    exact .atom (.variable t.text) (by simp [hkind]) fun ts => by simp only [primary, hkind]
  | string =>
    exact .atom (.string t.text) (by simp [hkind]) fun ts => by simp only [primary, hkind]
  | whitespace =>
    exact .atom (.whitespace t.text) (by simp [hkind]) fun ts => by simp only [primary, hkind]
  | endOfLine | invalid => exact .unexpected fun ts => by simp only [primary, hkind]
  | keyword word =>
    cases word with
    | null => exact .atom .null (by simp [hkind]) fun ts => by simp only [primary, hkind]
    | trueLiteral =>
      exact .atom (.boolean true) (by simp [hkind]) fun ts => by simp only [primary, hkind]
    | falseLiteral =>
      exact .atom (.boolean false) (by simp [hkind]) fun ts => by simp only [primary, hkind]
    | _ => exact .unexpected fun ts => by simp only [primary, hkind]
  | number =>
    cases hvalue : Binary64.ofText? t.text with
    | none => exact .invalidNumber hkind hvalue fun ts => by simp only [primary, hkind, hvalue]
    | some value =>
      exact .atom (.number value) (by simp [hkind]) fun ts => by
        simp only [primary, hkind, hvalue]
  | operator =>
    match hop : t.operator with
    | some .leftParen =>
      exact .group (by simp [hkind]) fun ts => by simp only [primary, hkind, hop]
    | some .plus | some .minus => exact .sign fun ts => by simp only [primary, hkind, hop]
    | none | some .star | some .slash | some .assign | some .equal | some .notEqual | some .not
    | some .rightParen | some .leftBrace | some .rightBrace | some .invalid =>
      exact .unexpected fun ts => by simp only [primary, hkind, hop]

theorem takes_primary {inner : Parser Expr} (h : Takes inner) : Takes (primary inner) := by
  intro ts
  cases ts with
  | nil => exact List.suffix_refl _
  | cons t ts =>
    cases primaryStart inner t with
    | atom e _ heq => rw [heq]; exact List.suffix_cons t ts
    | invalidNumber _ _ heq => rw [heq]; exact List.suffix_refl _
    | unexpected heq => rw [heq]; exact List.suffix_refl _
    | group _ heq => rw [heq]; exact (takes_group h ts).trans (List.suffix_cons t ts)
    | sign heq => rw [heq]; exact takes_signedNumber _

theorem takes_chainTail {level : Level} {operand : Parser Expr} (h : Takes operand) (rounds : Nat)
    (e : Expr) : Takes (chainTail level operand rounds e) := by
  induction rounds generalizing e with
  | zero => exact takes_pure e
  | succ rounds ih =>
    intro ts
    unfold chainTail
    split
    · exact List.suffix_refl _
    · split
      · exact List.suffix_refl _
      · next join _ =>
        have hround := takes_space.bind fun _ => h.bind fun right =>
          takes_space.bind fun _ => ih (join e right)
        exact (hround _).trans (List.suffix_cons ..)

theorem takes_get : Takes (get : Parser (List Token)) := fun ts => List.suffix_refl ts

theorem takes_chain {level : Level} {operand : Parser Expr} (h : Takes operand) :
    Takes (chain level operand) :=
  h.bind fun e => takes_space.bind fun _ => takes_get.bind fun _ => takes_chainTail h _ e

theorem takes_comparisonWith {inner : Parser Expr} (h : Takes inner) :
    Takes (comparisonWith inner) :=
  takes_chain (takes_chain (takes_chain (takes_primary h)))

theorem takes_assignTo {inner : Parser Expr} (h : Takes inner) (target : Expr) :
    Takes (assignTo inner target) := by
  refine takes_space.bind fun _ => ?_
  split
  · exact h.bind fun value => takes_space.bind fun _ => takes_pure _
  · exact takes_throw _

/-- What may follow the left side of an assignment. -/
def assignmentRest (inner : Parser Expr) (left : Expr) : Parser Expr := fun ts =>
  match ts with
  | [] => .ok left []
  | t :: rest => if t.isOperator .assign then assignTo inner left rest else .ok left (t :: rest)

theorem assignmentWith_eq (inner : Parser Expr) :
    assignmentWith inner = (do
      let left ← comparisonWith inner
      space
      assignmentRest inner left) := rfl

theorem takes_assignmentRest {inner : Parser Expr} (h : Takes inner) (left : Expr) :
    Takes (assignmentRest inner left) := by
  intro ts
  unfold assignmentRest
  split
  · exact List.suffix_refl _
  · split
    · exact (takes_assignTo h left _).trans (List.suffix_cons ..)
    · exact List.suffix_refl _

theorem takes_assignmentWith {inner : Parser Expr} (h : Takes inner) :
    Takes (assignmentWith inner) :=
  (takes_comparisonWith h).bind fun left => takes_space.bind fun _ => takes_assignmentRest h left

theorem takes_nested (depth : Nat) : Takes (nested depth) := by
  induction depth with
  | zero => exact takes_throw _
  | succ depth ih => exact takes_assignmentWith ih

/-! ### Parsers that agree on short lists -/

/-- The two parsers do the same on lists of at most `n` tokens. -/
def Agree (n : Nat) (p q : Parser α) : Prop := ∀ ts, ts.length ≤ n → p ts = q ts

theorem Agree.refl (n : Nat) (p : Parser α) : Agree n p p := fun _ _ => rfl

theorem Agree.bind {n : Nat} {p q : Parser α} {f g : α → Parser β} (hp : Takes p)
    (h : Agree n p q) (hf : ∀ a, Agree n (f a) (g a)) : Agree n (p >>= f) (q >>= g) := by
  intro ts hlen
  cases hres : p ts with
  | ok a rest =>
    have hq : q ts = .ok a rest := by rw [← h ts hlen, hres]
    have hrest : rest.length ≤ ts.length := (hp.of_ok hres).length_le
    rw [bind_of_ok hres, bind_of_ok hq]
    exact hf a rest (Nat.le_trans hrest hlen)
  | error e rest =>
    have hq : q ts = .error e rest := by rw [← h ts hlen, hres]
    rw [bind_of_error hres, bind_of_error hq]

theorem agree_group {n : Nat} {inner inner' : Parser Expr} (hi : Takes inner)
    (h : Agree n inner inner') : Agree n (group inner) (group inner') :=
  (Agree.refl n space).bind takes_space fun _ => h.bind hi fun _ => Agree.refl n _

/-- A nested expression stands behind a parenthesis. -/
theorem agree_primary {n : Nat} {inner inner' : Parser Expr} (hi : Takes inner)
    (h : Agree n inner inner') : Agree (n + 1) (primary inner) (primary inner') := by
  intro ts hlen
  unfold primary
  cases ts with
  | nil => rfl
  | cons t rest =>
    have hgroup : group inner rest = group inner' rest :=
      agree_group hi h rest (Nat.le_of_succ_le_succ hlen)
    simp only [hgroup]

theorem agree_chainTail {n : Nat} {level : Level} {operand operand' : Parser Expr}
    (ho : Takes operand) (h : Agree n operand operand') (rounds : Nat) (e : Expr) :
    Agree n (chainTail level operand rounds e) (chainTail level operand' rounds e) := by
  induction rounds generalizing e with
  | zero => exact Agree.refl n _
  | succ rounds ih =>
    intro ts hlen
    unfold chainTail
    cases ts with
    | nil => rfl
    | cons t rest =>
      simp only
      split
      · rfl
      · next join _ =>
        refine (Agree.refl n space).bind takes_space (fun _ => ?_) rest (Nat.le_of_succ_le hlen)
        exact h.bind ho fun right => (Agree.refl n space).bind takes_space fun _ => ih _

theorem agree_chain {n : Nat} {level : Level} {operand operand' : Parser Expr}
    (ho : Takes operand) (h : Agree n operand operand') :
    Agree n (chain level operand) (chain level operand') :=
  h.bind ho fun e => (Agree.refl n space).bind takes_space fun _ =>
    (Agree.refl n get).bind takes_get fun ts => agree_chainTail ho h ts.length e

theorem agree_comparisonWith {n : Nat} {inner inner' : Parser Expr} (hi : Takes inner)
    (h : Agree n inner inner') : Agree (n + 1) (comparisonWith inner) (comparisonWith inner') := by
  have hp := takes_primary hi
  have hmultiplicative : Agree (n + 1) (multiplicativeWith inner) (multiplicativeWith inner') :=
    agree_chain hp (agree_primary hi h)
  exact agree_chain (takes_chain (takes_chain hp)) (agree_chain (takes_chain hp) hmultiplicative)

theorem agree_assignTo {n : Nat} {inner inner' : Parser Expr} (hi : Takes inner)
    (h : Agree n inner inner') (target : Expr) :
    Agree n (assignTo inner target) (assignTo inner' target) := by
  refine (Agree.refl n space).bind takes_space fun _ => ?_
  split
  · exact h.bind hi fun _ => Agree.refl n _
  · exact Agree.refl n _

/-- The value of an assignment stands behind its `=`. -/
theorem agree_assignmentRest {n : Nat} {inner inner' : Parser Expr} (hi : Takes inner)
    (h : Agree n inner inner') (left : Expr) :
    Agree (n + 1) (assignmentRest inner left) (assignmentRest inner' left) := by
  intro ts hlen
  cases ts with
  | nil => rfl
  | cons t rest =>
    have hassign := agree_assignTo hi h left rest (Nat.le_of_succ_le_succ hlen)
    simp only [assignmentRest, hassign]

theorem agree_assignmentWith {n : Nat} {inner inner' : Parser Expr} (hi : Takes inner)
    (h : Agree n inner inner') : Agree (n + 1) (assignmentWith inner) (assignmentWith inner') :=
  (agree_comparisonWith hi h).bind (takes_comparisonWith hi) fun left =>
    (Agree.refl _ space).bind takes_space fun _ => agree_assignmentRest hi h left

/-- Depth beyond the number of tokens changes nothing. -/
theorem nested_eq_of_le {d d' : Nat} {ts : List Token} (hd : ts.length ≤ d) (hd' : ts.length ≤ d') :
    nested d ts = nested d' ts := by
  have hnil : ∀ depth, nested depth [] = .error .unexpectedEnd [] := by
    intro depth
    cases depth <;> rfl
  induction d generalizing d' ts with
  | zero =>
    obtain rfl := List.eq_nil_of_length_eq_zero (Nat.le_zero.mp hd)
    rw [hnil, hnil]
  | succ d ih =>
    cases d' with
    | zero =>
      obtain rfl := List.eq_nil_of_length_eq_zero (Nat.le_zero.mp hd')
      rw [hnil, hnil]
    | succ d' =>
      have hagree : Agree (min d d') (nested d) (nested d') := fun us hlen =>
        ih (by omega) (by omega)
      exact agree_assignmentWith (takes_nested d) hagree ts (by omega)

theorem expression_eq_nested {d : Nat} {ts : List Token} (h : ts.length ≤ d) :
    expression ts = nested d ts :=
  nested_eq_of_le (Nat.le_succ _) h

theorem takes_expression : Takes expression := fun ts => by
  rw [expression_eq_nested (Nat.le_refl _)]
  exact takes_nested _ ts

/-- **Expressions without depth.**  An expression is an assignment whose nested
    expressions are expressions. -/
theorem expression_eq : expression = assignmentWith expression := by
  funext ts
  have hagree : Agree ts.length (nested ts.length) expression :=
    fun us hlen => (expression_eq_nested hlen).symm
  exact agree_assignmentWith (takes_nested _) hagree ts (Nat.le_succ _)

/-! ### Chains without rounds -/

/-- The rest of a chain after `e`, with as many operands as there are. -/
def chainRest (level : Level) (operand : Parser Expr) (e : Expr) : Parser Expr := fun ts =>
  chainTail level operand ts.length e ts

theorem chainTail_eq_of_le {level : Level} {operand : Parser Expr} (ho : Takes operand)
    {n m : Nat} {ts : List Token} (hn : ts.length ≤ n) (hm : ts.length ≤ m) (e : Expr) :
    chainTail level operand n e ts = chainTail level operand m e ts := by
  induction n generalizing m ts e with
  | zero =>
    obtain rfl := List.eq_nil_of_length_eq_zero (Nat.le_zero.mp hn)
    cases m <;> rfl
  | succ n ih =>
    cases m with
    | zero =>
      obtain rfl := List.eq_nil_of_length_eq_zero (Nat.le_zero.mp hm)
      rfl
    | succ m =>
      cases ts with
      | nil => rfl
      | cons t rest =>
        simp only [chainTail]
        split
        · rfl
        · have hagree : ∀ e, Agree rest.length (chainTail level operand n e)
              (chainTail level operand m e) := fun e us hlen =>
            ih (by simp at hn; omega) (by simp at hm; omega) e
          refine (Agree.refl _ space).bind takes_space (fun _ => ?_) rest (Nat.le_refl _)
          exact (Agree.refl _ operand).bind ho fun right =>
            (Agree.refl _ space).bind takes_space fun _ => hagree _

theorem chain_eq (level : Level) (operand : Parser Expr) :
    chain level operand = (do
      let e ← operand
      space
      chainRest level operand e) := rfl

theorem chainRest_of_none {level : Level} {t : Token} (h : t.operator.bind level.join? = none)
    (operand : Parser Expr) (e : Expr) (rest : List Token) :
    chainRest level operand e (t :: rest) = .ok e (t :: rest) := by
  simp only [chainRest, List.length_cons, chainTail, h]

/-- **Chains without rounds.**  Where an operator of its level stands, a chain goes on
    with one operand and the rest of the chain. -/
theorem chainRest_of_some {level : Level} {operand : Parser Expr} (ho : Takes operand) {t : Token}
    {join : Expr → Expr → Expr} (h : t.operator.bind level.join? = some join) (e : Expr)
    (rest : List Token) :
    chainRest level operand e (t :: rest) =
      (do
        space
        let right ← operand
        space
        chainRest level operand (join e right) : Parser Expr) rest := by
  simp only [chainRest, List.length_cons, chainTail, h]
  have hagree (e : Expr) :
      Agree rest.length (chainTail level operand rest.length e) (chainRest level operand e) :=
    fun _ hlen => chainTail_eq_of_le ho hlen (Nat.le_refl _) e
  exact (Agree.refl _ space).bind takes_space (fun _ => (Agree.refl _ operand).bind ho fun _ =>
    (Agree.refl _ space).bind takes_space fun _ => hagree _) rest (Nat.le_refl _)

/-! ### Progress -/

/-- The parser takes a token whenever it succeeds. -/
def Advances (p : Parser α) : Prop := ∀ ts a rest, p ts = .ok a rest → rest.length < ts.length

theorem Advances.bind {p : Parser α} {f : α → Parser β} (hp : Advances p) (hf : ∀ a, Takes (f a)) :
    Advances (p >>= f) := by
  intro ts b rest h
  obtain ⟨a, mid, hmid, hrest⟩ := bind_eq_ok_iff.mp h
  exact Nat.lt_of_le_of_lt ((hf a).of_ok hrest).length_le (hp ts a mid hmid)

theorem Takes.bind_advances {p : Parser α} {f : α → Parser β} (hp : Takes p)
    (hf : ∀ a, Advances (f a)) : Advances (p >>= f) := by
  intro ts b rest h
  obtain ⟨a, mid, hmid, hrest⟩ := bind_eq_ok_iff.mp h
  exact Nat.lt_of_lt_of_le (hf a mid b rest hrest) (hp.of_ok hmid).length_le

theorem advances_next : Advances next := by
  intro ts t rest h
  cases ts with
  | nil => cases h
  | cons t' ts =>
    cases h
    exact Nat.lt_succ_self _

theorem advances_signedNumber : Advances signedNumber := by
  refine Takes.bind_advances (fun ts => spanSigns_suffix false ts) fun negative =>
    advances_next.bind fun t => ?_
  split
  · exact (takes_number _).bind fun value => takes_pure _
  · exact takes_throw _

theorem advances_primary {inner : Parser Expr} (hi : Takes inner) : Advances (primary inner) := by
  intro ts e rest h
  cases ts with
  | nil => cases h
  | cons t ts =>
    cases primaryStart inner t with
    | atom e' _ heq =>
      rw [heq] at h
      cases h
      exact Nat.lt_succ_self _
    | invalidNumber _ _ heq => rw [heq] at h; cases h
    | unexpected heq => rw [heq] at h; cases h
    | group _ heq =>
      rw [heq] at h
      exact Nat.lt_succ_of_le ((takes_group hi).of_ok h).length_le
    | sign heq =>
      rw [heq] at h
      exact advances_signedNumber _ _ _ h

theorem advances_chain {level : Level} {operand : Parser Expr} (ho : Takes operand)
    (h : Advances operand) : Advances (chain level operand) :=
  h.bind fun e => takes_space.bind fun _ => takes_get.bind fun _ => takes_chainTail ho _ e

theorem advances_comparisonWith {inner : Parser Expr} (hi : Takes inner) :
    Advances (comparisonWith inner) := by
  have hp := takes_primary hi
  exact advances_chain (takes_chain (takes_chain hp)) (advances_chain (takes_chain hp)
    (advances_chain hp (advances_primary hi)))

theorem advances_assignmentWith {inner : Parser Expr} (hi : Takes inner) :
    Advances (assignmentWith inner) :=
  (advances_comparisonWith hi).bind fun left => takes_space.bind fun _ =>
    takes_assignmentRest hi left

theorem advances_expression : Advances expression := by
  rw [expression_eq]
  exact advances_assignmentWith takes_expression

/-- The value of a declaration, from its `=` on. -/
def initializer (name : String) : Parser Statement := do
  expectOperator .assign
  space
  let value ← expression
  space
  pure (.declare name value)

theorem declaration_eq :
    declaration = (do
      space
      let name ← identifier
      space
      let t ← peek
      if t.kind = .endOfLine then pure (.declare name .null) else initializer name) := rfl

theorem takes_initializer (name : String) : Takes (initializer name) :=
  (takes_expectOperator _).bind fun _ => takes_space.bind fun _ =>
    takes_expression.bind fun _ => takes_space.bind fun _ => takes_pure _

theorem takes_identifier : Takes identifier := by
  refine takes_next.bind fun t => ?_
  split
  · exact takes_pure _
  · exact takes_throw _

theorem takes_peek : Takes peek := by
  intro ts
  cases ts <;> exact List.suffix_refl _

theorem takes_declaration : Takes declaration := by
  rw [declaration_eq]
  refine takes_space.bind fun _ => takes_identifier.bind fun name => takes_space.bind fun _ =>
    takes_peek.bind fun t => ?_
  split
  · exact takes_pure _
  · exact takes_initializer name

theorem advances_statement : Advances statement := by
  intro ts s rest h
  cases ts with
  | nil => cases h
  | cons t ts =>
    simp only [statement] at h
    split at h
    · exact Nat.lt_succ_of_le (takes_declaration.of_ok h).length_le
    · exact advances_expression.bind (fun e => takes_pure (Statement.expr e)) _ _ _ h

/-! ### Programs without rounds -/

/-- A statement and the further ones, read by `others`. -/
def statementThen (others : Parser Program) : Parser Program := do
  let first ← statement
  let rest ← others
  pure (first :: rest)

theorem statementThen_congr {p q : Parser Program} {ts : List Token}
    (h : ∀ first rest, statement ts = .ok first rest → p rest = q rest) :
    statementThen p ts = statementThen q ts := by
  cases hfirst : statement ts with
  | error e rest => rw [statementThen, statementThen, bind_of_error hfirst, bind_of_error hfirst]
  | ok first rest =>
    rw [statementThen, statementThen, bind_of_ok hfirst, bind_of_ok hfirst]
    simp only [bind, EStateM.bind, h first rest hfirst]

theorem statements_nil (rounds : Nat) : statements rounds [] = .error .unexpectedEnd [] := by
  cases rounds <;> rfl

/-- One round, after the white space in front of it. -/
theorem statements_succ (rounds : Nat) (ts : List Token) :
    statements (rounds + 1) ts =
      match skipSpace ts with
      | [] => .error .unexpectedEnd []
      | t :: rest =>
        if t.kind = .endOfLine then .ok [] rest
        else statementThen (statements rounds) (t :: rest) := by
  rw [statements, space_bind]
  cases skipSpace ts with
  | nil => rfl
  | cons t rest =>
    rw [bind_of_ok (show peek (t :: rest) = .ok t (t :: rest) from rfl)]
    by_cases h : t.kind = .endOfLine
    · simp only [h, if_true]
      rfl
    · simp only [h, if_false]
      rfl

/-- Rounds beyond the number of tokens change nothing. -/
theorem statements_eq_of_le {n m : Nat} {ts : List Token} (hn : ts.length ≤ n)
    (hm : ts.length ≤ m) : statements n ts = statements m ts := by
  induction n generalizing m ts with
  | zero =>
    obtain rfl := List.eq_nil_of_length_eq_zero (Nat.le_zero.mp hn)
    rw [statements_nil, statements_nil]
  | succ n ih =>
    cases m with
    | zero =>
      obtain rfl := List.eq_nil_of_length_eq_zero (Nat.le_zero.mp hm)
      rw [statements_nil, statements_nil]
    | succ m =>
      have hlen : (skipSpace ts).length ≤ ts.length := (takes_space ts).length_le
      rw [statements_succ, statements_succ]
      cases hskip : skipSpace ts with
      | nil => rfl
      | cons t rest =>
        rw [hskip] at hlen
        simp only
        split
        · rfl
        · refine statementThen_congr fun first rest hfirst => ?_
          have hrest := advances_statement _ _ _ hfirst
          exact ih (by omega) (by omega)

/-- **Programs without rounds.**  A program is the end of the line, or a statement
    and a program. -/
theorem program_eq (ts : List Token) :
    program ts =
      match skipSpace ts with
      | [] => .error .unexpectedEnd []
      | t :: rest =>
        if t.kind = .endOfLine then .ok [] rest else statementThen program (t :: rest) := by
  have hlen : (skipSpace ts).length ≤ ts.length := (takes_space ts).length_le
  rw [program, statements_eq_of_le (Nat.le_refl _) (Nat.le_succ _), statements_succ]
  cases hskip : skipSpace ts with
  | nil => rfl
  | cons t rest =>
    rw [hskip] at hlen
    simp only
    split
    · rfl
    · refine statementThen_congr fun first rest hfirst => ?_
      have hrest := advances_statement _ _ _ hfirst
      exact statements_eq_of_le (by omega) (Nat.le_refl _)

end LineCalc.Parser

namespace LineCalc.Program

theorem ofTokens_ok_iff {ts : List Token} {p : Program} :
    ofTokens ts = .ok p ↔ ∃ rest, Parser.program ts = .ok p rest := by
  unfold ofTokens
  cases Parser.program ts <;> simp

theorem ofTokens_error_iff {ts : List Token} {e : ParseError} :
    ofTokens ts = .error e ↔ ∃ rest, Parser.program ts = .error e rest := by
  unfold ofTokens
  cases Parser.program ts <;> simp

end LineCalc.Program
