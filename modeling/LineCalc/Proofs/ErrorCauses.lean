/-
  LineCalc/Proofs/ErrorCauses.lean
  ================================
  **Parse errors have their cause in the tokens.**  The token that an error shows is
  one of those read, a literal reported as no number is the text of a number token,
  and the tokens only run out when no end of line is among them.

  The last holds because no parser of an expression or a statement takes the end of
  a line and succeeds: `Keeps` is what each of them leaves, and `Accounts` adds the
  cause of each of its errors.  Nested expressions are accounted for as long as the
  tokens do not outnumber the depth, so that running out of depth is no cause.
-/
import LineCalc.Proofs.Recursion

namespace LineCalc.Parser

variable {α β : Type}

/-! ### Causes -/

/-- What an error says of the tokens is so. -/
def Caused (ts : List Token) : ParseError → Prop
  | .unexpectedToken _ found => found ∈ ts
  | .invalidTarget _ => True
  | .invalidNumber literal =>
    ∃ t ∈ ts, t.kind = .number ∧ t.text = literal ∧ Binary64.ofText? literal = none
  | .unexpectedEnd => .endOfLine ∉ ts

/-- The tokens are a rest of others, with the end of line that was among them. -/
def Keeps (ts rest : List Token) : Prop :=
  rest <:+ ts ∧ (.endOfLine ∈ ts → .endOfLine ∈ rest)

theorem Keeps.refl (ts : List Token) : Keeps ts ts := ⟨List.suffix_refl ts, id⟩

theorem Keeps.trans {ts mid rest : List Token} (h : Keeps ts mid) (h' : Keeps mid rest) :
    Keeps ts rest := ⟨h'.1.trans h.1, fun hend => h'.2 (h.2 hend)⟩

theorem keeps_tail {t : Token} (ts : List Token) (ht : t ≠ .endOfLine) : Keeps (t :: ts) ts :=
  ⟨List.suffix_cons t ts, fun hend => (List.mem_cons.mp hend).resolve_left ht.symm⟩

theorem ne_endOfLine_of_kind {t : Token} (h : t.kind ≠ .endOfLine) : t ≠ .endOfLine := by
  rintro rfl
  exact h rfl

theorem ne_endOfLine_of_isOperator {t : Token} {op : Operator} (h : t.isOperator op) :
    t ≠ .endOfLine := by
  rintro rfl
  cases h

theorem keeps_skipSpace (ts : List Token) : Keeps ts (skipSpace ts) := by
  unfold skipSpace
  induction ts with
  | nil => exact .refl _
  | cons t ts ih =>
    rw [List.dropWhile_cons]
    split
    · next hspace =>
      have hkind : t.kind ≠ .endOfLine := by rw [of_decide_eq_true hspace]; decide
      exact (keeps_tail ts (ne_endOfLine_of_kind hkind)).trans ih
    · exact .refl _

/-- A cause in a rest of the tokens is one in the tokens. -/
theorem Caused.of_keeps {ts rest : List Token} {e : ParseError} (hkeeps : Keeps ts rest)
    (h : Caused rest e) : Caused ts e := by
  cases e with
  | unexpectedToken expected found => exact hkeeps.1.subset h
  | invalidTarget target => trivial
  | invalidNumber literal =>
    obtain ⟨t, ht, hnumber⟩ := h
    exact ⟨t, hkeeps.1.subset ht, hnumber⟩
  | unexpectedEnd => exact fun hend => h (hkeeps.2 hend)

/-! ### Parsers that account for their outcome -/

/-- A success leaves the end of the line, an error has its cause. -/
def Accounted (ts : List Token) : EStateM.Result ParseError (List Token) α → Prop
  | .ok _ rest => Keeps ts rest
  | .error e _ => Caused ts e

theorem Accounted.of_keeps {ts rest : List Token} {r : EStateM.Result ParseError (List Token) α}
    (hkeeps : Keeps ts rest) (h : Accounted rest r) : Accounted ts r := by
  cases r with
  | ok a left => exact hkeeps.trans h
  | error e left => exact Caused.of_keeps hkeeps h

/-- The outcome on lists of at most `n` tokens is accounted for. -/
def Accounts (n : Nat) (p : Parser α) : Prop := ∀ ts, ts.length ≤ n → Accounted ts (p ts)

theorem Accounts.bind {n : Nat} {p : Parser α} {f : α → Parser β} (hp : Accounts n p)
    (hf : ∀ a, Accounts n (f a)) : Accounts n (p >>= f) := by
  intro ts hlen
  have haccount := hp ts hlen
  cases h : p ts with
  | ok a rest =>
    rw [h] at haccount
    rw [bind_of_ok h]
    exact (hf a rest (Nat.le_trans haccount.1.length_le hlen)).of_keeps haccount
  | error e rest =>
    rw [h] at haccount
    rw [bind_of_error h]
    exact haccount

theorem accounts_pure (n : Nat) (a : α) : Accounts n (pure a : Parser α) := fun ts _ => .refl ts

theorem accounts_space (n : Nat) : Accounts n space := fun ts _ => keeps_skipSpace ts

theorem accounts_get (n : Nat) : Accounts n (get : Parser (List Token)) := fun ts _ => .refl ts

theorem accounts_peek (n : Nat) : Accounts n peek := by
  intro ts _
  cases ts with
  | nil => exact List.not_mem_nil
  | cons t ts => exact .refl _

/-! ### Each parser accounts for its outcome -/

theorem accounts_expectOperator (n : Nat) (op : Operator) : Accounts n (expectOperator op) := by
  intro ts _
  cases ts with
  | nil => exact List.not_mem_nil
  | cons t ts =>
    rw [expectOperator, bind_of_ok (show next (t :: ts) = .ok t ts from rfl)]
    split
    · next hop => exact keeps_tail ts (ne_endOfLine_of_isOperator hop)
    · exact List.mem_cons_self

theorem accounts_identifier (n : Nat) : Accounts n identifier := by
  intro ts _
  cases ts with
  | nil => exact List.not_mem_nil
  | cons t ts =>
    rw [identifier, bind_of_ok (show next (t :: ts) = .ok t ts from rfl)]
    split
    · next hkind => exact keeps_tail ts (ne_endOfLine_of_kind (by simp [hkind]))
    · exact List.mem_cons_self

theorem keeps_spanSigns (negative : Bool) (ts : List Token) :
    Keeps ts (spanSigns negative ts).2 := by
  fun_induction spanSigns negative ts with
  | case1 => exact .refl _
  | case2 negative t ts hspace ih =>
    exact (keeps_tail ts (ne_endOfLine_of_kind (by simp [hspace]))).trans ih
  | case3 negative t ts _ hsign ih =>
    have ht : t ≠ .endOfLine := by
      rintro rfl
      cases hsign
    exact (keeps_tail ts ht).trans ih
  | case4 => exact .refl _

theorem accounts_signedNumber (n : Nat) : Accounts n signedNumber := by
  refine Accounts.bind (p := signs) (fun ts _ => keeps_spanSigns false ts) fun negative ts _ => ?_
  cases ts with
  | nil => exact List.not_mem_nil
  | cons t ts =>
    rw [bind_of_ok (show next (t :: ts) = .ok t ts from rfl)]
    split
    · next hkind =>
      cases hvalue : Binary64.ofText? t.text with
      | none =>
        have hnumber : number t.text ts = .error (.invalidNumber t.text) ts := by
          simp [number, hvalue]
        rw [bind_of_error hnumber]
        exact ⟨t, List.mem_cons_self, hkind, rfl, hvalue⟩
      | some value =>
        have hnumber : number t.text ts = .ok value ts := by simp [number, hvalue]
        rw [bind_of_ok hnumber]
        exact keeps_tail ts (ne_endOfLine_of_kind (by simp [hkind]))
    · exact List.mem_cons_self

theorem accounts_group {n : Nat} {inner : Parser Expr} (h : Accounts n inner) :
    Accounts n (group inner) :=
  (accounts_space n).bind fun _ => h.bind fun e => (accounts_space n).bind fun _ =>
    (accounts_expectOperator n _).bind fun _ => accounts_pure n e

/-- A nested expression stands behind a parenthesis. -/
theorem accounts_primary {n : Nat} {inner : Parser Expr} (h : Accounts n inner) :
    Accounts (n + 1) (primary inner) := by
  intro ts hlen
  cases ts with
  | nil => exact List.not_mem_nil
  | cons t ts =>
    have htail : t.kind ≠ .endOfLine → Keeps (t :: ts) ts := fun hkind =>
      keeps_tail ts (ne_endOfLine_of_kind hkind)
    cases primaryStart inner t with
    | atom e hend heq => rw [heq]; exact htail hend
    | invalidNumber hkind hvalue heq =>
      rw [heq]
      exact ⟨t, List.mem_cons_self, hkind, rfl, hvalue⟩
    | unexpected heq => rw [heq]; exact List.mem_cons_self
    | group hend heq =>
      rw [heq]
      exact (accounts_group h ts (Nat.le_of_succ_le_succ hlen)).of_keeps (htail hend)
    | sign heq => rw [heq]; exact accounts_signedNumber _ _ hlen

theorem accounts_chainTail {n : Nat} {level : Level} {operand : Parser Expr}
    (h : Accounts n operand) (rounds : Nat) (e : Expr) :
    Accounts n (chainTail level operand rounds e) := by
  induction rounds generalizing e with
  | zero => exact accounts_pure n e
  | succ rounds ih =>
    intro ts hlen
    cases ts with
    | nil => exact .refl _
    | cons t ts =>
      simp only [chainTail]
      split
      · exact .refl _
      · next join hjoin =>
        have ht : t ≠ .endOfLine := by
          rintro rfl
          cases hjoin
        have hrest := (accounts_space n).bind fun _ => h.bind fun right =>
          (accounts_space n).bind fun _ => ih (join e right)
        exact (hrest ts (Nat.le_of_succ_le hlen)).of_keeps (keeps_tail ts ht)

theorem accounts_chain {n : Nat} {level : Level} {operand : Parser Expr}
    (h : Accounts n operand) : Accounts n (chain level operand) :=
  h.bind fun e => (accounts_space n).bind fun _ => (accounts_get n).bind fun ts =>
    accounts_chainTail h ts.length e

theorem accounts_comparisonWith {n : Nat} {inner : Parser Expr} (h : Accounts n inner) :
    Accounts (n + 1) (comparisonWith inner) :=
  accounts_chain (accounts_chain (accounts_chain (accounts_primary h)))

theorem accounts_assignTo {n : Nat} {inner : Parser Expr} (h : Accounts n inner) (target : Expr) :
    Accounts n (assignTo inner target) := by
  refine (accounts_space n).bind fun _ => ?_
  split
  · exact h.bind fun value => (accounts_space n).bind fun _ => accounts_pure n _
  · exact fun ts _ => trivial

/-- The value of an assignment stands behind its `=`. -/
theorem accounts_assignmentRest {n : Nat} {inner : Parser Expr} (h : Accounts n inner)
    (target : Expr) : Accounts (n + 1) (assignmentRest inner target) := by
  intro ts hlen
  cases ts with
  | nil => exact .refl _
  | cons t ts =>
    simp only [assignmentRest]
    split
    · next hop =>
      exact (accounts_assignTo h target ts (Nat.le_of_succ_le_succ hlen)).of_keeps
        (keeps_tail ts (ne_endOfLine_of_isOperator hop))
    · exact .refl _

theorem accounts_nested (depth : Nat) : Accounts depth (nested depth) := by
  induction depth with
  | zero =>
    -- no depth is left only where no token is
    intro ts hlen
    obtain rfl := List.eq_nil_of_length_eq_zero (Nat.le_zero.mp hlen)
    exact List.not_mem_nil
  | succ depth ih =>
    rw [nested, assignmentWith_eq]
    exact (accounts_comparisonWith ih).bind fun target => (accounts_space _).bind fun _ =>
      accounts_assignmentRest ih target

theorem accounts_expression (n : Nat) : Accounts n expression := by
  intro ts hlen
  rw [expression_eq_nested hlen]
  exact accounts_nested n ts hlen

theorem accounts_declaration (n : Nat) : Accounts n declaration := by
  rw [declaration_eq]
  refine (accounts_space n).bind fun _ => (accounts_identifier n).bind fun name =>
    (accounts_space n).bind fun _ => (accounts_peek n).bind fun t => ?_
  split
  · exact accounts_pure n _
  · exact (accounts_expectOperator n _).bind fun _ => (accounts_space n).bind fun _ =>
      (accounts_expression n).bind fun value => (accounts_space n).bind fun _ => accounts_pure n _

theorem accounts_statement (n : Nat) : Accounts n statement := by
  intro ts hlen
  cases ts with
  | nil => exact List.not_mem_nil
  | cons t ts =>
    simp only [statement]
    split
    · next hkind =>
      exact (accounts_declaration n ts (Nat.le_of_succ_le hlen)).of_keeps
        (keeps_tail ts (ne_endOfLine_of_kind (by simp [hkind])))
    · exact (accounts_expression n).bind (fun e => accounts_pure n (Statement.expr e)) _ hlen

/-! ### Programs -/

theorem statementThen_eq_error {others : Parser Program} {ts left : List Token} {e : ParseError}
    (h : statementThen others ts = .error e left) :
    statement ts = .error e left ∨
      ∃ first rest, statement ts = .ok first rest ∧ others rest = .error e left := by
  cases hfirst : statement ts with
  | error e' rest =>
    rw [statementThen, bind_of_error hfirst] at h
    cases h
    exact .inl rfl
  | ok first rest =>
    rw [statementThen, bind_of_ok hfirst] at h
    cases hothers : others rest with
    | error e' rest' =>
      rw [bind_of_error hothers] at h
      cases h
      exact .inr ⟨first, rest, rfl, hothers⟩
    | ok p rest' =>
      rw [bind_of_ok hothers] at h
      cases h

/-- **Every parse error has its cause in the tokens.** -/
theorem caused_of_program {ts left : List Token} {e : ParseError}
    (h : program ts = .error e left) : Caused ts e := by
  -- by the number of tokens: every statement takes one
  induction hn : ts.length using Nat.strongRecOn generalizing ts with
  | ind n ih =>
    have hkeeps := keeps_skipSpace ts
    rw [program_eq] at h
    cases hskip : skipSpace ts with
    | nil =>
      rw [hskip] at h hkeeps
      cases h
      exact Caused.of_keeps hkeeps List.not_mem_nil
    | cons t tail =>
      rw [hskip] at h hkeeps
      simp only at h
      split at h
      · cases h
      · have haccount := accounts_statement _ (t :: tail) (Nat.le_refl _)
        rcases statementThen_eq_error h with hfirst | ⟨first, rest, hfirst, hothers⟩
        · rw [hfirst] at haccount
          exact Caused.of_keeps hkeeps haccount
        · rw [hfirst] at haccount
          have hlen : rest.length < n :=
            hn ▸ Nat.lt_of_lt_of_le (advances_statement _ _ _ hfirst) hkeeps.1.length_le
          exact (ih _ hlen hothers rfl).of_keeps (hkeeps.trans haccount)

end LineCalc.Parser
