/-
  LineCalc/Proofs/ArithmeticLines.lean
  ====================================
  **Arithmetic written on a line.**  `Arith rank` are the expressions of a rank of
  the grammar that can be written with digits, signs, `+`, `-`, `*` and brackets.
  The ranks are the indices of the type, so that precedence and nesting to the left
  hold by construction, and white space is part of an expression.  Each has its
  text and its exact value, an integer.

  A line with such a text is read as the tree of the same shape.  If the exact
  value of every part is representable, no operation rounds and the line gives the
  exact value (`Arith.evalLine_of_representable`).
-/
import LineCalc.Proofs.LineErrors
import LineCalc.Proofs.NumberText
import LineCalc.Proofs.Variables

namespace LineCalc

open LineCalc.Grammar (Rank operandRank)
open LineCalc.Parser (Level strip)
open Token (Block Joint ofOperator)

/-! ### Arithmetic as it is written -/

/-- White space or nothing. -/
structure Gap where
  chars : List Char
  blank : chars = [] ∨ Token.IsRun Lexeme.isBlankStart Lexeme.isBlankPart chars

/-- Digits; zeros may stand in front. -/
structure Digits where
  chars : List Char
  ne_nil : chars ≠ []
  isDigit : ∀ c ∈ chars, c.isDigit

/-- No white space. -/
def Gap.empty : Gap := ⟨[], Or.inl rfl⟩

def Gap.space : Gap := ⟨[' '], Or.inr (by simp [Token.IsRun, Lexeme.isBlankStart])⟩

def Gap.tab : Gap := ⟨['\t'], Or.inr (by simp [Token.IsRun, Lexeme.isBlankStart])⟩

/-- The digits of a natural number. -/
def Digits.ofNat (n : Nat) : Digits :=
  ⟨Nat.toDigits 10 n, Nat.toDigits_ne_nil,
    fun _ hc => Nat.isDigit_of_mem_toDigits (by decide) (by decide) hc⟩

/-- A sign and the white space behind it. -/
structure Sign where
  negative : Bool
  gap : Gap

/-- The operators of each level. -/
inductive IntOp : Level → Type where
  | mul : IntOp .multiplicative
  | add : IntOp .additive
  | sub : IntOp .additive

/-- Expressions of whole numbers; an operand of a chain binds tighter than the chain. -/
inductive Arith : Rank → Type where
  | literal (signs : List Sign) (digits : Digits) : Arith .primary
  | group (before : Gap) (inner : Arith (.chain .additive)) (after : Gap) : Arith .primary
  | operand {level : Level} (e : Arith (operandRank level)) : Arith (.chain level)
  | join {level : Level} (op : IntOp level) (left : Arith (.chain level)) (before after : Gap)
      (right : Arith (operandRank level)) : Arith (.chain level)

/-- A minus turns a number into its opposite. -/
def Sign.apply (s : Sign) (n : ℤ) : ℤ := if s.negative then -n else n

def Sign.chars (s : Sign) : List Char := (if s.negative then '-' else '+') :: s.gap.chars

namespace IntOp

def apply : {level : Level} → IntOp level → ℤ → ℤ → ℤ
  | _, mul => (· * ·)
  | _, add => (· + ·)
  | _, sub => (· - ·)

def char : {level : Level} → IntOp level → Char
  | _, mul => '*'
  | _, add => '+'
  | _, sub => '-'

end IntOp

namespace Arith

def chars : {rank : Rank} → Arith rank → List Char
  | _, literal signs digits => signs.flatMap Sign.chars ++ digits.chars
  | _, group before inner after => '(' :: (before.chars ++ (inner.chars ++ after.chars ++ [')']))
  | _, operand e => e.chars
  | _, join op left before after right =>
    left.chars ++ before.chars ++ op.char :: (after.chars ++ right.chars)

/-- The exact value. -/
def value : {rank : Rank} → Arith rank → ℤ
  | _, literal signs digits => signs.foldr Sign.apply (Numeral.natOfDigits digits.chars)
  | _, group _ inner _ => inner.value
  | _, operand e => e.value
  | _, join op left _ _ right => op.apply left.value right.value

/-- The exact values of all parts: of each literal, each operation and so the whole. -/
def values : {rank : Rank} → Arith rank → List ℤ
  | _, literal signs digits => [(literal signs digits).value]
  | _, group _ inner _ => inner.values
  | _, operand e => e.values
  | _, join op left _ _ right => op.apply left.value right.value :: (left.values ++ right.values)

end Arith

/-! ### Tokens and trees -/

def Gap.tokens (g : Gap) : List Token :=
  if g.chars = [] then [] else [⟨.whitespace, String.ofList g.chars, none⟩]

def Digits.token (d : Digits) : Token := ⟨.number, String.ofList d.chars, none⟩

def Sign.token (s : Sign) : Token := ofOperator (if s.negative then .minus else .plus)

def Sign.tokens (s : Sign) : List Token := s.token :: s.gap.tokens

def IntOp.arithOp : {level : Level} → IntOp level → ArithOp
  | _, mul => .mul
  | _, add => .add
  | _, sub => .sub

namespace Arith

def tokens : {rank : Rank} → Arith rank → List Token
  | _, literal signs digits => signs.flatMap Sign.tokens ++ [digits.token]
  | _, group before inner after =>
    ofOperator .leftParen ::
      (before.tokens ++ (inner.tokens ++ after.tokens ++ [ofOperator .rightParen]))
  | _, operand e => e.tokens
  | _, join op left before after right =>
    left.tokens ++ before.tokens ++
      ofOperator op.arithOp.operator :: (after.tokens ++ right.tokens)

/-- The number that a literal is read as. -/
def number (signs : List Sign) (digits : Digits) : Binary64 :=
  let magnitude := Binary64.ofDecimal false (Numeral.natOfDigits digits.chars) 0
  if Grammar.negates (signs.map Sign.token) then magnitude.neg else magnitude

def tree : {rank : Rank} → Arith rank → Expr
  | _, literal signs digits => .number (number signs digits)
  | _, group _ inner _ => inner.tree
  | _, operand e => e.tree
  | _, join op left _ _ right => .arith op.arithOp left.tree right.tree

end Arith

/-! ### The text spells the tokens -/

theorem Gap.spell_tokens (g : Gap) : Token.spell g.tokens = g.chars := by
  unfold Gap.tokens
  split
  · next h => rw [h, Token.spell_nil]
  · simp [Token.spelling]

theorem Sign.spell_tokens (signs : List Sign) :
    Token.spell (signs.flatMap Sign.tokens) = signs.flatMap Sign.chars := by
  induction signs with
  | nil => rfl
  | cons s signs ih =>
    rw [List.flatMap_cons, Token.spell_append, ih, List.flatMap_cons]
    cases h : s.negative <;>
      simp [tokens, token, chars, h, Gap.spell_tokens, Token.spelling, ofOperator, Operator.symbol]

theorem IntOp.symbol_operator {level : Level} (op : IntOp level) :
    op.arithOp.operator.symbol.toList = [op.char] := by
  cases op <;> rfl

theorem Arith.spell_tokens {rank : Rank} (e : Arith rank) : Token.spell e.tokens = e.chars := by
  induction e with
  | literal signs digits =>
    simp [tokens, chars, Token.spell_append, Sign.spell_tokens, Digits.token, Token.spelling]
  | group before inner after ih =>
    simp [tokens, chars, Token.spell_append, Gap.spell_tokens, ih, Token.spelling, ofOperator,
      Operator.symbol]
  | operand e ih => exact ih
  | join op left before after right ihl ihr =>
    simp [tokens, chars, Token.spell_append, Gap.spell_tokens, ihl, ihr, Token.spelling, ofOperator,
      op.symbol_operator]

/-! ### The tokens keep apart -/

namespace Gap

theorem mem_tokens {g : Gap} {t : Token} (ht : t ∈ g.tokens) :
    t.Lexical ∧ t.kind = .whitespace := by
  unfold tokens at ht
  split at ht
  · cases ht
  · next hne =>
    obtain rfl := List.mem_singleton.mp ht
    have hrun := g.blank.resolve_left hne
    exact ⟨⟨by simpa using hrun, rfl⟩, rfl⟩

theorem isChain_tokens (g : Gap) : g.tokens.IsChain fun a b => ¬ a.Merges b := by
  unfold tokens
  split
  · exact .nil
  · exact .singleton _

theorem strip_tokens (g : Gap) : strip g.tokens = [] := by
  apply List.filter_eq_nil_iff.mpr
  intro t ht
  simp [(mem_tokens ht).2]

end Gap

namespace Token

/-- Operands with nothing between them stay apart if they do where they meet. -/
theorem Block.append {us ws : List Token} (hu : Block us) (hw : Block ws)
    (hmeet : ∀ a ∈ us.getLast?, ∀ b ∈ ws.head?, ¬ a.Merges b) : Block (us ++ ws) where
  lexical t ht := (List.mem_append.mp ht).elim (hu.lexical t) (hw.lexical t)
  apart := List.isChain_append.mpr ⟨hu.apart, hw.apart, hmeet⟩
  opens := by
    rw [List.head?_append_of_ne_nil _ hu.ne_nil]
    exact hu.opens
  closes := by
    rw [List.getLast?_append_of_ne_nil _ hw.ne_nil]
    exact hw.closes

theorem Block.append_gap {us ws : List Token} (hu : Block us) (g : Gap) (hw : Block ws)
    (hmeet : ∀ a ∈ us.getLast?, ∀ b ∈ ws.head?, ¬ a.Merges b) :
    Block (us ++ g.tokens ++ ws) := by
  by_cases hnil : g.tokens = []
  · rw [hnil, List.append_nil]
    exact hu.append hw hmeet
  · have hjoint : Joint g.tokens :=
      ⟨fun t ht => (Gap.mem_tokens ht).1, g.isChain_tokens,
        fun t ht => Or.inl (Gap.mem_tokens ht).2, hnil⟩
    exact hu.join hjoint hw

/-- An operator in front, with white space behind it. -/
theorem Block.cons_operator {op : Operator} {ws : List Token} (hop : op ≠ .invalid)
    (hedge : (ofOperator op).IsEdge) (g : Gap) (hw : Block ws) :
    Block (ofOperator op :: (g.tokens ++ ws)) := by
  have hone : Block [ofOperator op] := .single (lexical_ofOperator hop) hedge
  refine hone.append_gap g hw ?_
  intro a ha b hb
  obtain rfl : ofOperator op = a := by simpa using ha
  obtain ⟨b', hb', hopens⟩ := hw.opens
  obtain rfl := Option.mem_unique hb hb'
  exact IsJoint.not_merges (Or.inr rfl) hopens

/-- White space and then an operator behind. -/
theorem Block.append_operator {op : Operator} {us ws : List Token} (hu : Block us) (g : Gap)
    (hw : Block (ofOperator op :: ws)) : Block (us ++ g.tokens ++ ofOperator op :: ws) := by
  refine hu.append_gap g hw ?_
  intro a ha b hb
  obtain rfl : ofOperator op = b := by simpa using hb
  obtain ⟨a', ha', hcloses⟩ := hu.closes
  obtain rfl := Option.mem_unique ha ha'
  exact hcloses.not_merges (Or.inr rfl)

end Token

theorem Digits.block_token (d : Digits) : Block [d.token] := by
  refine .single ⟨?_, rfl⟩ (Token.isEdge_of_kind _ (by decide))
  obtain ⟨c, cs, hcs⟩ := List.exists_cons_of_ne_nil d.ne_nil
  have hdigits := d.isDigit
  rw [hcs] at hdigits
  rw [Digits.token, String.toList_ofList, hcs]
  exact List.forall_mem_cons.mp hdigits

theorem Sign.block_append (signs : List Sign) {ws : List Token} (h : Block ws) :
    Block (signs.flatMap Sign.tokens ++ ws) := by
  induction signs with
  | nil => exact h
  | cons s signs ih =>
    rw [List.flatMap_cons, List.append_assoc]
    unfold Sign.tokens Sign.token at ih ⊢
    cases s.negative with
    | false => exact ih.cons_operator (by decide) (by decide) s.gap
    | true => exact ih.cons_operator (by decide) (by decide) s.gap

theorem IntOp.block_cons {level : Level} (op : IntOp level) (g : Gap) {ws : List Token}
    (h : Block ws) : Block (ofOperator op.arithOp.operator :: (g.tokens ++ ws)) := by
  cases op with
  | mul => exact h.cons_operator (by decide) (by decide) g
  | add => exact h.cons_operator (by decide) (by decide) g
  | sub => exact h.cons_operator (by decide) (by decide) g

theorem Arith.block_tokens {rank : Rank} (e : Arith rank) : Block e.tokens := by
  induction e with
  | literal signs digits => exact Sign.block_append signs digits.block_token
  | group before inner after ih =>
    have hclose : Block [ofOperator .rightParen] :=
      .single (Token.lexical_ofOperator (by decide)) (by decide)
    exact (ih.append_operator after hclose).cons_operator (by decide) (by decide) before
  | operand e ih => exact ih
  | join op left before after right ihl ihr =>
    exact ihl.append_operator before (op.block_cons after ihr)

/-- White space around a block keeps apart too. -/
theorem Token.Block.isChain_gaps {ts : List Token} (h : Block ts) (before after : Gap) :
    (before.tokens ++ ts ++ after.tokens).IsChain fun a b => ¬ a.Merges b := by
  obtain ⟨first, hfirst, hopens⟩ := h.opens
  obtain ⟨last, hlast, hcloses⟩ := h.closes
  refine List.isChain_append.mpr
    ⟨List.isChain_append.mpr ⟨before.isChain_tokens, h.apart, ?_⟩, after.isChain_tokens, ?_⟩
  · intro a ha b hb
    obtain rfl := Option.mem_unique hfirst hb
    exact IsJoint.not_merges (Or.inl (Gap.mem_tokens (List.mem_of_getLast? ha)).2) hopens
  · intro a ha b hb
    rw [List.getLast?_append_of_ne_nil _ h.ne_nil] at ha
    obtain rfl := Option.mem_unique hlast ha
    exact hcloses.not_merges (Or.inl (Gap.mem_tokens (List.mem_of_mem_head? hb)).2)

/-! ### The tokens derive the tree -/

theorem Sign.strip_tokens (signs : List Sign) :
    strip (signs.flatMap Sign.tokens) = signs.map Sign.token := by
  induction signs with
  | nil => rfl
  | cons s signs ih =>
    rw [List.flatMap_cons, Parser.strip_append, ih, Sign.tokens,
      Parser.strip_cons_of_ne (by simp [token, ofOperator]), s.gap.strip_tokens]
    rfl

theorem Sign.isSign_token (s : Sign) : Parser.isSign s.token := by
  unfold Sign.token
  cases s.negative <;> rfl

theorem Sign.isOperator_minus (s : Sign) : s.token.isOperator .minus = s.negative := by
  unfold Sign.token
  cases s.negative <;> rfl

theorem IntOp.joins {level : Level} (op : IntOp level) :
    Grammar.Joins level op.arithOp.operator (.arith op.arithOp) := by
  cases op with
  | mul => exact .mul
  | add => exact .add
  | sub => exact .sub

namespace Arith

theorem derives_literal (signs : List Sign) (digits : Digits) :
    Grammar.Derives .primary (signs.map Sign.token ++ [digits.token])
      (.number (number signs digits)) := by
  have hvalue := Binary64.ofText?_digits digits.ne_nil digits.isDigit
  -- the grammar has a rule of its own for a number without signs
  by_cases hnil : signs = []
  · subst hnil
    have hplain : number [] digits = .ofDecimal false (Numeral.natOfDigits digits.chars) 0 := by
      simp [number, Grammar.negates]
    rw [hplain]
    exact .number rfl hvalue
  · refine .signed (mt List.map_eq_nil_iff.mp hnil) ?_ rfl hvalue
    intro t ht
    obtain ⟨s, -, rfl⟩ := List.mem_map.mp ht
    exact s.isSign_token

/-- The ranks of the type are those of the grammar. -/
theorem derives_tokens {rank : Rank} (e : Arith rank) :
    Grammar.Derives rank (strip e.tokens) e.tree := by
  have hop : ∀ op, (ofOperator op).kind ≠ .whitespace := by simp [ofOperator]
  induction e with
  | literal signs digits =>
    rw [tokens, Parser.strip_append, Sign.strip_tokens,
      Parser.strip_cons_of_ne (by simp [Digits.token])]
    exact derives_literal signs digits
  | group before inner after ih =>
    have hstrip : strip (group before inner after).tokens =
        ofOperator .leftParen :: (strip inner.tokens ++ [ofOperator .rightParen]) := by
      simp [tokens, Parser.strip_cons_of_ne, hop, Gap.strip_tokens]
    rw [hstrip]
    exact .group rfl ih.expression_of_chain rfl
  | operand e ih => exact .operand ih
  | join op left before after right ihl ihr =>
    have hstrip : strip (join op left before after right).tokens =
        strip left.tokens ++ ofOperator op.arithOp.operator :: strip right.tokens := by
      simp [tokens, Parser.strip_cons_of_ne, hop, Gap.strip_tokens]
    rw [hstrip]
    exact .join ihl (by simp [Token.isOperator, ofOperator]) op.joins ihr

/-! ### The line is read as the tree -/

/-- An expression as a line, with white space around it. -/
def line (before : Gap) (e : Arith (.chain .additive)) (after : Gap) : String :=
  String.ofList (before.chars ++ e.chars ++ after.chars)

theorem parseLine_line (before : Gap) (e : Arith (.chain .additive)) (after : Gap) :
    Session.parseLine (e.line before after) = .ok [.expr e.tree] := by
  have hlex : ∀ t ∈ before.tokens ++ e.tokens ++ after.tokens, t.Lexical := by
    intro t ht
    rcases List.mem_append.mp ht with ht | ht
    · exact (List.mem_append.mp ht).elim (fun h => (Gap.mem_tokens h).1) (e.block_tokens.lexical t)
    · exact (Gap.mem_tokens ht).1
  have hspell : (e.line before after).toList =
      Token.spell (before.tokens ++ e.tokens ++ after.tokens) := by
    rw [line, String.toList_ofList, Token.spell_append, Token.spell_append, Gap.spell_tokens,
      Gap.spell_tokens, spell_tokens]
  have hstrip : strip (before.tokens ++ e.tokens ++ after.tokens) = strip e.tokens := by
    simp [Gap.strip_tokens]
  have hsplit : Grammar.Split (strip e.tokens) [.expr e.tree] [strip e.tokens] :=
    { flatten := by simp
      derives := .cons (.expr e.derives_tokens.expression_of_chain) .nil
      no_sign := by simp
      bare_last := by simp }
  apply Session.parseLine_ok_iff.mpr
  refine ⟨_, Token.ofText_of_spell hlex (e.block_tokens.isChain_gaps before after) hspell, ?_⟩
  exact Program.ofTokens_of_split hlex (hstrip ▸ hsplit)

end Arith

/-! ### The tree has the exact value -/

open Binary64 (Representable)

theorem Sign.foldr_apply (signs : List Sign) (n : ℤ) :
    signs.foldr Sign.apply n =
      if Grammar.negates (signs.map Sign.token) then -n else n := by
  induction signs with
  | nil => rfl
  | cons s signs ih =>
    rw [List.foldr_cons, ih, List.map_cons, Parser.negates_cons, s.isOperator_minus]
    unfold Sign.apply
    cases s.negative <;> cases Grammar.negates (signs.map Sign.token) <;> simp

theorem Arith.value?_number {signs : List Sign} {digits : Digits}
    (h : Representable (literal signs digits).value) :
    (number signs digits).value? = some ((literal signs digits).value : ℚ) := by
  have hvalue : (literal signs digits).value = signs.foldr Sign.apply _ := rfl
  rw [hvalue, Sign.foldr_apply] at h ⊢
  -- what fits is a matter of the magnitude only
  have hfits : Binary64.Fits (Numeral.natOfDigits digits.chars * Binary64.unitsPerOne) := by
    have hsigned := Binary64.representable_int_iff.mp h
    split at hsigned
    · simpa using hsigned
    · simpa using hsigned
  have hmagnitude : (Binary64.ofDecimal false (Numeral.natOfDigits digits.chars) 0).value? =
      some (Numeral.natOfDigits digits.chars : ℚ) := by
    rw [Binary64.ofDecimal_of_fits false hfits, Binary64.value?_finite]
    simp [Binary64.signed, Binary64.cast_unitsPerOne_pos.ne']
  unfold number
  split
  · rw [Int.cast_neg]
    exact Binary64.value?_neg hmagnitude
  · exact hmagnitude

theorem IntOp.value?_apply {level : Level} (op : IntOp level) {x y : Binary64} {m n : ℤ}
    (hx : x.value? = some (m : ℚ)) (hy : y.value? = some (n : ℚ))
    (h : Representable (op.apply m n)) :
    (op.arithOp.apply x y).value? = some ((op.apply m n : ℤ) : ℚ) := by
  cases op with
  | mul =>
    unfold IntOp.apply at h ⊢
    rw [Int.cast_mul] at h ⊢
    exact Binary64.value?_mul hx hy h
  | add =>
    unfold IntOp.apply at h ⊢
    rw [Int.cast_add] at h ⊢
    exact Binary64.value?_add hx hy h
  | sub =>
    unfold IntOp.apply at h ⊢
    rw [Int.cast_sub] at h ⊢
    exact Binary64.value?_sub hx hy h

theorem Arith.eval_tree {rank : Rank} (e : Arith rank) (h : ∀ n ∈ e.values, Representable n)
    (env : Env) :
    ∃ x, e.tree.eval env = .ok (.number x) env ∧ x.value? = some (e.value : ℚ) := by
  induction e with
  | literal signs digits =>
    exact ⟨_, rfl, value?_number (h _ (List.mem_singleton_self _))⟩
  | group before inner after ih => exact ih h
  | operand e ih => exact ih h
  | join op left before after right ihl ihr =>
    obtain ⟨hop, hparts⟩ := List.forall_mem_cons.mp h
    obtain ⟨hleft, hright⟩ := List.forall_mem_append.mp hparts
    -- the operands are exact, so the operation has a representable result to round
    obtain ⟨x, hx, hxvalue⟩ := ihl hleft
    obtain ⟨y, hy, hyvalue⟩ := ihr hright
    refine ⟨op.arithOp.apply x y, ?_, op.value?_apply hxvalue hyvalue hop⟩
    rw [tree, Expr.eval, Session.bind_of_ok hx, Session.bind_of_ok hy]
    rfl

/-- A line is exact as long as nothing in it has to be rounded. -/
theorem Arith.evalLine_of_representable (before : Gap) (e : Arith (.chain .additive)) (after : Gap)
    (h : ∀ n ∈ e.values, Representable n) (env : Env) :
    Session.evalLine (e.line before after) env = .ok (toString e.value) env := by
  obtain ⟨x, heval, hvalue⟩ := e.eval_tree h env
  have hprogram : Program.eval [.expr e.tree] env = .ok (.number x) env := by
    rw [Program.eval, Program.evalFrom, Statement.eval, Session.bind_of_ok heval]
    rfl
  rw [Session.evalLine_of_parseLine_ok (e.parseLine_line before after), Session.evalProgram,
    hprogram]
  exact congrArg (EStateM.Result.ok · env) (Binary64.render_of_value?_int hvalue)

/-- **Arithmetic on whole numbers is exact.**  A line of digits, signs, `+`, `-`, `*` and brackets
    gives the exact value of its expression, in every session and without a change to it, if no
    part of the expression is beyond `2^53`. -/
theorem Session.evalLine_arith (before : Gap) (e : Arith (.chain .additive)) (after : Gap)
    (h : ∀ n ∈ e.values, |n| ≤ 2 ^ 53) (env : Env) :
    Session.evalLine (e.line before after) env = .ok (toString e.value) env := by
  apply e.evalLine_of_representable
  intro n hn
  exact Binary64.representable_of_abs_le (h n hn)

/-- `2 * (1 + +2) - - 9007199254740986`, which is `2^53`. -/
def Arith.upToBound : Arith (.chain .additive) :=
  .join .sub
    (.operand (.join .mul (.operand (.literal [] (.ofNat 2))) .space .space
      (.group .empty
        (.join .add (.operand (.operand (.literal [] (.ofNat 1)))) .space .space
          (.operand (.literal [⟨false, .empty⟩] (.ofNat 2))))
        .empty)))
    .space .space
    (.operand (.literal [⟨true, .space⟩] (.ofNat 9007199254740986)))

/-- `0*-5`, a negative zero when computed. -/
def Arith.negativeZero : Arith (.chain .additive) :=
  .operand (.join .mul (.operand (.literal [] (.ofNat 0))) .empty .empty
    (.literal [⟨true, .empty⟩] (.ofNat 5)))

/-- A value at the bound, and a zero that has lost its sign. -/
theorem Session.evalLine_arith_bound_and_zero :
    (∀ n ∈ Arith.upToBound.values, |n| ≤ 2 ^ 53) ∧
      Session.evalLine "2 * (1 + +2) - - 9007199254740986\t" .empty =
        .ok "9007199254740992" .empty ∧
      (∀ n ∈ Arith.negativeZero.values, |n| ≤ 2 ^ 53) ∧
      Session.evalLine "0*-5" .empty = .ok "0" .empty := by
  have hbound : ∀ n ∈ Arith.upToBound.values, |n| ≤ 2 ^ 53 := by decide +kernel
  have hzero : ∀ n ∈ Arith.negativeZero.values, |n| ≤ 2 ^ 53 := by decide +kernel
  have hline : Arith.upToBound.line .empty .tab = "2 * (1 + +2) - - 9007199254740986\t" := by
    decide +kernel
  have hline' : Arith.negativeZero.line .empty .empty = "0*-5" := by decide +kernel
  have heval := evalLine_arith .empty Arith.upToBound .tab hbound .empty
  have heval' := evalLine_arith .empty Arith.negativeZero .empty hzero .empty
  rw [hline] at heval
  rw [hline'] at heval'
  exact ⟨hbound, heval, hzero, heval'⟩

end LineCalc
