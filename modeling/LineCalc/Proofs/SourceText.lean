/-
  LineCalc/Proofs/SourceText.lean
  ===============================
  **Programs written out.**  `Program.source` writes a program on one line, with
  brackets around every compound expression and every negative number.  The
  programs that have such a line are the `Expressible` ones.

  The line is read as the tokens it was put together from.  They are cut apart
  because what stands between two operands, blanks or an operator, runs together
  with neither of them: operands and lines are `Token.Block`s, the rest is a
  `Token.Joint`, and blocks are joined by joints.
-/
import LineCalc.Proofs.Grammar
import LineCalc.Proofs.Spelling

namespace LineCalc

/-! ### Programs that can be written -/

/-- A word of letters and digits that is not reserved. -/
def IsName (name : String) : Prop :=
  Token.IsRun Char.isAlpha Char.isAlphanum name.toList ∧ ∀ word : Keyword, word.word ≠ name

/-- A letter is a name: the reserved words are longer. -/
theorem isName_letter {c : Char} (h : c.isAlpha = true) : IsName (String.ofList [c]) := by
  refine ⟨by simpa [Token.IsRun] using h, ?_⟩
  intro word hword
  have hlength : word.word.length ≠ 1 := by cases word <;> decide
  rw [hword, String.length_ofList] at hlength
  exact hlength rfl

def Expr.Expressible : Expr → Prop
  | .variable name => IsName name
  | .number value => value.isIntegral
  | .string text => '\x00' ∉ text.toList ∧ text.toList.getLast? ≠ some '\\'
  | .boolean _ | .null => True
  | .whitespace _ | .not _ => False
  | .arith _ left right | .compare _ left right => left.Expressible ∧ right.Expressible
  | .assign name value => IsName name ∧ value.Expressible

def Statement.Expressible : Statement → Prop
  | .program _ => False
  | .declare name value => IsName name ∧ value.Expressible
  | .expr e => e.Expressible

def Program.Expressible (p : Program) : Prop := ∀ s ∈ p, s.Expressible

/-! ### How they are written -/

/-- The digits of the whole part of a magnitude. -/
def Binary64.digits (units : Nat) : String := Nat.repr (units / unitsPerOne)

/-- Blanks in a row. -/
def blanks (gap : Nat) : String := String.ofList (List.replicate gap ' ')

/-- An expression on one line, with `gap` blanks on both sides of an operator. -/
def Expr.source (gap : Nat) : Expr → String
  | .variable name => name
  | .number (.finite false units _) => Binary64.digits units
  | .number (.finite true units _) => "(-" ++ Binary64.digits units ++ ")"
  | .string text => "\"" ++ String.ofList (Token.escape text.toList) ++ "\""
  | .boolean true => "true"
  | .boolean false => "false"
  | .null => "null"
  | .arith op left right =>
    "(" ++ left.source gap ++ blanks gap ++ op.symbol ++ blanks gap ++ right.source gap ++ ")"
  | .compare op left right =>
    "(" ++ left.source gap ++ blanks gap ++ op.symbol ++ blanks gap ++ right.source gap ++ ")"
  | .assign name value =>
    "(" ++ name ++ blanks gap ++ "=" ++ blanks gap ++ value.source gap ++ ")"
  | .number _ | .whitespace _ | .not _ => ""

def Statement.source (gap : Nat) : Statement → String
  | .program _ => ""
  | .declare name value => "set " ++ name ++ " = " ++ value.source gap
  | .expr e => e.source gap

/-- A program on one line, its statements one blank apart. -/
def Program.source (gap : Nat) (p : Program) : String :=
  " ".intercalate (p.map (Statement.source gap))

/-! ### The tokens of the line -/

namespace Token

def name (text : String) : Token := ⟨.identifier, text, none⟩

def digits (units : Nat) : Token := ⟨.number, Binary64.digits units, none⟩

def string (text : String) : Token := ⟨.string, text, none⟩

def keyword (word : Keyword) : Token := ⟨.keyword word, word.word, none⟩

def space (gap : Nat) : List Token :=
  if gap = 0 then [] else [⟨.whitespace, blanks gap, none⟩]

/-- An operator with its blanks. -/
def infixed (gap : Nat) (op : Operator) : List Token := space gap ++ ofOperator op :: space gap

/-- Tokens in brackets. -/
def bracket (ts : List Token) : List Token :=
  ofOperator .leftParen :: (ts ++ [ofOperator .rightParen])

end Token

open Token (bracket infixed)

def Expr.tokens (gap : Nat) : Expr → List Token
  | .variable name => [.name name]
  | .number (.finite false units _) => [.digits units]
  | .number (.finite true units _) => bracket [.ofOperator .minus, .digits units]
  | .string text => [.string text]
  | .boolean true => [.keyword .trueLiteral]
  | .boolean false => [.keyword .falseLiteral]
  | .null => [.keyword .null]
  | .arith op left right =>
    bracket (left.tokens gap ++ infixed gap op.operator ++ right.tokens gap)
  | .compare op left right =>
    bracket (left.tokens gap ++ infixed gap op.operator ++ right.tokens gap)
  | .assign name value => bracket ([.name name] ++ infixed gap .assign ++ value.tokens gap)
  | .number _ | .whitespace _ | .not _ => []

def Statement.tokens (gap : Nat) : Statement → List Token
  | .program _ => []
  | .declare name value =>
    [.keyword .set] ++ Token.space 1 ++ ([.name name] ++ infixed 1 .assign ++ value.tokens gap)
  | .expr e => e.tokens gap

def Program.tokens (gap : Nat) (p : Program) : List Token :=
  (Token.space 1).intercalate (p.map (Statement.tokens gap))

/-! ### The line spells its tokens -/

namespace Token

theorem spell_space (gap : Nat) : spell (space gap) = (blanks gap).toList := by
  cases gap <;> simp [space, blanks, spelling]

theorem spell_infixed (gap : Nat) (op : Operator) :
    spell (infixed gap op) = (blanks gap).toList ++ op.symbol.toList ++ (blanks gap).toList := by
  simp [infixed, spell_append, spell_space, spelling, ofOperator]

theorem spell_bracket (ts : List Token) : spell (bracket ts) = '(' :: (spell ts ++ [')']) := by
  simp [bracket, spell_append, spelling, ofOperator, Operator.symbol]

end Token

theorem Expr.toList_source (gap : Nat) (e : Expr) :
    (e.source gap).toList = Token.spell (e.tokens gap) := by
  fun_induction Expr.tokens gap e <;>
    simp_all [Expr.source, Token.spell_append, Token.spell_bracket, Token.spell_infixed,
      Token.spelling, Token.name, Token.digits, Token.string, Token.keyword, Keyword.word,
      ArithOp.symbol, CompareOp.symbol, Token.ofOperator, Operator.symbol]

theorem Statement.toList_source (gap : Nat) (s : Statement) :
    (s.source gap).toList = Token.spell (s.tokens gap) := by
  cases s with
  | program => rfl
  | declare name value =>
    simp [source, tokens, Expr.toList_source, Token.spell_append, Token.spell_infixed,
      Token.spell_space, Token.spelling, Token.name, Token.keyword, Keyword.word, blanks,
      Operator.symbol]
  | expr e => exact Expr.toList_source gap e

theorem Program.toList_source (gap : Nat) (p : Program) :
    (p.source gap).toList = Token.spell (p.tokens gap) := by
  rw [source, tokens, String.toList_intercalate, List.map_map]
  induction p with
  | nil => rfl
  | cons s p ih =>
    cases p with
    | nil => simp [Statement.toList_source]
    | cons s' p =>
      simp only [List.map_cons, List.intercalate_cons_cons] at ih ⊢
      rw [ih]
      simp [Token.spell_append, Statement.toList_source, Token.spell_space, blanks]

/-! ### The tokens keep apart -/

namespace Token

/-- A token that operands start and end with. -/
def IsEdge (t : Token) : Prop :=
  t.kind ≠ .whitespace ∧ ∀ op ∈ [Operator.assign, .equal, .not], t.isOperator op = false

instance (t : Token) : Decidable t.IsEdge := inferInstanceAs (Decidable (_ ∧ _))

/-- White space or an operator. -/
def IsJoint (t : Token) : Prop := t.kind = .whitespace ∨ t.kind = .operator

theorem IsEdge.not_merges {a b : Token} (ha : a.IsEdge) (hb : b.IsJoint) : ¬ a.Merges b := by
  obtain ⟨hspace, hop⟩ := ha
  rcases hb with hb | hb <;> simp_all [Merges, isWord]

theorem IsJoint.not_merges {a b : Token} (ha : a.IsJoint) (hb : b.IsEdge) : ¬ a.Merges b := by
  obtain ⟨hspace, hop⟩ := hb
  rcases ha with ha | ha <;> simp_all [Merges, isWord]

/-- What stands between two operands: no token of it is part of an operand. -/
structure Joint (ts : List Token) : Prop where
  lexical : ∀ t ∈ ts, t.Lexical
  apart : ts.IsChain fun a b => ¬ a.Merges b
  joints : ∀ t ∈ ts, t.IsJoint
  ne_nil : ts ≠ []

/-- Tokens of a text whose first and last could be those of an operand. -/
structure Block (ts : List Token) : Prop where
  lexical : ∀ t ∈ ts, t.Lexical
  apart : ts.IsChain fun a b => ¬ a.Merges b
  opens : ∃ t ∈ ts.head?, t.IsEdge
  closes : ∃ t ∈ ts.getLast?, t.IsEdge

theorem Block.single {t : Token} (ht : t.Lexical) (hedge : t.IsEdge) : Block [t] where
  lexical := by simpa using ht
  apart := by simp
  opens := ⟨t, rfl, hedge⟩
  closes := ⟨t, rfl, hedge⟩

theorem Block.ne_nil {ts : List Token} (h : Block ts) : ts ≠ [] := by
  rintro rfl
  obtain ⟨t, ht, -⟩ := h.opens
  cases ht

/-- Operands stay apart when something stands between them. -/
theorem Block.join {us js ws : List Token} (hu : Block us) (hj : Joint js) (hw : Block ws) :
    Block (us ++ js ++ ws) where
  lexical t ht := by
    rcases List.mem_append.mp ht with ht | ht
    · exact (List.mem_append.mp ht).elim (hu.lexical t) (hj.lexical t)
    · exact hw.lexical t ht
  apart := by
    -- only the two places where the lists meet are new
    obtain ⟨a, ha, hedge⟩ := hu.closes
    obtain ⟨b, hb, hedge'⟩ := hw.opens
    refine List.isChain_append.mpr
      ⟨List.isChain_append.mpr ⟨hu.apart, hj.apart, ?_⟩, hw.apart, ?_⟩
    · intro a' ha' j hhead
      obtain rfl : a = a' := Option.mem_unique ha ha'
      exact hedge.not_merges (hj.joints j (List.mem_of_mem_head? hhead))
    · intro j hlast b' hb'
      obtain rfl : b = b' := Option.mem_unique hb hb'
      rw [List.getLast?_append_of_ne_nil _ hj.ne_nil] at hlast
      exact (hj.joints j (List.mem_of_getLast? hlast)).not_merges hedge'
  opens := by
    obtain ⟨t, ht, hedge⟩ := hu.opens
    exact ⟨t, by simp [List.head?_append, Option.mem_def.mp ht], hedge⟩
  closes := by
    obtain ⟨t, ht, hedge⟩ := hw.closes
    exact ⟨t, by rw [List.getLast?_append_of_ne_nil _ hw.ne_nil]; exact ht, hedge⟩

theorem Block.bracket {ts : List Token} (h : Block ts) : Block (bracket ts) where
  lexical t ht := by
    have hparen : t = ofOperator .leftParen ∨ t ∈ ts ∨ t = ofOperator .rightParen := by
      simpa [Token.bracket] using ht
    rcases hparen with rfl | ht | rfl
    · exact ⟨.leftParen, by decide, rfl, rfl⟩
    · exact h.lexical t ht
    · exact ⟨.rightParen, by decide, rfl, rfl⟩
  apart := by
    obtain ⟨a, ha, hopens⟩ := h.opens
    obtain ⟨b, hb, hcloses⟩ := h.closes
    refine List.isChain_cons.mpr ⟨?_, List.isChain_append.mpr ⟨h.apart, by simp, ?_⟩⟩
    · intro a' ha'
      rw [List.head?_append_of_ne_nil _ h.ne_nil] at ha'
      obtain rfl : a = a' := Option.mem_unique ha ha'
      exact IsJoint.not_merges (Or.inr rfl) hopens
    · intro b' hb' r hr
      obtain rfl : b = b' := Option.mem_unique hb hb'
      obtain rfl : ofOperator .rightParen = r := by simpa using hr
      exact hcloses.not_merges (Or.inr rfl)
  opens := ⟨ofOperator .leftParen, rfl, by decide⟩
  closes := ⟨ofOperator .rightParen, List.getLast?_concat (l := _ :: ts), by decide⟩

/-! ### Each token of the line -/

theorem isEdge_of_kind {kind : Kind} (text : String) (h : kind ≠ .whitespace) :
    IsEdge ⟨kind, text, none⟩ :=
  ⟨h, fun op _ => by simp [isOperator]⟩

theorem lexical_digits (units : Nat) : (digits units).Lexical := by
  have hdigit : ∀ c ∈ Nat.toDigits 10 (units / Binary64.unitsPerOne), c.isDigit := fun c hc =>
    Nat.isDigit_of_mem_toDigits (by decide) (by decide) hc
  refine ⟨?_, rfl⟩
  simp only [digits, Binary64.digits, Nat.toList_repr]
  cases h : Nat.toDigits 10 (units / Binary64.unitsPerOne) with
  | nil => exact Nat.toDigits_ne_nil h
  | cons c cs =>
    rw [h] at hdigit
    exact ⟨hdigit c (by simp), fun d hd => hdigit d (List.mem_cons_of_mem _ hd)⟩

theorem lexical_ofOperator {op : Operator} (h : op ≠ .invalid) : (ofOperator op).Lexical :=
  ⟨op, h, rfl, rfl⟩

theorem block_name {text : String} (h : IsName text) : Block [name text] :=
  .single ⟨h.1, h.2, rfl⟩ (isEdge_of_kind _ (by decide))

theorem block_digits (units : Nat) : Block [digits units] :=
  .single (lexical_digits units) (isEdge_of_kind _ (by decide))

theorem block_minus_digits (units : Nat) : Block [ofOperator .minus, digits units] where
  lexical := by
    simpa using ⟨lexical_ofOperator (by decide), lexical_digits units⟩
  apart := List.isChain_pair.mpr
    (IsJoint.not_merges (Or.inr rfl) (isEdge_of_kind _ (by decide)))
  opens := ⟨ofOperator .minus, rfl, by decide⟩
  closes := ⟨digits units, rfl, isEdge_of_kind _ (by decide)⟩

theorem block_string {text : String} (hnul : '\x00' ∉ text.toList)
    (hlast : text.toList.getLast? ≠ some '\\') : Block [string text] :=
  .single ⟨hnul, hlast, rfl⟩ (isEdge_of_kind _ (by decide))

theorem block_keyword (word : Keyword) : Block [keyword word] :=
  .single ⟨rfl, rfl⟩ (isEdge_of_kind _ (by simp))

theorem lexical_of_mem_space {gap : Nat} {t : Token} (ht : t ∈ space gap) :
    t.Lexical ∧ t.kind = .whitespace := by
  cases gap with
  | zero => cases ht
  | succ gap =>
    obtain rfl : t = ⟨.whitespace, blanks (gap + 1), none⟩ := by simpa [space] using ht
    refine ⟨⟨?_, rfl⟩, rfl⟩
    simp only [blanks, String.toList_ofList, List.replicate_succ]
    exact ⟨by decide, fun d hd => by rw [List.eq_of_mem_replicate hd]; decide⟩

theorem joint_space (gap : Nat) : Joint (space (gap + 1)) where
  lexical t ht := (lexical_of_mem_space ht).1
  apart := by simp [space]
  joints t ht := Or.inl (lexical_of_mem_space ht).2
  ne_nil := by simp [space]

theorem mem_infixed {gap : Nat} {op : Operator} {t : Token} :
    t ∈ infixed gap op ↔ t = ofOperator op ∨ t ∈ space gap := by
  simp only [infixed, List.mem_append, List.mem_cons]
  tauto

theorem joint_infixed (gap : Nat) (op : Operator) (hop : op ≠ .invalid) :
    Joint (infixed gap op) where
  lexical t ht := by
    rcases mem_infixed.mp ht with rfl | hspace
    · exact lexical_ofOperator hop
    · exact (lexical_of_mem_space hspace).1
  apart := by
    cases gap <;> simp [infixed, space, Merges, ofOperator, isWord, isOperator]
  joints t ht := by
    rcases mem_infixed.mp ht with rfl | hspace
    · exact Or.inr rfl
    · exact Or.inl (lexical_of_mem_space hspace).2
  ne_nil := by simp [infixed]

end Token

theorem ArithOp.operator_ne_invalid (op : ArithOp) : op.operator ≠ .invalid := by
  cases op <;> decide

theorem CompareOp.operator_ne_invalid (op : CompareOp) : op.operator ≠ .invalid := by
  cases op <;> decide

theorem Expr.block_tokens (gap : Nat) {e : Expr} (h : e.Expressible) :
    Token.Block (e.tokens gap) := by
  induction e with
  | «variable» name => exact Token.block_name h
  | number value =>
    cases value with
    | finite negative units fits =>
      cases negative with
      | false => exact Token.block_digits units
      | true => exact (Token.block_minus_digits units).bracket
    | infinite negative => cases h
    | nan => cases h
  | string text => exact Token.block_string h.1 h.2
  | boolean value => cases value <;> exact Token.block_keyword _
  | null => exact Token.block_keyword .null
  | whitespace text => exact h.elim
  | not inner => exact h.elim
  | arith op left right ihl ihr =>
    exact ((ihl h.1).join (Token.joint_infixed gap _ op.operator_ne_invalid) (ihr h.2)).bracket
  | compare op left right ihl ihr =>
    exact ((ihl h.1).join (Token.joint_infixed gap _ op.operator_ne_invalid) (ihr h.2)).bracket
  | assign name value ih =>
    have hassign := Token.joint_infixed gap .assign (by decide)
    exact ((Token.block_name h.1).join hassign (ih h.2)).bracket

theorem Statement.block_tokens (gap : Nat) {s : Statement} (h : s.Expressible) :
    Token.Block (s.tokens gap) := by
  cases s with
  | program body => exact h.elim
  | declare name value =>
    have hinit := (Token.block_name h.1).join (Token.joint_infixed 1 .assign (by decide))
      (value.block_tokens gap h.2)
    exact (Token.block_keyword .set).join (Token.joint_space 0) hinit
  | expr e => exact e.block_tokens gap h

theorem Program.block_tokens (gap : Nat) {p : Program} (hne : p ≠ []) (h : p.Expressible) :
    Token.Block (p.tokens gap) := by
  induction p with
  | nil => exact absurd rfl hne
  | cons s p ih =>
    have hs := s.block_tokens gap (h s (List.mem_cons_self ..))
    cases p with
    | nil => simpa [tokens] using hs
    | cons s' p =>
      have hp := ih (by simp) fun t ht => h t (List.mem_cons_of_mem _ ht)
      simpa [tokens, List.append_assoc] using hs.join (Token.joint_space 0) hp

/-! ### The line is read as its tokens -/

namespace Token

theorem Lexical.wellFormed {t : Token} (ht : t.Lexical) : t.WellFormed := by
  obtain ⟨kind, text, operator⟩ := t
  cases kind with
  | operator =>
    obtain ⟨op, -, -, rfl⟩ := ht
    simp [WellFormed]
  | _ => simp_all [Lexical, WellFormed]

theorem Lexical.kind_ne_endOfLine {t : Token} (ht : t.Lexical) : t.kind ≠ .endOfLine := by
  intro hkind
  simp [Lexical, hkind] at ht

/-- A text that spells tokens that keep apart has these tokens. -/
theorem ofText_of_spell {body : List Token} {text : String} (hlex : ∀ t ∈ body, t.Lexical)
    (hapart : body.IsChain fun a b => ¬ a.Merges b) (hspell : text.toList = spell body) :
    ofText text = .ok (body ++ [.endOfLine]) := by
  refine ofChars_of_canonical hlex hapart ?_
  rw [hspell]
  clear hspell hapart
  induction body with
  | nil => rfl
  | cons t body ih =>
    rw [spell_cons, (hlex t (List.mem_cons_self ..)).beforeNul_spelling,
      ← ih fun b hb => hlex b (List.mem_cons_of_mem _ hb)]

end Token

theorem Program.lexical_tokens (gap : Nat) {p : Program} (h : p.Expressible) :
    ∀ t ∈ p.tokens gap, t.Lexical := by
  by_cases hne : p = []
  · subst hne
    simp [tokens]
  · exact (p.block_tokens gap hne h).lexical

theorem Program.ofText_source (gap : Nat) {p : Program} (h : p.Expressible) :
    Token.ofText (p.source gap) = .ok (p.tokens gap ++ [.endOfLine]) := by
  refine Token.ofText_of_spell (p.lexical_tokens gap h) ?_ (p.toList_source gap)
  by_cases hne : p = []
  · subst hne
    simp [tokens]
  · exact (p.block_tokens gap hne h).apart

end LineCalc
