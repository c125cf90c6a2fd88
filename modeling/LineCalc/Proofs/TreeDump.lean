/-
  LineCalc/Proofs/TreeDump.lean
  =============================
  **Trees that are written alike are equal.**  A tree is written node by node.  The name of
  a node tells which node it is, since no name goes on with another one.  What follows has
  ends that can be told: a name of a variable ends at a blank or a parenthesis, a number at
  a parenthesis, a text at its quote, and a tree where it does by itself, so that two trees
  in a row cannot be cut in two ways (`Expr.toldApart`, `Statement.eqv_of_dump_append`).

  Equal means that numbers are compared by value.  The text of a number keeps its value if
  it is whole or infinite, as all numbers of a line are; it does not keep the sign of zero.
-/
import LineCalc.Proofs.ParsedTrees
import LineCalc.Proofs.QuotedText

namespace LineCalc

/-! ### The texts of numbers -/

namespace Binary64

theorem mem_render_of_isIntegral {x : Binary64} (h : x.isIntegral) {c : Char}
    (hc : c ∈ x.render.toList) : c = '-' ∨ c.isDigit := by
  obtain ⟨n, hn⟩ := isIntegral_iff.mp h
  rw [render_of_value?_int hn, Decimal.toList_toString] at hc
  rcases List.mem_append.mp hc with hc | hc
  · left
    split at hc
    · exact List.mem_singleton.mp hc
    · cases hc
  · exact Or.inr (Nat.isDigit_of_mem_toDigits (by decide) (by decide) hc)

theorem paren_not_mem_render {x : Binary64} (h : x.IsWritable) : ')' ∉ x.render.toList := by
  rcases h with h | ⟨negative, rfl⟩
  · intro hmem
    rcases mem_render_of_isIntegral h hmem with hc | hc <;> revert hc <;> decide
  · cases negative <;> decide

theorem render_ne_infinite {x : Binary64} (h : x.isIntegral) (negative : Bool) :
    x.render ≠ (infinite negative).render := by
  intro heq
  have hmem : 'f' ∈ x.render.toList := by
    rw [heq]
    cases negative <;> decide
  rcases mem_render_of_isIntegral h hmem with hc | hc <;> revert hc <;> decide

/-- Whole and infinite numbers with one text are equal. -/
theorem eqv_of_render_eq {x y : Binary64} (hx : x.IsWritable) (hy : y.IsWritable)
    (h : x.render = y.render) : x.eqv y := by
  rcases hx with hx | ⟨m, rfl⟩ <;> rcases hy with hy | ⟨n, rfl⟩
  · obtain ⟨a, ha⟩ := isIntegral_iff.mp hx
    obtain ⟨b, hb⟩ := isIntegral_iff.mp hy
    rw [render_eq_render_iff ha hb, rounded_intCast, rounded_intCast] at h
    exact (eqv_iff ha hb).mpr h
  · exact absurd h (render_ne_infinite hx n)
  · exact absurd h.symm (render_ne_infinite hy m)
  · have hsign : ∀ m n, (infinite m).render = (infinite n).render → m = n := by decide
    exact decide_eq_true (hsign m n h)

/-- Equal numbers have one text. -/
theorem render_congr {x y : Binary64} (h : x.eqv y) : x.render = y.render := by
  cases x with
  | finite m a ha =>
    cases y with
    | finite n b hb =>
      have hx := value?_finite m a ha
      have hy := value?_finite n b hb
      rw [render_eq_render_iff hx hy, (eqv_iff hx hy).mp h]
    | infinite | nan => cases h
  | infinite m =>
    cases y with
    | infinite n => rw [of_decide_eq_true h]
    | finite | nan => cases h
  | nan => cases y <;> cases h

/-- Numbers that are equal without being the same are the two zeros. -/
theorem eq_or_zero_of_eqv {x y : Binary64} (h : x.eqv y) :
    x = y ∨ ∃ m n, x = .zero m ∧ y = .zero n := by
  cases x with
  | finite m a ha =>
    cases y with
    | finite n b hb =>
      have hsigned : signed m a = signed n b := of_decide_eq_true h
      have habs : a = b := by
        rw [← natAbs_signed m a, hsigned, natAbs_signed]
      subst habs
      rcases Nat.eq_zero_or_pos a with rfl | hpos
      · exact Or.inr ⟨m, n, rfl, rfl⟩
      · left
        cases m <;> cases n <;> simp [signed] at hsigned ⊢ <;> omega
    | infinite | nan => cases h
  | infinite m =>
    cases y with
    | infinite n => exact Or.inl (by rw [of_decide_eq_true h])
    | finite | nan => cases h
  | nan => cases y <;> cases h

end Binary64

/-! ### The names of nodes -/

/-- The nodes of trees. -/
inductive NodeName where
  | identifier
  | number
  | string
  | boolean
  | null
  | whitespace
  | not
  | binary
  | comparison
  | assignment
  | declaration
  | program
  deriving DecidableEq, Repr

namespace NodeName

/-- How the node starts. -/
def text : NodeName → String
  | identifier => "Identifier("
  | number => "Number("
  | string => "String("
  | boolean => "Boolean("
  | null => "Null"
  | whitespace => "Whitespace("
  | not => "Not("
  | binary => "Binary("
  | comparison => "Comparison("
  | assignment => "VariableAssign("
  | declaration => "VariableDeclaration("
  | program => "Program \x7b\n"

def all : List NodeName :=
  [identifier, number, string, boolean, null, whitespace, not, binary, comparison, assignment,
    declaration, program]

theorem mem_all (node : NodeName) : node ∈ all := by
  cases node <;> decide

/-- No name goes on with another one. -/
theorem prefixFree_text : PrefixFree fun node : NodeName => node.text.toList := by
  have hall : ∀ a ∈ all, ∀ b ∈ all, a.text.toList <+: b.text.toList → a = b := by decide
  intro a b xs ys h
  have hprefix : a.text.toList <+: b.text.toList ∨ b.text.toList <+: a.text.toList :=
    List.prefix_or_prefix_of_prefix ⟨xs, h⟩ ⟨ys, rfl⟩
  have heq : a = b := by
    rcases hprefix with hab | hba
    · exact hall a a.mem_all b b.mem_all hab
    · exact (hall b b.mem_all a a.mem_all hba).symm
  subst heq
  exact ⟨rfl, List.append_cancel_left h⟩

end NodeName

/-! ### Expressions -/

namespace Expr

def nodeName : Expr → NodeName
  | .variable _ => .identifier
  | .number _ => .number
  | .string _ => .string
  | .boolean _ => .boolean
  | .null => .null
  | .whitespace _ => .whitespace
  | .not _ => .not
  | .arith _ _ _ => .binary
  | .compare _ _ _ => .comparison
  | .assign _ _ => .assignment

/-- Two trees with a symbol between them, up to the end of the node. -/
def operandChars (left : Expr) (symbol : String) (right : Expr) : List Char :=
  left.dump.toList ++ ' ' :: (symbol.toList ++ ' ' :: (right.dump.toList ++ [')']))

/-- A name with a tree for it, up to the end of the node. -/
def bindingChars (name : String) (value : Expr) : List Char :=
  name.toList ++ ' ' :: '=' :: ' ' :: (value.dump.toList ++ [')'])

/-- What follows the start of the node. -/
def contents : Expr → List Char
  | .variable name => name.toList ++ [')']
  | .number value => value.render.toList ++ [')']
  | .string text | .whitespace text => (Text.quote text).toList ++ [')']
  | .boolean value => (if value then "true" else "false").toList ++ [')']
  | .null => []
  | .not inner => inner.dump.toList ++ [')']
  | .arith op left right => operandChars left op.symbol right
  | .compare op left right => operandChars left op.symbol right
  | .assign name value => bindingChars name value

theorem toList_dump (e : Expr) : e.dump.toList = e.nodeName.text.toList ++ e.contents := by
  -- each tree is unfolded by `show`: the equations of `dump` compute on its strings
  cases e with
  | «variable» name =>
    show ("Identifier(" ++ name ++ ")").toList = _
    simp [nodeName, NodeName.text, contents]
  | number value =>
    show ("Number(" ++ value.render ++ ")").toList = _
    simp [nodeName, NodeName.text, contents]
  | string text =>
    show ("String(" ++ Text.quote text ++ ")").toList = _
    simp [nodeName, NodeName.text, contents]
  | boolean value => cases value <;> decide
  | null => rfl
  | whitespace text =>
    show ("Whitespace(" ++ Text.quote text ++ ")").toList = _
    simp [nodeName, NodeName.text, contents]
  | not inner =>
    show ("Not(" ++ inner.dump ++ ")").toList = _
    simp [nodeName, NodeName.text, contents]
  | arith op left right =>
    show ("Binary(" ++ left.dump ++ " " ++ op.symbol ++ " " ++ right.dump ++ ")").toList = _
    simp [nodeName, NodeName.text, contents, operandChars]
  | compare op left right =>
    show ("Comparison(" ++ left.dump ++ " " ++ op.symbol ++ " " ++ right.dump ++ ")").toList = _
    simp [nodeName, NodeName.text, contents, operandChars]
  | assign name value =>
    show ("VariableAssign(" ++ name ++ " = " ++ value.dump ++ ")").toList = _
    simp [nodeName, NodeName.text, contents, bindingChars]

/-- Where two trees start alike, their nodes are the same. -/
theorem contents_of_dump {a b : Expr} {xs ys : List Char}
    (h : a.dump.toList ++ xs = b.dump.toList ++ ys) :
    a.nodeName = b.nodeName ∧ a.contents ++ xs = b.contents ++ ys := by
  rw [toList_dump, toList_dump, List.append_assoc, List.append_assoc] at h
  exact NodeName.prefixFree_text h

end Expr

theorem IsName.not_mem {name : String} (h : IsName name) {c : Char} (hc : c.isAlphanum = false) :
    c ∉ name.toList := by
  have halpha : c.isAlpha = false := by
    by_contra halpha
    rw [Lexeme.isAlphanum_of_isAlpha (by simpa using halpha)] at hc
    cases hc
  exact h.1.not_mem halpha hc

theorem ArithOp.blank_not_mem_symbol (op : ArithOp) : ' ' ∉ op.symbol.toList := by
  cases op <;> decide

theorem ArithOp.symbol_injective : Function.Injective ArithOp.symbol := by
  intro a b h
  cases a <;> cases b <;> simp [symbol, operator, Operator.symbol] at h ⊢

theorem CompareOp.blank_not_mem_symbol (op : CompareOp) : ' ' ∉ op.symbol.toList := by
  cases op <;> decide

theorem CompareOp.symbol_injective : Function.Injective CompareOp.symbol := by
  intro a b h
  cases a <;> cases b <;> simp [symbol, operator, Operator.symbol] at h ⊢

namespace Expr

/-- If the trees are written alike up to some point, they are equal and end there. -/
def ToldApart (a b : Expr) : Prop :=
  ∀ ⦃xs ys : List Char⦄, a.dump.toList ++ xs = b.dump.toList ++ ys → a.eqv b ∧ xs = ys

theorem closed_inj {s t : String} {xs ys : List Char} (hs : ')' ∉ s.toList) (ht : ')' ∉ t.toList)
    (h : s.toList ++ [')'] ++ xs = t.toList ++ [')'] ++ ys) : s = t ∧ xs = ys := by
  rw [List.append_assoc, List.append_assoc] at h
  obtain ⟨htext, hrest⟩ := until_inj hs ht h
  exact ⟨String.toList_injective htext, hrest⟩

theorem quoted_inj {s t : String} {xs ys : List Char}
    (h : (Text.quote s).toList ++ [')'] ++ xs = (Text.quote t).toList ++ [')'] ++ ys) :
    s = t ∧ xs = ys := by
  rw [List.append_assoc, List.append_assoc] at h
  obtain ⟨htext, hrest⟩ := Text.prefixFree_quote h
  exact ⟨htext, (List.cons.inj hrest).2⟩

theorem operandChars_inj {l r l' r' : Expr} {symbol symbol' : String} {xs ys : List Char}
    (hl : ToldApart l l') (hr : ToldApart r r') (hblank : ' ' ∉ symbol.toList)
    (hblank' : ' ' ∉ symbol'.toList)
    (h : operandChars l symbol r ++ xs = operandChars l' symbol' r' ++ ys) :
    l.eqv l' ∧ symbol = symbol' ∧ r.eqv r' ∧ xs = ys := by
  simp only [operandChars, List.append_assoc, List.cons_append, List.nil_append] at h
  obtain ⟨hleft, h⟩ := hl h
  obtain ⟨hsymbol, h⟩ := until_inj hblank hblank' (List.cons.inj h).2
  obtain ⟨hright, h⟩ := hr h
  exact ⟨hleft, String.toList_injective hsymbol, hright, (List.cons.inj h).2⟩

theorem bindingChars_inj {name name' : String} {value value' : Expr} {xs ys : List Char}
    (hname : IsName name) (hname' : IsName name') (hvalue : ToldApart value value')
    (h : bindingChars name value ++ xs = bindingChars name' value' ++ ys) :
    name = name' ∧ value.eqv value' ∧ xs = ys := by
  simp only [bindingChars, List.append_assoc, List.cons_append, List.nil_append] at h
  obtain ⟨htext, h⟩ := until_inj (hname.not_mem rfl) (hname'.not_mem rfl) h
  simp only [List.cons.injEq, true_and] at h
  obtain ⟨heqv, h⟩ := hvalue h
  exact ⟨String.toList_injective htext, heqv, (List.cons.inj h).2⟩

/-- **Expressions are told apart by what is written,** whatever follows, if their names and
    numbers can stand on a line. -/
theorem toldApart (a b : Expr) (ha : ∀ x ∈ a.atoms, x.Lexical) (hb : ∀ x ∈ b.atoms, x.Lexical) :
    ToldApart a b := by
  intro xs ys h
  -- the nodes are the same, so each case of `a` leaves one of `b`; the parts follow by induction
  obtain ⟨hnode, h⟩ := contents_of_dump h
  cases a with
  | «variable» name =>
    cases b with
    | «variable» name' =>
      have hname := (ha _ List.mem_cons_self).isName.not_mem (c := ')') rfl
      have hname' := (hb _ List.mem_cons_self).isName.not_mem (c := ')') rfl
      obtain ⟨htext, rfl⟩ := closed_inj hname hname' h
      exact ⟨decide_eq_true htext, rfl⟩
    | _ => cases hnode
  | number value =>
    cases b with
    | number value' =>
      have hvalue := (ha _ List.mem_cons_self).isWritable
      have hvalue' := (hb _ List.mem_cons_self).isWritable
      obtain ⟨htext, rfl⟩ := closed_inj (Binary64.paren_not_mem_render hvalue)
        (Binary64.paren_not_mem_render hvalue') h
      exact ⟨Binary64.eqv_of_render_eq hvalue hvalue' htext, rfl⟩
    | _ => cases hnode
  | string text =>
    cases b with
    | string text' =>
      obtain ⟨htext, rfl⟩ := quoted_inj h
      exact ⟨decide_eq_true htext, rfl⟩
    | _ => cases hnode
  | boolean value =>
    cases b with
    | boolean value' =>
      have hword : ∀ v : Bool, ')' ∉ (if v then "true" else "false").toList := by decide
      have hinj : ∀ v w : Bool,
          (if v then "true" else "false") = (if w then "true" else "false") → v = w := by decide
      obtain ⟨htext, rfl⟩ := closed_inj (hword value) (hword value') h
      exact ⟨decide_eq_true (hinj value value' htext), rfl⟩
    | _ => cases hnode
  | null =>
    cases b with
    | null => exact ⟨rfl, h⟩
    | _ => cases hnode
  | whitespace text =>
    cases b with
    | whitespace text' =>
      obtain ⟨htext, rfl⟩ := quoted_inj h
      exact ⟨decide_eq_true htext, rfl⟩
    | _ => cases hnode
  | not inner =>
    cases b with
    | not inner' =>
      rw [contents, contents, List.append_assoc, List.append_assoc] at h
      obtain ⟨hinner, h⟩ := toldApart inner inner' ha hb h
      exact ⟨hinner, (List.cons.inj h).2⟩
    | _ => cases hnode
  | arith op left right =>
    cases b with
    | arith op' left' right' =>
      obtain ⟨hal, har⟩ := List.forall_mem_append.mp ha
      obtain ⟨hbl, hbr⟩ := List.forall_mem_append.mp hb
      obtain ⟨hleft, hsymbol, hright, rfl⟩ := operandChars_inj
        (toldApart left left' hal hbl) (toldApart right right' har hbr)
        op.blank_not_mem_symbol op'.blank_not_mem_symbol h
      refine ⟨?_, rfl⟩
      simp [eqv, ArithOp.symbol_injective hsymbol, hleft, hright]
    | _ => cases hnode
  | compare op left right =>
    cases b with
    | compare op' left' right' =>
      obtain ⟨hal, har⟩ := List.forall_mem_append.mp ha
      obtain ⟨hbl, hbr⟩ := List.forall_mem_append.mp hb
      obtain ⟨hleft, hsymbol, hright, rfl⟩ := operandChars_inj
        (toldApart left left' hal hbl) (toldApart right right' har hbr)
        op.blank_not_mem_symbol op'.blank_not_mem_symbol h
      refine ⟨?_, rfl⟩
      simp [eqv, CompareOp.symbol_injective hsymbol, hleft, hright]
    | _ => cases hnode
  | assign name value =>
    cases b with
    | assign name' value' =>
      obtain ⟨hname, hvalue⟩ := List.forall_mem_cons.mp ha
      obtain ⟨hname', hvalue'⟩ := List.forall_mem_cons.mp hb
      obtain ⟨rfl, heqv, rfl⟩ := bindingChars_inj hname.isName hname'.isName
        (toldApart value value' hvalue hvalue') h
      refine ⟨?_, rfl⟩
      simp [eqv, heqv]
    | _ => cases hnode

theorem dump_congr {a b : Expr} (h : a.eqv b) : a.dump = b.dump := by
  fun_induction eqv a b with
  | case1 a b => rw [of_decide_eq_true h]
  | case2 x y => exact congrArg ("Number(" ++ · ++ ")") (Binary64.render_congr h)
  | case3 a b => rw [of_decide_eq_true h]
  | case4 a b => rw [of_decide_eq_true h]
  | case5 => rfl
  | case6 a b => rw [of_decide_eq_true h]
  | case7 a b ih => exact congrArg ("Not(" ++ · ++ ")") (ih h)
  | case8 op₁ l₁ r₁ op₂ l₂ r₂ ihl ihr =>
    simp only [Bool.and_eq_true, decide_eq_true_eq] at h
    obtain ⟨⟨rfl, hl⟩, hr⟩ := h
    show "Binary(" ++ l₁.dump ++ " " ++ op₁.symbol ++ " " ++ r₁.dump ++ ")" = _
    rw [ihl hl, ihr hr]
    rfl
  | case9 op₁ l₁ r₁ op₂ l₂ r₂ ihl ihr =>
    simp only [Bool.and_eq_true, decide_eq_true_eq] at h
    obtain ⟨⟨rfl, hl⟩, hr⟩ := h
    show "Comparison(" ++ l₁.dump ++ " " ++ op₁.symbol ++ " " ++ r₁.dump ++ ")" = _
    rw [ihl hl, ihr hr]
    rfl
  | case10 n₁ v₁ n₂ v₂ ih =>
    simp only [Bool.and_eq_true, decide_eq_true_eq] at h
    obtain ⟨rfl, hv⟩ := h
    exact congrArg ("VariableAssign(" ++ n₁ ++ " = " ++ · ++ ")") (ih hv)
  | case11 => cases h

end Expr

/-! ### Statements and programs -/

namespace Statement

def nodeName : Statement → NodeName
  | .program _ => .program
  | .declare _ _ => .declaration
  | .expr e => e.nodeName

def contents : Statement → List Char
  | .program body => (Program.dumpLines body).toList ++ ['\x7d']
  | .declare name value => Expr.bindingChars name value
  | .expr e => e.contents

theorem toList_dump (s : Statement) : s.dump.toList = s.nodeName.text.toList ++ s.contents := by
  cases s with
  | program body =>
    show ("Program \x7b\n" ++ Program.dumpLines body ++ "\x7d").toList = _
    simp [nodeName, NodeName.text, contents]
  | declare name value =>
    show ("VariableDeclaration(" ++ name ++ " = " ++ value.dump ++ ")").toList = _
    simp [nodeName, NodeName.text, contents, Expr.bindingChars]
  | expr e => exact e.toList_dump

theorem contents_of_dump {s t : Statement} {xs ys : List Char}
    (h : s.dump.toList ++ xs = t.dump.toList ++ ys) :
    s.nodeName = t.nodeName ∧ s.contents ++ xs = t.contents ++ ys := by
  rw [toList_dump, toList_dump, List.append_assoc, List.append_assoc] at h
  exact NodeName.prefixFree_text h

end Statement

theorem Expr.nodeName_ne (e : Expr) : e.nodeName ≠ .declaration ∧ e.nodeName ≠ .program := by
  cases e <;> exact ⟨nofun, nofun⟩

theorem Program.toList_dumpLines_cons (s : Statement) (rest : List Statement) :
    (dumpLines (s :: rest)).toList =
      ' ' :: ' ' :: (s.dump.toList ++ '\n' :: (dumpLines rest).toList) := by
  rw [dumpLines]
  simp

mutual

/-- Statements are told apart by what is written, whatever follows. -/
theorem Statement.eqv_of_dump_append (s t : Statement) (hs : ∀ x ∈ s.atoms, x.Lexical)
    (ht : ∀ x ∈ t.atoms, x.Lexical) {xs ys : List Char}
    (h : s.dump.toList ++ xs = t.dump.toList ++ ys) : s.eqv t ∧ xs = ys := by
  obtain ⟨hnode, hcontents⟩ := Statement.contents_of_dump h
  cases s with
  | program body =>
    cases t with
    | program body' =>
      simp only [Statement.contents, List.append_assoc, List.cons_append, List.nil_append]
        at hcontents
      exact Program.eqv_of_dumpLines_append body body' hs ht hcontents
    | declare => cases hnode
    | expr b => exact absurd hnode.symm b.nodeName_ne.2
  | declare name value =>
    cases t with
    | program => cases hnode
    | declare name' value' =>
      obtain ⟨hname, hvalue⟩ := List.forall_mem_cons.mp hs
      obtain ⟨hname', hvalue'⟩ := List.forall_mem_cons.mp ht
      obtain ⟨rfl, heqv, rfl⟩ := Expr.bindingChars_inj hname.isName hname'.isName
        (Expr.toldApart value value' hvalue hvalue') hcontents
      refine ⟨?_, rfl⟩
      simp [Statement.eqv, heqv]
    | expr b => exact absurd hnode.symm b.nodeName_ne.1
  | expr a =>
    cases t with
    | program => exact absurd hnode a.nodeName_ne.2
    | declare => exact absurd hnode a.nodeName_ne.1
    | expr b => exact Expr.toldApart a b hs ht h

/-- Lists of statements are told apart up to the brace that ends them. -/
theorem Program.eqv_of_dumpLines_append (p q : List Statement)
    (hp : ∀ x ∈ Program.atoms p, x.Lexical) (hq : ∀ x ∈ Program.atoms q, x.Lexical)
    {xs ys : List Char}
    (h : (Program.dumpLines p).toList ++ '\x7d' :: xs =
      (Program.dumpLines q).toList ++ '\x7d' :: ys) :
    Program.eqv p q ∧ xs = ys := by
  match p, q with
  | [], [] => exact ⟨rfl, (List.cons.inj h).2⟩
  | [], t :: q =>
    rw [Program.toList_dumpLines_cons] at h
    exact absurd (List.cons.inj h).1 (by decide)
  | s :: p, [] =>
    rw [Program.toList_dumpLines_cons] at h
    exact absurd (List.cons.inj h).1 (by decide)
  | s :: p, t :: q =>
    obtain ⟨hs, hp⟩ := List.forall_mem_append.mp hp
    obtain ⟨ht, hq⟩ := List.forall_mem_append.mp hq
    rw [Program.toList_dumpLines_cons, Program.toList_dumpLines_cons] at h
    simp only [List.cons_append, List.append_assoc, List.cons.injEq, true_and] at h
    obtain ⟨hst, h⟩ := Statement.eqv_of_dump_append s t hs ht h
    obtain ⟨hpq, rfl⟩ := Program.eqv_of_dumpLines_append p q hp hq (List.cons.inj h).2
    refine ⟨?_, rfl⟩
    simp [Program.eqv, hst, hpq]

end

mutual

theorem Statement.dump_congr (s t : Statement) (h : s.eqv t) : s.dump = t.dump := by
  match s, t with
  | .program body, .program body' =>
    exact congrArg ("Program \x7b\n" ++ · ++ "\x7d") (Program.dumpLines_congr body body' h)
  | .declare name value, .declare name' value' =>
    simp only [Statement.eqv, Bool.and_eq_true, decide_eq_true_eq] at h
    obtain ⟨rfl, hvalue⟩ := h
    exact congrArg ("VariableDeclaration(" ++ name ++ " = " ++ · ++ ")") (Expr.dump_congr hvalue)
  | .expr a, .expr b => exact Expr.dump_congr h
  | .expr _, .declare _ _ | .expr _, .program _ | .declare _ _, .expr _ => cases h
  | .declare _ _, .program _ | .program _, .expr _ | .program _, .declare _ _ => cases h

theorem Program.dumpLines_congr (p q : List Statement) (h : Program.eqv p q) :
    Program.dumpLines p = Program.dumpLines q := by
  match p, q with
  | [], [] => rfl
  | s :: p, t :: q =>
    simp only [Program.eqv, Bool.and_eq_true] at h
    rw [Program.dumpLines, Program.dumpLines, Statement.dump_congr s t h.1,
      Program.dumpLines_congr p q h.2]
  | [], _ :: _ | _ :: _, [] => cases h

end

/-- Programs whose names and numbers can stand on a line are written alike exactly if they
    are equal. -/
theorem Program.dump_eq_dump_iff {p q : Program} (hp : ∀ x ∈ Program.atoms p, x.Lexical)
    (hq : ∀ x ∈ Program.atoms q, x.Lexical) : p.dump = q.dump ↔ Program.eqv p q := by
  constructor
  · intro h
    rw [Program.dump, Program.dump] at h
    have hlines := congrArg String.toList h
    simp only [String.toList_append, List.append_assoc] at hlines
    exact (Program.eqv_of_dumpLines_append p q hp hq (List.append_cancel_left hlines)).1
  · intro h
    rw [Program.dump, Program.dump, Program.dumpLines_congr p q h]

namespace Session

/-- **Trees can be told from how they are written.**  The programs of two lines are written
    alike exactly if they are equal, where numbers are compared by value; and no two numbers
    are equal without being the same, but for the zeros. -/
theorem dump_unambiguous {line₁ line₂ : String} {p q : Program} (hp : parseLine line₁ = .ok p)
    (hq : parseLine line₂ = .ok q) :
    (p.dump = q.dump ↔ Program.eqv p q) ∧
      ∀ x y : Binary64, x.eqv y → x = y ∨ ∃ m n, x = .zero m ∧ y = .zero n :=
  ⟨Program.dump_eq_dump_iff (lexical_of_parseLine hp) (lexical_of_parseLine hq),
    fun _ _ h => Binary64.eq_or_zero_of_eqv h⟩

/-- A zero deep in a declaration, beside a text whose written form needs escapes. -/
def withZero (negative : Bool) : Program :=
  [.declare "x" (.arith .sub (.number (.zero negative))
    (.compare .notEqual (.string "\") - Null\n") (.assign "y" .null)))]

/-- Zeros of either sign are written alike, in different programs. -/
theorem dump_zeros :
    parseLine "set x = (0-(\"\\\") - Null\n\"!=(y=null)))" = .ok (withZero false) ∧
    parseLine "set x = ((-0)-(\"\\\") - Null\n\"!=(y=null)))" = .ok (withZero true) ∧
    withZero false ≠ withZero true ∧ (withZero false).dump = (withZero true).dump := by
  have hexpressible (negative : Bool) : (withZero negative).Expressible := by
    have hx : IsName "x" := isName_letter (c := 'x') rfl
    have hy : IsName "y" := isName_letter (c := 'y') rfl
    simp [withZero, Program.Expressible, Statement.Expressible, Expr.Expressible, Binary64.zero,
      Binary64.isIntegral, hx, hy]
  have hsource : (withZero false).source 0 = "set x = (0-(\"\\\") - Null\n\"!=(y=null)))" := by
    decide +kernel
  have hsource' : (withZero true).source 0 = "set x = ((-0)-(\"\\\") - Null\n\"!=(y=null)))" := by
    decide +kernel
  have hline := hsource ▸ parseLine_of_expressible 0 (hexpressible false)
  have hline' := hsource' ▸ parseLine_of_expressible 0 (hexpressible true)
  refine ⟨hline, hline', by simp [withZero, Binary64.zero], ?_⟩
  exact (dump_unambiguous hline hline').1.mpr (by decide +kernel)

end Session

end LineCalc
