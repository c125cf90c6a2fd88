/-
  LineCalc/Proofs/Kinds.lean
  ==========================
  **Kinds are settled before a program runs.**  The kind of the result, and the kinds of
  all variables afterwards, follow from the kinds of the variables before.

  `Program.HasKind` gives the rules.  A variable may change its kind in the middle of an
  expression, so a rule says which kinds it starts from and which it leaves, and those an
  operand leaves are those the next one starts from.  The rules are exact: a program
  succeeds if and only if they give it a kind, and then with a value of that kind.
-/
import LineCalc.Proofs.TwoRuns
import Mathlib.Logic.Function.Basic

namespace LineCalc

/-- The kinds of the variables that are declared. -/
abbrev Kinds := String → Option Value.Kind

def Env.kinds (env : Env) : Kinds := fun x => (env.get? x).map Value.kind

/-! ### The rules -/

/-- The kinds that count as numbers. -/
def Value.Kind.isNumeric : Value.Kind → Bool
  | .number | .boolean => true
  | .null | .string => false

/-- The kind that arithmetic gives. -/
def Value.Kind.arith (left right : Value.Kind) : Value.Kind :=
  if left.isNumeric && right.isNumeric then .number else .null

/-- With variables of kinds `Γ` the expression has kind `k`, and leaves the last kinds. -/
inductive Expr.HasKind : Kinds → Expr → Value.Kind → Kinds → Prop where
  | number {Γ : Kinds} {value : Binary64} : HasKind Γ (.number value) .number Γ
  | string {Γ : Kinds} {text : String} : HasKind Γ (.string text) .string Γ
  | boolean {Γ : Kinds} {value : Bool} : HasKind Γ (.boolean value) .boolean Γ
  | null {Γ : Kinds} : HasKind Γ .null .null Γ
  | variable {Γ : Kinds} {name : String} {k : Value.Kind} :
      Γ name = some k → HasKind Γ (.variable name) k Γ
  | arith {Γ Γ₁ Γ₂ : Kinds} {op : ArithOp} {left right : Expr} {k₁ k₂ : Value.Kind} :
      HasKind Γ left k₁ Γ₁ → HasKind Γ₁ right k₂ Γ₂ →
      HasKind Γ (.arith op left right) (k₁.arith k₂) Γ₂
  | compare {Γ Γ₁ Γ₂ : Kinds} {op : CompareOp} {left right : Expr} {k₁ k₂ : Value.Kind} :
      HasKind Γ left k₁ Γ₁ → HasKind Γ₁ right k₂ Γ₂ →
      HasKind Γ (.compare op left right) .boolean Γ₂
  | assign {Γ Γ₁ : Kinds} {name : String} {value : Expr} {k : Value.Kind} :
      HasKind Γ value k Γ₁ → Γ₁ name ≠ none →
      HasKind Γ (.assign name value) k (Function.update Γ₁ name (some k))

mutual

inductive Statement.HasKind : Kinds → Statement → Value.Kind → Kinds → Prop where
  | program {Γ Γ₁ : Kinds} {body : List Statement} {k : Value.Kind} :
      Program.HasKind .null Γ body k Γ₁ → Statement.HasKind Γ (.program body) k Γ₁
  | declare {Γ Γ₁ : Kinds} {name : String} {value : Expr} {k : Value.Kind} :
      value.HasKind Γ k Γ₁ → Γ₁ name = none →
      Statement.HasKind Γ (.declare name value) k (Function.update Γ₁ name (some k))
  | expr {Γ Γ₁ : Kinds} {e : Expr} {k : Value.Kind} :
      e.HasKind Γ k Γ₁ → Statement.HasKind Γ (.expr e) k Γ₁

/-- The kind of the last statement, the first argument if there is none. -/
inductive Program.HasKind : Value.Kind → Kinds → List Statement → Value.Kind → Kinds → Prop where
  | nil {Γ : Kinds} {last : Value.Kind} : Program.HasKind last Γ [] last Γ
  | cons {Γ Γ₁ Γ₂ : Kinds} {s : Statement} {rest : List Statement} {last k k' : Value.Kind} :
      s.HasKind Γ k Γ₁ → Program.HasKind k Γ₁ rest k' Γ₂ →
      Program.HasKind last Γ (s :: rest) k' Γ₂

end

/-! ### Kinds of values and variables -/

theorem Value.isSome_toNumber? (v : Value) : v.toNumber?.isSome = v.kind.isNumeric := by
  cases v with
  | boolean value => cases value <;> rfl
  | null | number | string => rfl

theorem ArithOp.kind_eval (op : ArithOp) (l r : Value) :
    (op.eval l r).kind = l.kind.arith r.kind := by
  unfold ArithOp.eval Value.Kind.arith
  rw [← Value.isSome_toNumber? l, ← Value.isSome_toNumber? r]
  cases l.toNumber? with
  | none => rfl
  | some x => cases r.toNumber? <;> rfl

theorem CompareOp.kind_eval (op : CompareOp) (l r : Value) :
    (op.eval l r).kind = .boolean := by
  unfold CompareOp.eval
  split
  · rfl
  · split <;> rfl

theorem Value.respected_kind : Value.Respected Value.kind where
  arith op _ _ _ _ hl hr := by rw [op.kind_eval, op.kind_eval, hl, hr]
  compare op _ _ _ _ _ _ := by rw [op.kind_eval, op.kind_eval]

namespace Env

theorem alikeOn_kind_iff {a b : Env} :
    AlikeOn Value.kind Set.univ a b ↔ a.kinds = b.kinds := by
  constructor
  · intro h
    funext x
    exact h x (Set.mem_univ x)
  · intro h x _
    exact congrFun h x

theorem kinds_eq_none_iff {env : Env} {name : String} :
    env.kinds name = none ↔ name ∉ env.names := by
  unfold kinds
  rw [Option.map_eq_none_iff, get?_eq_none_iff]

theorem kinds_write {env env' : Env} {name : String} {v : Value}
    (h : ∀ x, env'.get? x = if x = name then some v else env.get? x) :
    env'.kinds = Function.update env.kinds name (some v.kind) := by
  funext x
  unfold kinds
  rw [h, Function.update_apply]
  by_cases hx : x = name
  · rw [if_pos hx, if_pos hx, Option.map_some]
  · rw [if_neg hx, if_neg hx]

theorem kinds_of_define {env env' : Env} {name : String} {v : Value}
    (h : env.define name v = .ok env') :
    env'.kinds = Function.update env.kinds name (some v.kind) :=
  kinds_write (get?_of_define h)

theorem kinds_of_assign {env env' : Env} {name : String} {v : Value}
    (h : env.assign name v = .ok env') :
    env'.kinds = Function.update env.kinds name (some v.kind) :=
  kinds_write (get?_of_assign h)

end Env

namespace Eval

variable {env env' : Env} {v : Value}

theorem lookup_eq_ok_iff {name : String} :
    lookup name env = .ok v env' ↔ env.get? name = some v ∧ env' = env := by
  cases hget : env.get? name with
  | none => simp [lookup_of_none hget]
  | some w => simp [lookup_of_some hget, eq_comm]

/-- A value that is computed, written and given back. -/
theorem store_eq_ok_iff {m : Eval Value} {g : Value → Env → Except EvalError Env} :
    (m >>= fun v => update (g v) >>= fun _ => pure v) env = .ok v env' ↔
      ∃ mid, m env = .ok v mid ∧ g v mid = .ok env' := by
  rw [Session.bind_eq_ok_iff]
  constructor
  · rintro ⟨w, mid, hm, hstore⟩
    obtain ⟨u, next, hupdate, hpure⟩ := Session.bind_eq_ok_iff.mp hstore
    cases hpure
    cases hg : g v mid with
    | ok written =>
      rw [update_of_ok hg] at hupdate
      cases hupdate
      exact ⟨mid, hm, hg⟩
    | error e =>
      rw [update_of_error hg] at hupdate
      cases hupdate
  · rintro ⟨mid, hm, hg⟩
    exact ⟨v, mid, hm, Session.bind_eq_ok_iff.mpr ⟨(), env', update_of_ok hg, rfl⟩⟩

end Eval

/-! ### A run that succeeds follows the rules -/

theorem Expr.hasKind_of_eval {e : Expr} {env env' : Env} {v : Value}
    (h : e.eval env = .ok v env') : e.HasKind env.kinds v.kind env'.kinds := by
  induction e generalizing env env' v with
  | «variable» name =>
    obtain ⟨hget, rfl⟩ := Eval.lookup_eq_ok_iff.mp h
    exact .variable (by rw [Env.kinds, hget, Option.map_some])
  | number value => cases h; exact .number
  | string text => cases h; exact .string
  | boolean value => cases h; exact .boolean
  | null => cases h; exact .null
  | whitespace | not => cases h
  | arith op left right ihl ihr =>
    obtain ⟨l, mid, hl, hrest⟩ := Session.bind_eq_ok_iff.mp h
    obtain ⟨r, next, hr, hpure⟩ := Session.bind_eq_ok_iff.mp hrest
    cases hpure
    rw [op.kind_eval]
    exact .arith (ihl hl) (ihr hr)
  | compare op left right ihl ihr =>
    obtain ⟨l, mid, hl, hrest⟩ := Session.bind_eq_ok_iff.mp h
    obtain ⟨r, next, hr, hpure⟩ := Session.bind_eq_ok_iff.mp hrest
    cases hpure
    rw [op.kind_eval]
    exact .compare (ihl hl) (ihr hr)
  | assign name value ih =>
    obtain ⟨mid, hvalue, hassign⟩ := Eval.store_eq_ok_iff.mp h
    have hdeclared : mid.kinds name ≠ none := fun hnone =>
      Env.kinds_eq_none_iff.mp hnone (Env.assign_eq_ok hassign).1
    rw [Env.kinds_of_assign hassign]
    exact .assign (ih hvalue) hdeclared

mutual

theorem Statement.hasKind_of_eval {s : Statement} {env env' : Env} {v : Value}
    (h : s.eval env = .ok v env') : s.HasKind env.kinds v.kind env'.kinds := by
  cases s with
  | program body =>
    rw [Statement.eval] at h
    exact .program (Program.hasKind_of_evalFrom h)
  | declare name value =>
    rw [Statement.eval] at h
    obtain ⟨mid, hvalue, hdefine⟩ := Eval.store_eq_ok_iff.mp h
    rw [Env.kinds_of_define hdefine]
    exact .declare (Expr.hasKind_of_eval hvalue)
      (Env.kinds_eq_none_iff.mpr (Env.define_eq_ok hdefine).1)
  | expr e =>
    rw [Statement.eval] at h
    exact .expr (Expr.hasKind_of_eval h)

theorem Program.hasKind_of_evalFrom {p : List Statement} {last v : Value} {env env' : Env}
    (h : Program.evalFrom last p env = .ok v env') :
    Program.HasKind last.kind env.kinds p v.kind env'.kinds := by
  cases p with
  | nil =>
    rw [Program.evalFrom] at h
    cases h
    exact .nil
  | cons s rest =>
    rw [Program.evalFrom] at h
    obtain ⟨u, mid, hs, hrest⟩ := Session.bind_eq_ok_iff.mp h
    exact .cons (Statement.hasKind_of_eval hs) (Program.hasKind_of_evalFrom hrest)

end

/-! ### What has a kind succeeds -/

/-- The computation succeeds with a value of this kind and leaves these kinds. -/
def Eval.Gives (m : Eval Value) (env : Env) (k : Value.Kind) (Γ : Kinds) : Prop :=
  ∃ v env', m env = .ok v env' ∧ v.kind = k ∧ env'.kinds = Γ

theorem Expr.gives_of_hasKind {e : Expr} {Γ Γ' : Kinds} {k : Value.Kind} (h : e.HasKind Γ k Γ')
    {env : Env} (henv : env.kinds = Γ) : Eval.Gives e.eval env k Γ' := by
  induction h generalizing env with
  | number | string | boolean | null => exact ⟨_, env, rfl, rfl, henv⟩
  | «variable» hname =>
    subst henv
    obtain ⟨v, hget, hkind⟩ := Option.map_eq_some_iff.mp hname
    exact ⟨v, env, Eval.lookup_eq_ok_iff.mpr ⟨hget, rfl⟩, hkind, rfl⟩
  | @arith _ _ _ op _ _ _ _ _ _ ihl ihr =>
    obtain ⟨l, mid, hl, rfl, hmid⟩ := ihl henv
    obtain ⟨r, next, hr, rfl, hnext⟩ := ihr hmid
    refine ⟨op.eval l r, next, ?_, op.kind_eval l r, hnext⟩
    rw [Expr.eval, Session.bind_of_ok hl, Session.bind_of_ok hr]
    rfl
  | @compare _ _ _ op _ _ _ _ _ _ ihl ihr =>
    obtain ⟨l, mid, hl, -, hmid⟩ := ihl henv
    obtain ⟨r, next, hr, -, hnext⟩ := ihr hmid
    refine ⟨op.eval l r, next, ?_, op.kind_eval l r, hnext⟩
    rw [Expr.eval, Session.bind_of_ok hl, Session.bind_of_ok hr]
    rfl
  | @assign _ _ name _ _ _ hname ih =>
    obtain ⟨v, mid, hvalue, rfl, rfl⟩ := ih henv
    have hmem : name ∈ mid.names := by
      by_contra hmem
      exact hname (Env.kinds_eq_none_iff.mpr hmem)
    obtain ⟨env', hassign⟩ := Env.exists_assign_of_mem hmem v
    exact ⟨v, env', Eval.store_eq_ok_iff.mpr ⟨mid, hvalue, hassign⟩, rfl,
      Env.kinds_of_assign hassign⟩

mutual

theorem Statement.gives_of_hasKind {s : Statement} {env : Env} {k : Value.Kind} {Γ : Kinds}
    (h : s.HasKind env.kinds k Γ) : Eval.Gives s.eval env k Γ := by
  cases s with
  | program body =>
    cases h with
    | program hbody =>
      rw [Statement.eval]
      exact Program.gives_of_hasKind .null hbody
  | declare name value =>
    cases h with
    | declare hvalue hname =>
      obtain ⟨v, mid, heval, rfl, rfl⟩ := Expr.gives_of_hasKind hvalue rfl
      obtain ⟨env', hdefine⟩ :=
        Env.exists_define_of_not_mem (Env.kinds_eq_none_iff.mp hname) v
      rw [Statement.eval]
      exact ⟨v, env', Eval.store_eq_ok_iff.mpr ⟨mid, heval, hdefine⟩, rfl,
        Env.kinds_of_define hdefine⟩
  | expr e =>
    cases h with
    | expr he =>
      rw [Statement.eval]
      exact Expr.gives_of_hasKind he rfl

theorem Program.gives_of_hasKind {p : List Statement} {env : Env} (last : Value)
    {k : Value.Kind} {Γ : Kinds} (h : Program.HasKind last.kind env.kinds p k Γ) :
    Eval.Gives (Program.evalFrom last p) env k Γ := by
  cases p with
  | nil =>
    cases h
    rw [Program.evalFrom]
    exact ⟨last, env, rfl, rfl, rfl⟩
  | cons s rest =>
    cases h with
    | cons hs hrest =>
      obtain ⟨u, mid, heval, rfl, rfl⟩ := Statement.gives_of_hasKind hs
      obtain ⟨v, env', hlast, hkind, hkinds⟩ := Program.gives_of_hasKind u hrest
      rw [Program.evalFrom]
      exact ⟨v, env', Session.bind_eq_ok_iff.mpr ⟨u, mid, heval, hlast⟩, hkind, hkinds⟩

end

theorem Program.gives_iff_hasKind {p : Program} {env : Env} {k : Value.Kind} {Γ : Kinds} :
    Eval.Gives p.eval env k Γ ↔ Program.HasKind .null env.kinds p k Γ := by
  constructor
  · rintro ⟨v, env', h, rfl, rfl⟩
    exact Program.hasKind_of_evalFrom h
  · intro h
    exact Program.gives_of_hasKind .null h

/-! ### Two runs -/

open Session (leaves)

/-- **Kinds are settled before a program runs.**  From variables of the same kinds a program
    leaves variables of the same kinds, whether it fails or not; it succeeds both times
    or neither, with values of one kind, and which kind that is follows from the rules. -/
theorem Program.kind_depends_on_kinds (p : Program) {a b : Env} (h : a.kinds = b.kinds) :
    (leaves (p.eval a)).kinds = (leaves (p.eval b)).kinds ∧
      (∀ v a', p.eval a = .ok v a' → ∃ w b', p.eval b = .ok w b' ∧ v.kind = w.kind) ∧
      ∀ k Γ, (∃ v a', p.eval a = .ok v a' ∧ v.kind = k ∧ a'.kinds = Γ) ↔
        Program.HasKind .null a.kinds p k Γ := by
  have houtcome := Program.parallel_eval Value.respected_kind p (fun x _ => Set.mem_univ x) a b
    (Env.alikeOn_kind_iff.mpr h)
  refine ⟨Env.alikeOn_kind_iff.mp houtcome.leaves, ?_, fun k Γ => Program.gives_iff_hasKind⟩
  intro v a' heval
  rw [heval] at houtcome
  generalize p.eval b = right at houtcome
  cases houtcome with
  | ok hkind _ => exact ⟨_, _, rfl, hkind⟩

/-- `x` is true in one run and false in the other, and becomes a text halfway through the
    sum that `y` is declared with, so that the sum is null and not a number. -/
theorem Program.kind_depends_on_kinds_halfway :
    let p : Program :=
      [.declare "y" (.arith .add (.compare .equal (.variable "x") (.boolean true))
        (.assign "x" (.string "s")))]
    let a : Env := ⟨[("x", .boolean true)], by decide⟩
    let b : Env := ⟨[("x", .boolean false)], by decide⟩
    a.kinds = b.kinds ∧ (leaves (p.eval a)).kinds = (leaves (p.eval b)).kinds ∧
      (leaves (p.eval a)).kinds "x" = some .string ∧
      Program.HasKind .null a.kinds p .null (leaves (p.eval a)).kinds := by
  intro p a b
  have hkinds : a.kinds = b.kinds := by
    funext x
    simp only [Env.kinds, Env.get?, a, b, Env.lookup_cons]
    by_cases hx : x = "x"
    · rw [if_pos hx, if_pos hx]
      rfl
    · rw [if_neg hx, if_neg hx]
  obtain ⟨hleaves, -, hrules⟩ := p.kind_depends_on_kinds hkinds
  exact ⟨hkinds, hleaves, rfl, (hrules .null _).mp ⟨.null, _, rfl, rfl, rfl⟩⟩

end LineCalc
