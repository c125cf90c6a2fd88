/-
  LineCalc/Proofs/Locality.lean
  =============================
  **Programs are local to their names.**  What a program answers, and what it leaves at its
  names, depends on nothing but the variables of these names; every other variable is
  left as it was.  Both hold of failing runs too.

  Programs without a name in common therefore do not notice each other: run in either
  order, each has the answer it would have alone, and the variables end up the same.
-/
import LineCalc.Proofs.FailedLines
import LineCalc.Proofs.TwoRuns
import Mathlib.Data.List.Nodup

namespace LineCalc

open Eval
open Session (leaves)

/-! ### What a program does not mention -/

theorem Expr.mem_names_of_mem_targets {e : Expr} {x : String} (h : x ∈ e.targets) :
    x ∈ e.names := by
  induction e with
  | «variable» | number | string | boolean | null | whitespace => cases h
  | not inner ih => exact ih h
  | arith op left right ihl ihr | compare op left right ihl ihr =>
    rcases List.mem_append.mp h with hl | hr
    · exact List.mem_append_left _ (ihl hl)
    · exact List.mem_append_right _ (ihr hr)
  | assign name value ih =>
    rcases List.mem_cons.mp h with rfl | hvalue
    · exact List.mem_cons_self
    · exact List.mem_cons_of_mem _ (ih hvalue)

theorem Eval.keeps_get?_define {name x : String} (hx : x ≠ name) (value : Value) :
    Keeps (·.get? x) (define name value) := by
  apply keeps_update
  intro env env' h
  show env'.get? x = env.get? x
  rw [Env.get?_of_define h, if_neg hx]

theorem Expr.keeps_get? {e : Expr} {x : String} (hx : x ∉ e.names) :
    Keeps (·.get? x) e.eval := by
  apply e.keeps_eval
  intro name hname value
  apply keeps_get?_assign
  rintro rfl
  exact hx (Expr.mem_names_of_mem_targets hname)

mutual

theorem Statement.keeps_get? {s : Statement} {x : String} (hx : x ∉ s.names) :
    Keeps (·.get? x) s.eval := by
  cases s with
  | program body =>
    rw [Statement.names] at hx
    rw [Statement.eval]
    exact Program.keeps_get?_evalFrom .null hx
  | declare name value =>
    rw [Statement.names, List.mem_cons, not_or] at hx
    rw [Statement.eval]
    exact (Expr.keeps_get? hx.2).bind fun v =>
      (keeps_get?_define hx.1 v).bind fun _ => keeps_pure v
  | expr e =>
    rw [Statement.names] at hx
    rw [Statement.eval]
    exact Expr.keeps_get? hx

theorem Program.keeps_get?_evalFrom {p : List Statement} {x : String} (last : Value)
    (hx : x ∉ Program.names p) : Keeps (·.get? x) (Program.evalFrom last p) := by
  cases p with
  | nil =>
    rw [Program.evalFrom]
    exact keeps_pure last
  | cons s rest =>
    rw [Program.names, List.mem_append, not_or] at hx
    rw [Program.evalFrom]
    exact (Statement.keeps_get? hx.1).bind fun v => Program.keeps_get?_evalFrom v hx.2

end

/-- A variable that the program does not name is left as it was. -/
theorem Program.get?_leaves {p : Program} {x : String} (hx : x ∉ Program.names p) (env : Env) :
    (leaves (p.eval env)).get? x = env.get? x :=
  Program.keeps_get?_evalFrom .null hx env

/-! ### What a program depends on -/

/-- The value or the error of a result, without the variables. -/
def Eval.answer {α : Type} : EStateM.Result EvalError Env α → Except EvalError α
  | .ok value _ => .ok value
  | .error error _ => .error error

namespace Env

/-- The same variables with the same values at these names. -/
def AgreeOn (names : List String) (a b : Env) : Prop := ∀ x ∈ names, a.get? x = b.get? x

theorem alikeOn_id_iff {names : List String} {a b : Env} :
    AlikeOn id {x | x ∈ names} a b ↔ AgreeOn names a b := by
  constructor
  · intro h x hx
    simpa using h x hx
  · intro h x hx
    rw [h x hx]

/-- The same variables with the same values, declared in whatever order. -/
structure Same (a b : Env) : Prop where
  size : a.size = b.size
  values : ∀ x, a.get? x = b.get? x

theorem same_of_get? {a b : Env} (h : ∀ x, a.get? x = b.get? x) : Same a b := by
  refine ⟨?_, h⟩
  have hmem : ∀ x, x ∈ a.names ↔ x ∈ b.names := by
    intro x
    rw [← not_iff_not, ← get?_eq_none_iff, ← get?_eq_none_iff, h x]
  have hperm : a.names.Perm b.names := (List.perm_ext_iff_of_nodup a.nodup b.nodup).mpr hmem
  simpa [size, names] using hperm.length_eq

end Env

/-- The view that shows the whole value. -/
theorem Value.respected_id : Value.Respected (id : Value → Value) where
  arith op _ _ _ _ hl hr := by rw [id_eq, id_eq] at hl hr; rw [hl, hr]
  compare op _ _ _ _ hl hr := by rw [id_eq, id_eq] at hl hr; rw [hl, hr]

theorem Program.eval_of_agreeOn {p : Program} {a b : Env}
    (h : Env.AgreeOn (Program.names p) a b) :
    answer (p.eval a) = answer (p.eval b) ∧
      Env.AgreeOn (Program.names p) (leaves (p.eval a)) (leaves (p.eval b)) := by
  have hparallel : Parallel id {x | x ∈ Program.names p} (fun v w => id v = id w) p.eval p.eval :=
    Program.parallel_eval Value.respected_id p fun _ hx => hx
  have houtcome := hparallel a b (Env.alikeOn_id_iff.mpr h)
  refine ⟨?_, Env.alikeOn_id_iff.mp houtcome.leaves⟩
  generalize p.eval a = left at houtcome ⊢
  generalize p.eval b = right at houtcome ⊢
  cases houtcome with
  | ok hvalue _ => exact congrArg Except.ok hvalue
  | error _ => rfl

/-! ### Programs without a name in common -/

/-- A program does not notice that another one with other names has run before. -/
theorem Program.eval_after_disjoint {p q : Program}
    (h : (Program.names p).Disjoint (Program.names q)) (env : Env) :
    answer (q.eval (leaves (p.eval env))) = answer (q.eval env) ∧
      Env.AgreeOn (Program.names q) (leaves (q.eval (leaves (p.eval env))))
        (leaves (q.eval env)) := by
  apply Program.eval_of_agreeOn
  intro x hx
  exact Program.get?_leaves (fun hp => h hp hx) env

theorem Program.same_leaves {p q : Program}
    (h : (Program.names p).Disjoint (Program.names q)) (env : Env) :
    Env.Same (leaves (q.eval (leaves (p.eval env)))) (leaves (p.eval (leaves (q.eval env)))) := by
  apply Env.same_of_get?
  intro x
  by_cases hp : x ∈ Program.names p
  · -- `q` leaves it alone, before `p` and after
    have hq : x ∉ Program.names q := fun hq => h hp hq
    have hagree := (Program.eval_after_disjoint (List.disjoint_symm h) env).2
    rw [Program.get?_leaves hq, hagree x hp]
  · rw [Program.get?_leaves hp]
    by_cases hq : x ∈ Program.names q
    · exact (Program.eval_after_disjoint h env).2 x hq
    · rw [Program.get?_leaves hq, Program.get?_leaves hp, Program.get?_leaves hq]

/-- **Programs are local to their names.**  From variables that agree on its names a program
    has the same answer and leaves variables that agree on them; it leaves all others
    as they were; and it can change places with a program that has other names. -/
theorem Program.local_to_names (p : Program) :
    (∀ a b, Env.AgreeOn (Program.names p) a b →
      answer (p.eval a) = answer (p.eval b) ∧
        Env.AgreeOn (Program.names p) (leaves (p.eval a)) (leaves (p.eval b))) ∧
    (∀ env x, x ∉ Program.names p → (leaves (p.eval env)).get? x = env.get? x) ∧
    ∀ (q : Program) env, (Program.names p).Disjoint (Program.names q) →
      let pThenQ := q.eval (leaves (p.eval env))
      let qThenP := p.eval (leaves (q.eval env))
      answer (p.eval env) = answer qThenP ∧ answer pThenQ = answer (q.eval env) ∧
        Env.Same (leaves pThenQ) (leaves qThenP) := by
  refine ⟨fun a b => Program.eval_of_agreeOn, fun env x hx => Program.get?_leaves hx env, ?_⟩
  intro q env hdisjoint pThenQ qThenP
  have hp := Program.eval_after_disjoint (List.disjoint_symm hdisjoint) env
  have hq := Program.eval_after_disjoint hdisjoint env
  exact ⟨hp.1.symm, hq.1, Program.same_leaves hdisjoint env⟩

/-- The first program fails after it has written `x`, the second declares `y`.  In either
    order each has its own answer, and `x` and `y` have the same values at the end. -/
theorem Program.local_to_names_failing :
    let p : Program := [.expr (.arith .add (.assign "x" (.boolean true)) (.variable "z"))]
    let q : Program := [.declare "y" .null]
    let env : Env := ⟨[("x", .null)], by decide⟩
    let pThenQ := q.eval (leaves (p.eval env))
    let qThenP := p.eval (leaves (q.eval env))
    (Program.names p).Disjoint (Program.names q) ∧
      answer qThenP = .error (.unknownVariable "z") ∧ answer pThenQ = .ok .null ∧
      (leaves qThenP).get? "x" = some (.boolean true) ∧
      Env.Same (leaves pThenQ) (leaves qThenP) := by
  intro p q env pThenQ qThenP
  have hdisjoint : (Program.names p).Disjoint (Program.names q) := by
    intro x hp hq
    have hx : x = "x" ∨ x = "z" := by simpa [p, Program.names, Statement.names, Expr.names] using hp
    have hy : x = "y" := by simpa [q, Program.names, Statement.names, Expr.names] using hq
    subst hy
    exact absurd hx (by decide)
  obtain ⟨hp, hq, hsame⟩ := (Program.local_to_names p).2.2 q env hdisjoint
  exact ⟨hdisjoint, hp.symm, hq, rfl, hsame⟩

end LineCalc
