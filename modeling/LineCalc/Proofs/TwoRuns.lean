/-
  LineCalc/Proofs/TwoRuns.lean
  ============================
  **Two runs of one program.**  A program that runs from two states of the variables runs
  alike if the values it meets look alike: it takes the same steps, fails at the same
  place or not at all, and leaves values that look alike.

  What is seen of a value is left open.  All that is asked of a view is that the operators
  respect it (`Value.Respected`), and of the two states that they look alike at the names
  of the program.  Nothing more is needed, as a program sees its variables only by their
  names and its values only through the operators.
-/
import LineCalc.Proofs.LineErrors
import LineCalc.Proofs.Variables
import Mathlib.Data.Set.Basic

namespace LineCalc

/-! ### The names of a program -/

/-- The names in an expression, also where no evaluation gets to. -/
def Expr.names : Expr → List String
  | .variable name => [name]
  | .number _ | .string _ | .boolean _ | .null | .whitespace _ => []
  | .not inner => inner.names
  | .arith _ left right | .compare _ left right => left.names ++ right.names
  | .assign name value => name :: value.names

mutual

def Statement.names : Statement → List String
  | .program body => Program.names body
  | .declare name value => name :: value.names
  | .expr e => e.names

/-- The names that a program reads, assigns or declares anywhere. -/
def Program.names : List Statement → List String
  | [] => []
  | s :: rest => s.names ++ Program.names rest

end

/-! ### Views of values -/

/-- What the operators make of two values looks alike when the values do. -/
structure Value.Respected {γ : Type} (view : Value → γ) : Prop where
  arith : ∀ (op : ArithOp) {l l' r r' : Value},
    view l = view l' → view r = view r' → view (op.eval l r) = view (op.eval l' r')
  compare : ∀ (op : CompareOp) {l l' r r' : Value},
    view l = view l' → view r = view r' → view (op.eval l r) = view (op.eval l' r')

namespace Env

variable {γ : Type} {view : Value → γ} {names : Set String} {a b a' b' : Env}
  {name : String} {v w : Value}

/-- At each of these names the variables look alike, or neither is declared. -/
def AlikeOn (view : Value → γ) (names : Set String) (a b : Env) : Prop :=
  ∀ x ∈ names, (a.get? x).map view = (b.get? x).map view

theorem AlikeOn.mem_names_iff (h : AlikeOn view names a b) (hname : name ∈ names) :
    name ∈ a.names ↔ name ∈ b.names := by
  have hnone : a.get? name = none ↔ b.get? name = none := by
    rw [← Option.map_eq_none_iff (f := view), h name hname, Option.map_eq_none_iff]
  rwa [get?_eq_none_iff, get?_eq_none_iff, not_iff_not] at hnone

/-- Values that look alike are written to one name. -/
theorem AlikeOn.write (h : AlikeOn view names a b) (hvw : view v = view w)
    (ha : ∀ x, a'.get? x = if x = name then some v else a.get? x)
    (hb : ∀ x, b'.get? x = if x = name then some w else b.get? x) :
    AlikeOn view names a' b' := by
  intro x hx
  rw [ha, hb]
  by_cases hname : x = name
  · rw [if_pos hname, if_pos hname, Option.map_some, Option.map_some, hvw]
  · rw [if_neg hname, if_neg hname]
    exact h x hx

end Env

/-! ### Runs that look alike -/

namespace Eval

open Env (AlikeOn)

variable {α β γ : Type} {view : Value → γ} {names : Set String}

/-- Both succeed, with related results, or both fail with the same error; either way the
    variables look alike. -/
inductive SameOutcome (view : Value → γ) (names : Set String) (related : α → α → Prop) :
    EStateM.Result EvalError Env α → EStateM.Result EvalError Env α → Prop where
  | ok {v w : α} {a b : Env} : related v w → AlikeOn view names a b →
      SameOutcome view names related (.ok v a) (.ok w b)
  | error {e : EvalError} {a b : Env} : AlikeOn view names a b →
      SameOutcome view names related (.error e a) (.error e b)

theorem SameOutcome.leaves {related : α → α → Prop} {r s : EStateM.Result EvalError Env α}
    (h : SameOutcome view names related r s) :
    AlikeOn view names (Session.leaves r) (Session.leaves s) := by
  cases h with
  | ok _ henv => exact henv
  | error henv => exact henv

/-- Run from variables that look alike, the two computations have the same outcome. -/
def Parallel (view : Value → γ) (names : Set String) (related : α → α → Prop)
    (m n : Eval α) : Prop :=
  ∀ a b, AlikeOn view names a b → SameOutcome view names related (m a) (n b)

theorem parallel_pure {related : α → α → Prop} {v w : α} (h : related v w) :
    Parallel view names related (pure v) (pure w) :=
  fun _ _ henv => .ok h henv

theorem parallel_throw {related : α → α → Prop} (error : EvalError) :
    Parallel view names related (throw error) (throw error) :=
  fun _ _ henv => .error henv

theorem Parallel.bind {related : α → α → Prop} {related' : β → β → Prop} {m n : Eval α}
    {f g : α → Eval β} (hm : Parallel view names related m n)
    (hf : ∀ v w, related v w → Parallel view names related' (f v) (g w)) :
    Parallel view names related' (m >>= f) (n >>= g) := by
  intro a b hab
  have houtcome := hm a b hab
  generalize hma : m a = left at houtcome
  generalize hnb : n b = right at houtcome
  cases houtcome with
  | ok hvw henv =>
    rw [Session.bind_of_ok hma, Session.bind_of_ok hnb]
    exact hf _ _ hvw _ _ henv
  | error henv =>
    rw [Session.bind_of_error hma, Session.bind_of_error hnb]
    exact .error henv

theorem parallel_lookup {name : String} (hname : name ∈ names) :
    Parallel view names (fun v w => view v = view w) (lookup name) (lookup name) := by
  intro a b hab
  have hview := hab name hname
  cases ha : a.get? name with
  | none =>
    rw [ha, Option.map_none] at hview
    rw [lookup_of_none ha, lookup_of_none (Option.map_eq_none_iff.mp hview.symm)]
    exact .error hab
  | some v =>
    rw [ha, Option.map_some] at hview
    obtain ⟨w, hb, hvw⟩ := Option.map_eq_some_iff.mp hview.symm
    rw [lookup_of_some ha, lookup_of_some hb]
    exact .ok hvw.symm hab

/-- Two updates that are accepted or refused together. -/
theorem parallel_update {f g : Env → Except EvalError Env}
    (h : ∀ a b, AlikeOn view names a b →
      (∃ a' b', f a = .ok a' ∧ g b = .ok b' ∧ AlikeOn view names a' b') ∨
        ∃ e, f a = .error e ∧ g b = .error e) :
    Parallel view names Eq (update f) (update g) := by
  intro a b hab
  rcases h a b hab with ⟨a', b', ha, hb, henv⟩ | ⟨e, ha, hb⟩
  · rw [update_of_ok ha, update_of_ok hb]
    exact .ok rfl henv
  · rw [update_of_error ha, update_of_error hb]
    exact .error hab

theorem parallel_define {name : String} {v w : Value} (hname : name ∈ names)
    (hvw : view v = view w) : Parallel view names Eq (define name v) (define name w) := by
  apply parallel_update
  intro a b hab
  by_cases hmem : name ∈ a.names
  · have hmem' := (hab.mem_names_iff hname).mp hmem
    exact .inr ⟨_, Env.define_of_mem hmem v, Env.define_of_mem hmem' w⟩
  · have hmem' : name ∉ b.names := fun h => hmem ((hab.mem_names_iff hname).mpr h)
    obtain ⟨a', ha⟩ := Env.exists_define_of_not_mem hmem v
    obtain ⟨b', hb⟩ := Env.exists_define_of_not_mem hmem' w
    exact .inl ⟨a', b', ha, hb, hab.write hvw (Env.get?_of_define ha) (Env.get?_of_define hb)⟩

theorem parallel_assign {name : String} {v w : Value} (hname : name ∈ names)
    (hvw : view v = view w) : Parallel view names Eq (assign name v) (assign name w) := by
  apply parallel_update
  intro a b hab
  by_cases hmem : name ∈ a.names
  · have hmem' := (hab.mem_names_iff hname).mp hmem
    obtain ⟨a', ha⟩ := Env.exists_assign_of_mem hmem v
    obtain ⟨b', hb⟩ := Env.exists_assign_of_mem hmem' w
    exact .inl ⟨a', b', ha, hb, hab.write hvw (Env.get?_of_assign ha) (Env.get?_of_assign hb)⟩
  · have hmem' : name ∉ b.names := fun h => hmem ((hab.mem_names_iff hname).mpr h)
    exact .inr ⟨_, Env.assign_of_not_mem hmem v, Env.assign_of_not_mem hmem' w⟩

end Eval

/-! ### Programs -/

section Programs

open Eval

variable {γ : Type} {view : Value → γ} {names : Set String}

theorem Expr.parallel_eval (hview : Value.Respected view) (e : Expr)
    (hnames : ∀ x ∈ e.names, x ∈ names) :
    Parallel view names (fun v w => view v = view w) e.eval e.eval := by
  induction e with
  | «variable» name => exact parallel_lookup (hnames name (List.mem_singleton_self name))
  | number | string | boolean | null => exact parallel_pure rfl
  | whitespace | not => exact parallel_throw _
  | arith op left right ihl ihr =>
    have hl := ihl fun x hx => hnames x (List.mem_append_left _ hx)
    have hr := ihr fun x hx => hnames x (List.mem_append_right _ hx)
    exact hl.bind fun l l' hll => hr.bind fun r r' hrr => parallel_pure (hview.arith op hll hrr)
  | compare op left right ihl ihr =>
    have hl := ihl fun x hx => hnames x (List.mem_append_left _ hx)
    have hr := ihr fun x hx => hnames x (List.mem_append_right _ hx)
    exact hl.bind fun l l' hll => hr.bind fun r r' hrr => parallel_pure (hview.compare op hll hrr)
  | assign name value ih =>
    have hvalue := ih fun x hx => hnames x (List.mem_cons_of_mem _ hx)
    have hname := hnames name List.mem_cons_self
    exact hvalue.bind fun v w hvw => (parallel_assign hname hvw).bind fun _ _ _ =>
      parallel_pure hvw

mutual

theorem Statement.parallel_eval (hview : Value.Respected view) (s : Statement)
    (hnames : ∀ x ∈ s.names, x ∈ names) :
    Parallel view names (fun v w => view v = view w) s.eval s.eval := by
  cases s with
  | program body =>
    rw [Statement.names] at hnames
    rw [Statement.eval]
    exact Program.parallel_evalFrom hview body hnames rfl
  | declare name value =>
    rw [Statement.names] at hnames
    rw [Statement.eval]
    have hvalue := value.parallel_eval hview fun x hx => hnames x (List.mem_cons_of_mem _ hx)
    have hname := hnames name List.mem_cons_self
    exact hvalue.bind fun v w hvw => (parallel_define hname hvw).bind fun _ _ _ =>
      parallel_pure hvw
  | expr e =>
    rw [Statement.names] at hnames
    rw [Statement.eval]
    exact e.parallel_eval hview hnames

theorem Program.parallel_evalFrom (hview : Value.Respected view) (p : List Statement)
    (hnames : ∀ x ∈ Program.names p, x ∈ names) {last last' : Value}
    (hlast : view last = view last') :
    Parallel view names (fun v w => view v = view w) (Program.evalFrom last p)
      (Program.evalFrom last' p) := by
  cases p with
  | nil =>
    rw [Program.evalFrom, Program.evalFrom]
    exact parallel_pure hlast
  | cons s rest =>
    rw [Program.names] at hnames
    rw [Program.evalFrom, Program.evalFrom]
    have hs := Statement.parallel_eval hview s fun x hx => hnames x (List.mem_append_left _ hx)
    exact hs.bind fun v w hvw => Program.parallel_evalFrom hview rest
      (fun x hx => hnames x (List.mem_append_right _ hx)) hvw

end

/-- **Two runs of one program.**  From states that look alike at its names, it has the same
    outcome. -/
theorem Program.parallel_eval (hview : Value.Respected view) (p : Program)
    (hnames : ∀ x ∈ Program.names p, x ∈ names) :
    Parallel view names (fun v w => view v = view w) p.eval p.eval :=
  Program.parallel_evalFrom hview p hnames rfl

end Programs

end LineCalc
