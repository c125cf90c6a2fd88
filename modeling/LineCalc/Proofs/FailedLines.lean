/-
  LineCalc/Proofs/FailedLines.lean
  ================================
  **What a failing line leaves behind.**  A line that cannot be read changes nothing.  A
  line that fails while it runs keeps what the statements before the failing one did,
  and of that statement only what its assignments wrote before the failure: `a = b = 7`
  with `a` undeclared has set `b`, and `(a = 1) + missing` has set `a`.

  Everything here is said through observations of the variables: a computation keeps an
  observation when it has the same value before and after, on success and on failure
  alike.  One induction over expressions (`Expr.keeps_eval`) then serves for the names,
  for the value of a single name, and for the variables as a whole.
-/
import LineCalc.Proofs.LineErrors
import LineCalc.Proofs.Variables

namespace LineCalc

/-! ### Where expressions write -/

/-- The names that the assignments inside an expression write to. -/
def Expr.targets : Expr → List String
  | .variable _ | .number _ | .string _ | .boolean _ | .null | .whitespace _ => []
  | .not inner => inner.targets
  | .arith _ left right | .compare _ left right => left.targets ++ right.targets
  | .assign name value => name :: value.targets

mutual

def Statement.targets : Statement → List String
  | .program body => Program.targets body
  | .declare _ value => value.targets
  | .expr e => e.targets

def Program.targets : List Statement → List String
  | [] => []
  | s :: rest => s.targets ++ Program.targets rest

end

/-- Nothing is assigned before the last step of the statement: an expression without
    assignments but for its root, or a declaration of a value without any. -/
def Statement.AssignsLast : Statement → Prop
  | .program _ => False
  | .declare _ value => value.targets = []
  | .expr (.assign _ value) => value.targets = []
  | .expr e => e.targets = []

/-! ### Observations that a computation keeps -/

namespace Eval

open Session (leaves)

variable {α β γ : Type} {f : Env → γ}

def Keeps (f : Env → γ) (m : Eval α) : Prop := ∀ env, f (leaves (m env)) = f env

theorem keeps_pure (a : α) : Keeps f (pure a) := fun _ => rfl

theorem keeps_throw (error : EvalError) : Keeps f (throw error : Eval α) := fun _ => rfl

theorem Keeps.bind {m : Eval α} {g : α → Eval β} (hm : Keeps f m) (hg : ∀ a, Keeps f (g a)) :
    Keeps f (m >>= g) := by
  intro env
  have henv := hm env
  cases hres : m env with
  | ok a mid =>
    rw [hres] at henv
    rw [Session.bind_of_ok hres]
    exact (hg a mid).trans henv
  | error error mid =>
    rw [hres] at henv
    rw [Session.bind_of_error hres]
    exact henv

theorem keeps_lookup (name : String) : Keeps f (lookup name) := by
  intro env
  cases hget : env.get? name with
  | some value => rw [lookup_of_some hget]; rfl
  | none => rw [lookup_of_none hget]; rfl

/-- An update that keeps an observation where it is accepted keeps it, as it changes
    nothing where it is refused. -/
theorem keeps_update {g : Env → Except EvalError Env}
    (h : ∀ env env', g env = .ok env' → f env' = f env) : Keeps f (update g) := by
  intro env
  unfold update
  cases hg : g env with
  | ok env' => exact h env env' hg
  | error error => rfl

theorem keeps_names_assign (name : String) (value : Value) :
    Keeps Env.names (assign name value) := by
  apply keeps_update
  intro env env' h
  exact Env.names_of_assign h

theorem keeps_get?_assign {name x : String} (hx : x ≠ name) (value : Value) :
    Keeps (·.get? x) (assign name value) := by
  apply keeps_update
  intro env env' h
  show env'.get? x = env.get? x
  rw [Env.get?_of_assign h, if_neg hx]

/-- What a refused write leaves is what the computation of its value left. -/
theorem leaves_of_refused {m : Eval Value} {g : Value → Env → Except EvalError Env}
    {env env' : Env} {error : EvalError}
    (h : (m >>= fun v => update (g v) >>= fun _ => pure v) env = .error error env') :
    env' = leaves (m env) := by
  rcases Session.bind_eq_error_iff.mp h with hm | ⟨v, mid, hm, hwrite⟩
  · rw [hm]
    rfl
  · rcases Session.bind_eq_error_iff.mp hwrite with hrefused | ⟨u, next, -, hpure⟩
    · rw [hm]
      exact (update_eq_error hrefused).2
    · cases hpure

end Eval

open Eval
open Session (leaves)

/-- An expression keeps what all assignments to its targets keep. -/
theorem Expr.keeps_eval {γ : Type} {f : Env → γ} (e : Expr)
    (h : ∀ name ∈ e.targets, ∀ value, Keeps f (Eval.assign name value)) : Keeps f e.eval := by
  induction e with
  | «variable» name => exact keeps_lookup name
  | number | string | boolean | null => exact keeps_pure _
  | whitespace | not => exact keeps_throw _
  | arith op left right ihl ihr | compare op left right ihl ihr =>
    have hl := ihl fun name hname => h name (List.mem_append_left _ hname)
    have hr := ihr fun name hname => h name (List.mem_append_right _ hname)
    exact hl.bind fun l => hr.bind fun r => keeps_pure _
  | assign name value ih =>
    have hvalue := ih fun x hx => h x (List.mem_cons_of_mem _ hx)
    have hassign := h name List.mem_cons_self
    exact hvalue.bind fun v => (hassign v).bind fun _ => keeps_pure v

/-! ### Failing statements -/

/-- A failing statement leaves what an expression with its targets leaves. -/
theorem Statement.leaves_of_error {s : Statement} {env env' : Env} {error : EvalError}
    (hs : s.Evaluable) (h : s.eval env = .error error env') :
    ∃ e : Expr, e.targets = s.targets ∧ env' = leaves (e.eval env) := by
  cases s with
  | program body => exact hs.elim
  | declare name value =>
    rw [Statement.eval] at h
    exact ⟨value, by rw [Statement.targets], leaves_of_refused h⟩
  | expr e =>
    rw [Statement.eval] at h
    exact ⟨e, by rw [Statement.targets], by rw [h]; rfl⟩

/-- One that assigns nothing before its last step fails before that step. -/
theorem Statement.leaves_of_error_of_assignsLast {s : Statement} {env env' : Env}
    {error : EvalError} (hs : s.AssignsLast) (h : s.eval env = .error error env') :
    ∃ e : Expr, e.targets = [] ∧ env' = leaves (e.eval env) := by
  rcases s with body | ⟨name, value⟩ | e
  · exact hs.elim
  · rw [Statement.eval] at h
    exact ⟨value, hs, leaves_of_refused h⟩
  · rw [Statement.eval] at h
    by_cases hroot : ∃ name value, e = .assign name value
    · obtain ⟨name, value, rfl⟩ := hroot
      exact ⟨value, hs, leaves_of_refused h⟩
    · refine ⟨e, ?_, by rw [h]; rfl⟩
      cases e with
      | assign name value => exact absurd ⟨name, value, rfl⟩ hroot
      | _ => exact hs

/-- What a failing statement can have done: it has declared nothing, and only its
    assignments have changed values. -/
structure Statement.PartialEffect (s : Statement) (env env' : Env) : Prop where
  names : env'.names = env.names
  values : ∀ name, name ∉ s.targets → env'.get? name = env.get? name
  whole : s.AssignsLast → env' = env

theorem Statement.partialEffect_of_error {s : Statement} {env env' : Env} {error : EvalError}
    (hs : s.Evaluable) (h : s.eval env = .error error env') : s.PartialEffect env env' := by
  obtain ⟨e, htargets, hleaves⟩ := Statement.leaves_of_error hs h
  rw [hleaves]
  refine ⟨?_, ?_, ?_⟩
  · exact e.keeps_eval (fun name _ => keeps_names_assign name) env
  · intro x hx
    -- every target differs from `x`, so every assignment keeps its value
    refine e.keeps_eval (f := (·.get? x)) (fun name hname value => ?_) env
    apply keeps_get?_assign
    rintro rfl
    exact hx (htargets ▸ hname)
  · intro hlast
    obtain ⟨quiet, hquiet, heq⟩ := Statement.leaves_of_error_of_assignsLast hlast h
    rw [← hleaves, heq]
    refine quiet.keeps_eval (f := id) (fun name hname => ?_) env
    rw [hquiet] at hname
    cases hname

/-! ### Failing programs -/

/-- The first `k` statements lead from `env` to `mid`, and the next one, `s`, fails there. -/
structure Program.FailsAt (p : Program) (k : Nat) (s : Statement) (env mid env' : Env)
    (error : EvalError) : Prop where
  before : ∃ value, Program.eval (p.take k) env = .ok value mid
  failing : p[k]? = some s
  fails : s.eval mid = .error error env'

theorem Program.exists_failsAt_of_evalFrom {p : Program} {last : Value} {env env' : Env}
    {error : EvalError} (h : Program.evalFrom last p env = .error error env') :
    ∃ k s v mid, Program.evalFrom last (p.take k) env = .ok v mid ∧ p[k]? = some s ∧
      s.eval mid = .error error env' := by
  induction p generalizing last env with
  | nil =>
    rw [Program.evalFrom] at h
    cases h
  | cons s rest ih =>
    rw [Program.evalFrom] at h
    rcases Session.bind_eq_error_iff.mp h with hs | ⟨v, mid, hs, hrest⟩
    · exact ⟨0, s, last, env, by rw [List.take_zero, Program.evalFrom]; rfl, rfl, hs⟩
    · obtain ⟨k, t, w, next, hbefore, hk, hfails⟩ := ih hrest
      refine ⟨k + 1, t, w, next, ?_, hk, hfails⟩
      rw [List.take_succ_cons, Program.evalFrom, Session.bind_of_ok hs]
      exact hbefore

theorem Program.exists_failsAt {p : Program} {env env' : Env} {error : EvalError}
    (h : p.eval env = .error error env') : ∃ k s mid, p.FailsAt k s env mid env' error := by
  obtain ⟨k, s, v, mid, hbefore, hk, hfails⟩ := Program.exists_failsAt_of_evalFrom h
  exact ⟨k, s, mid, ⟨v, hbefore⟩, hk, hfails⟩

/-! ### Failing lines -/

namespace Session

/-- **What a failing line leaves behind.**  A line that cannot be read changes nothing.
    Otherwise its first statements have succeeded, the next one has failed, and the
    variables are those before it but for what its assignments wrote. -/
theorem evalLine_failure_leaves {line : String} {env env' : Env} {error : LineError}
    (h : evalLine line env = .error error env') :
    match error with
    | .lex _ => env' = env
    | .parse _ => env' = env
    | .eval e => ∃ p k s mid, parseLine line = .ok p ∧ p.FailsAt k s env mid env' e ∧
        s.PartialEffect mid env' := by
  cases hparse : parseLine line with
  | error unread =>
    rw [evalLine_of_parseLine_error hparse] at h
    cases h
    rcases parseLine_error_iff.mp hparse with ⟨e, -, rfl⟩ | ⟨ts, e, -, -, rfl⟩
    · rfl
    · rfl
  | ok p =>
    rw [evalLine_of_parseLine_ok hparse] at h
    obtain ⟨e, heval, rfl⟩ := evalProgram_error_iff.mp h
    obtain ⟨k, s, mid, hfails⟩ := Program.exists_failsAt heval
    -- a parsed statement is a declaration or an expression
    have hs : s.Evaluable := by
      obtain ⟨ts, -, htokens⟩ := parseLine_ok_iff.mp hparse
      exact Program.evaluable_of_ofTokens htokens s (List.mem_of_getElem? hfails.failing)
    exact ⟨p, k, s, mid, rfl, hfails, Statement.partialEffect_of_error hs hfails.fails⟩

/-- The first statement declares `c`, the second writes `b` and then misses `a`. -/
theorem evalLine_failure_leaves_written :
    let env : Env := ⟨[("b", .null)], by decide⟩
    let env' : Env := ⟨[("c", .null), ("b", .boolean true)], by decide⟩
    evalLine "set c = null (a = (b = true))" env = .error (.eval (.notDeclared "a")) env' ∧
      ∃ p k s mid, parseLine "set c = null (a = (b = true))" = .ok p ∧
        p.FailsAt k s env mid env' (.notDeclared "a") ∧ s.PartialEffect mid env' := by
  intro env env'
  let p : Program := [.declare "c" .null, .expr (.assign "a" (.assign "b" (.boolean true)))]
  have ha : IsName "a" := isName_letter (c := 'a') rfl
  have hb : IsName "b" := isName_letter (c := 'b') rfl
  have hc : IsName "c" := isName_letter (c := 'c') rfl
  have hp : p.Expressible := by
    simp [p, Program.Expressible, Statement.Expressible, Expr.Expressible, ha, hb, hc]
  have hsource : p.source 1 = "set c = null (a = (b = true))" := by decide +kernel
  have hfails : evalLine "set c = null (a = (b = true))" env =
      .error (.eval (.notDeclared "a")) env' := by
    rw [← hsource, evalLine_source 1 hp]
    rfl
  exact ⟨hfails, evalLine_failure_leaves hfails⟩

end Session

end LineCalc
