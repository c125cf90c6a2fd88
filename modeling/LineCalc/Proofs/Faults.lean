/-
  LineCalc/Proofs/Faults.lean
  ===========================
  **Failures do not depend on values.**  Whether a program fails, and with which error, is
  settled by the names that are declared when it starts.  No operator can fail on any
  pair of values, so all that can go wrong is a name that is missing or already in use,
  or a tree without a meaning.

  The second half says where.  A run meets the nodes of a program in a fixed order
  (`Program.visits`): statement after statement, and operands from left to right before
  what is done with them.  Each node faults or not against the names declared by then,
  and the error of a run is the fault of the first node that has one.
-/
import LineCalc.Proofs.TwoRuns

namespace LineCalc

/-! ### The nodes that a run meets -/

/-- A node of a program at the point where a run gets to it: an expression whose operands
    have their values, or a declaration whose value is known. -/
inductive Node where
  | expr (e : Expr)
  | declare (name : String)

/-- The nodes of an expression in the order of a run; a negation stops the run before
    its operand is met. -/
def Expr.visits : Expr → List Node
  | .arith op left right => left.visits ++ (right.visits ++ [.expr (.arith op left right)])
  | .compare op left right => left.visits ++ (right.visits ++ [.expr (.compare op left right)])
  | .assign name value => value.visits ++ [.expr (.assign name value)]
  | e => [.expr e]

mutual

def Statement.visits : Statement → List Node
  | .program body => Program.visits body
  | .declare name value => value.visits ++ [.declare name]
  | .expr e => e.visits

/-- The nodes of a program in the order of a run. -/
def Program.visits : List Statement → List Node
  | [] => []
  | s :: rest => s.visits ++ Program.visits rest

end

namespace Node

/-- What is wrong with a node while these names are declared. -/
def fault? (declared : List String) : Node → Option EvalError
  | .expr (.variable name) => if name ∈ declared then none else some (.unknownVariable name)
  | .expr (.assign name _) => if name ∈ declared then none else some (.notDeclared name)
  | .expr (.whitespace text) => some (.unimplemented (.whitespace text))
  | .expr (.not inner) => some (.unimplemented (.not inner))
  | .expr _ => none
  | .declare name => if name ∈ declared then some (.alreadyDeclared name) else none

/-- The names declared once the node has been met. -/
def extend (declared : List String) : Node → List String
  | .declare name => name :: declared
  | .expr _ => declared

/-- The names declared once all these nodes have been met. -/
def declaredAfter (declared : List String) (nodes : List Node) : List String :=
  nodes.foldl extend declared

/-- The fault of the node with this index, when the nodes before it have been met. -/
def faultAt? (declared : List String) (nodes : List Node) (index : Nat) : Option EvalError :=
  nodes[index]?.bind (fault? (declaredAfter declared (nodes.take index)))

/-- The error is the fault of the first of the nodes that has one. -/
def FirstFault (declared : List String) (nodes : List Node) (error : EvalError) : Prop :=
  ∃ index, faultAt? declared nodes index = some error ∧
    ∀ earlier < index, faultAt? declared nodes earlier = none

/-! ### Looking for the first fault -/

def firstFault? (declared : List String) : List Node → Option EvalError
  | [] => none
  | node :: rest => (node.fault? declared).or (firstFault? (node.extend declared) rest)

theorem firstFault?_append (declared : List String) (xs ys : List Node) :
    firstFault? declared (xs ++ ys) =
      (firstFault? declared xs).or (firstFault? (declaredAfter declared xs) ys) := by
  induction xs generalizing declared with
  | nil => rfl
  | cons node xs ih =>
    rw [List.cons_append, firstFault?, firstFault?, ih, Option.or_assoc]
    rfl

theorem faultAt?_zero (declared : List String) (node : Node) (rest : List Node) :
    faultAt? declared (node :: rest) 0 = node.fault? declared := rfl

theorem firstFault?_eq_some_iff {declared : List String} {nodes : List Node}
    {error : EvalError} :
    firstFault? declared nodes = some error ↔ FirstFault declared nodes error := by
  induction nodes generalizing declared with
  | nil => simp [firstFault?, FirstFault, faultAt?]
  | cons node rest ih =>
    rw [firstFault?]
    cases hnode : node.fault? declared with
    | some found =>
      constructor
      · intro h
        exact ⟨0, by rw [faultAt?_zero, hnode]; exact h, fun _ hlt => absurd hlt (by omega)⟩
      · rintro ⟨index, hfault, hearlier⟩
        cases index with
        | zero => rwa [faultAt?_zero, hnode] at hfault
        | succ index =>
          have hzero := hearlier 0 (Nat.succ_pos index)
          rw [faultAt?_zero, hnode] at hzero
          cases hzero
    | none =>
      rw [Option.none_or, ih]
      constructor
      · rintro ⟨index, hfault, hearlier⟩
        refine ⟨index + 1, hfault, ?_⟩
        intro earlier hlt
        cases earlier with
        | zero => exact hnode
        | succ earlier => exact hearlier earlier (by omega)
      · rintro ⟨index, hfault, hearlier⟩
        cases index with
        | zero =>
          rw [faultAt?_zero, hnode] at hfault
          cases hfault
        | succ index =>
          exact ⟨index, hfault, fun earlier hlt => hearlier (earlier + 1) (by omega)⟩

end Node

/-! ### Runs and the nodes they meet -/

namespace Eval

open Node
open Session (leaves)

variable {α β : Type}

/-- The error of a result, if it is one. -/
def failure? : EStateM.Result EvalError Env α → Option EvalError
  | .ok _ _ => none
  | .error e _ => some e

/-- The computation meets these nodes: it fails with their first fault, and if they have
    none it leaves the names that they declare. -/
def Meets (m : Eval α) (nodes : List Node) : Prop :=
  ∀ env, failure? (m env) = firstFault? env.names nodes ∧
    (failure? (m env) = none → (leaves (m env)).names = declaredAfter env.names nodes)

theorem meets_nil (a : α) : Meets (pure a) [] := fun _ => ⟨rfl, fun _ => rfl⟩

theorem Meets.bind {m : Eval α} {f : α → Eval β} {xs ys : List Node} (hm : Meets m xs)
    (hf : ∀ a, Meets (f a) ys) : Meets (m >>= f) (xs ++ ys) := by
  intro env
  obtain ⟨hfault, hnames⟩ := hm env
  rw [firstFault?_append]
  cases hres : m env with
  | ok a mid =>
    rw [hres] at hfault hnames
    have hmid : mid.names = declaredAfter env.names xs := hnames rfl
    have hnone : firstFault? env.names xs = none := hfault.symm
    obtain ⟨hfault', hnames'⟩ := hf a mid
    rw [Session.bind_of_ok hres, hnone, Option.none_or, ← hmid]
    refine ⟨hfault', fun hok => ?_⟩
    rw [hnames' hok, hmid]
    exact List.foldl_append.symm
  | error e mid =>
    rw [hres] at hfault
    have hsome : firstFault? env.names xs = some e := hfault.symm
    rw [Session.bind_of_error hres, hsome]
    refine ⟨rfl, fun hok => ?_⟩
    cases hok

/-- A single node: the computation succeeds where the node has no fault, and fails with
    the fault where it has one. -/
theorem meets_node {m : Eval α} {node : Node}
    (h : ∀ env, (∃ a env', m env = .ok a env' ∧ node.fault? env.names = none ∧
        env'.names = node.extend env.names) ∨
      ∃ e env', m env = .error e env' ∧ node.fault? env.names = some e) : Meets m [node] := by
  intro env
  rcases h env with ⟨a, env', hm, hfault, hnames⟩ | ⟨e, env', hm, hfault⟩
  · rw [hm, firstFault?, hfault]
    exact ⟨rfl, fun _ => hnames⟩
  · rw [hm, firstFault?, hfault]
    refine ⟨rfl, fun hok => ?_⟩
    cases hok

theorem meets_pure (a : α) {e : Expr} (h : ∀ names, fault? names (.expr e) = none) :
    Meets (pure a) [.expr e] :=
  meets_node fun env => .inl ⟨a, env, rfl, h env.names, rfl⟩

theorem meets_throw {e : Expr} {error : EvalError}
    (h : ∀ names, fault? names (.expr e) = some error) :
    Meets (throw error : Eval α) [.expr e] :=
  meets_node fun env => .inr ⟨error, env, rfl, h env.names⟩

theorem meets_lookup (name : String) : Meets (lookup name) [.expr (.variable name)] := by
  apply meets_node
  intro env
  cases hget : env.get? name with
  | none => exact .inr ⟨_, env, lookup_of_none hget, if_neg (Env.get?_eq_none_iff.mp hget)⟩
  | some value =>
    have hmem : name ∈ env.names := by
      by_contra hmem
      rw [Env.get?_eq_none_iff.mpr hmem] at hget
      cases hget
    exact .inl ⟨value, env, lookup_of_some hget, if_pos hmem, rfl⟩

theorem meets_assign (name : String) (e : Expr) (v : Value) :
    Meets (assign name v) [.expr (.assign name e)] := by
  apply meets_node
  intro env
  by_cases hmem : name ∈ env.names
  · obtain ⟨env', hassign⟩ := Env.exists_assign_of_mem hmem v
    exact .inl ⟨(), env', update_of_ok hassign, if_pos hmem, Env.names_of_assign hassign⟩
  · exact .inr ⟨_, env, update_of_error (Env.assign_of_not_mem hmem v), if_neg hmem⟩

theorem meets_define (name : String) (v : Value) : Meets (define name v) [.declare name] := by
  apply meets_node
  intro env
  by_cases hmem : name ∈ env.names
  · exact .inr ⟨_, env, update_of_error (Env.define_of_mem hmem v), if_pos hmem⟩
  · obtain ⟨env', hdefine⟩ := Env.exists_define_of_not_mem hmem v
    exact .inl ⟨(), env', update_of_ok hdefine, if_neg hmem, Env.names_of_define hdefine⟩

end Eval

open Eval
open Session (leaves)

theorem Expr.meets_eval (e : Expr) : Meets e.eval e.visits := by
  induction e with
  | «variable» name => exact meets_lookup name
  | number | string | boolean | null => exact meets_pure _ fun _ => rfl
  | whitespace | not => exact meets_throw fun _ => rfl
  | arith op left right ihl ihr =>
    exact ihl.bind fun l => ihr.bind fun r => meets_pure _ fun _ => rfl
  | compare op left right ihl ihr =>
    exact ihl.bind fun l => ihr.bind fun r => meets_pure _ fun _ => rfl
  | assign name value ih =>
    exact ih.bind fun v => (meets_assign name value v).bind fun _ => meets_nil v

mutual

theorem Statement.meets_eval (s : Statement) : Meets s.eval s.visits := by
  cases s with
  | program body =>
    rw [Statement.eval, Statement.visits]
    exact Program.meets_evalFrom .null body
  | declare name value =>
    rw [Statement.eval, Statement.visits]
    exact value.meets_eval.bind fun v => (meets_define name v).bind fun _ => meets_nil v
  | expr e =>
    rw [Statement.eval, Statement.visits]
    exact e.meets_eval

theorem Program.meets_evalFrom (last : Value) (p : List Statement) :
    Meets (Program.evalFrom last p) (Program.visits p) := by
  cases p with
  | nil =>
    rw [Program.evalFrom, Program.visits]
    exact meets_nil last
  | cons s rest =>
    rw [Program.evalFrom, Program.visits]
    exact (Statement.meets_eval s).bind fun v => Program.meets_evalFrom v rest

end

theorem Program.failure?_eq_some_iff (p : Program) (env : Env) (error : EvalError) :
    failure? (p.eval env) = some error ↔
      Node.FirstFault env.names (Program.visits p) error := by
  rw [← Node.firstFault?_eq_some_iff, ← (Program.meets_evalFrom .null p env).1]
  rfl

/-! ### Failures and values -/

/-- The view that shows nothing of a value. -/
theorem Value.respected_blind : Value.Respected fun _ => () :=
  ⟨fun _ _ _ _ _ _ _ => rfl, fun _ _ _ _ _ _ _ => rfl⟩

/-- All that is left of the variables in that view is their names. -/
theorem Env.alikeOn_blind_iff {a b : Env} :
    AlikeOn (fun _ => ()) Set.univ a b ↔ ∀ x, x ∈ a.names ↔ x ∈ b.names := by
  constructor
  · intro h x
    exact h.mem_names_iff (Set.mem_univ x)
  · intro h x _
    have hnone : a.get? x = none ↔ b.get? x = none := by
      rw [get?_eq_none_iff, get?_eq_none_iff, h x]
    cases ha : a.get? x with
    | none => rw [hnone.mp ha]
    | some v =>
      cases hb : b.get? x with
      | none =>
        rw [hnone.mpr hb] at ha
        cases ha
      | some w => rfl

/-- **Failures do not depend on values.**  From variables of the same names a program
    succeeds both times or fails both times, with the same error, and leaves the same
    names; the error is the fault of the first node that has one. -/
theorem Program.failure_depends_on_names (p : Program) {a b : Env}
    (h : ∀ x, x ∈ a.names ↔ x ∈ b.names) :
    failure? (p.eval a) = failure? (p.eval b) ∧
      (∀ x, x ∈ (leaves (p.eval a)).names ↔ x ∈ (leaves (p.eval b)).names) ∧
      (∀ error, failure? (p.eval a) = some error ↔
        Node.FirstFault a.names (Program.visits p) error) ∧
      ∀ error, failure? (p.eval b) = some error ↔
        Node.FirstFault b.names (Program.visits p) error := by
  have houtcome := Program.parallel_eval Value.respected_blind p (fun x _ => Set.mem_univ x) a b
    (Env.alikeOn_blind_iff.mpr h)
  refine ⟨?_, Env.alikeOn_blind_iff.mp houtcome.leaves, p.failure?_eq_some_iff a,
    p.failure?_eq_some_iff b⟩
  generalize p.eval a = left at houtcome ⊢
  generalize p.eval b = right at houtcome ⊢
  cases houtcome <;> rfl

/-- The value of `y` is a truth value in one run and a text in the other.  Both get as far
    as the negation, whose operand `z` is not declared and not met. -/
theorem Program.failure_depends_on_names_negation :
    let p : Program := [.declare "x" .null,
      .program [.expr (.arith .add (.assign "x" (.variable "y")) (.not (.variable "z")))],
      .declare "x" .null]
    let a : Env := ⟨[("y", .boolean true)], by decide⟩
    let b : Env := ⟨[("y", .string "s")], by decide⟩
    let error : EvalError := .unimplemented (.not (.variable "z"))
    failure? (p.eval a) = some error ∧ failure? (p.eval b) = some error ∧
      Node.FirstFault a.names (Program.visits p) error := by
  intro p a b error
  obtain ⟨hsame, -, hfirst, -⟩ := p.failure_depends_on_names (a := a) (b := b) (fun x => Iff.rfl)
  have hfails : failure? (p.eval a) = some error := rfl
  exact ⟨hfails, hsame ▸ hfails, (hfirst error).mp hfails⟩

end LineCalc
