/-
  LineCalc/Proofs/WriteLog.lean
  =============================
  **One declaration a name, and the last write wins.**  The writes that the variables
  of a session have accepted, in order, are its log.  A `Journal` holds variables
  together with the log that made them, and a journal can only grow by a write that
  its variables accept.  What a log says about the variables is therefore proved once,
  of journals (`Made`), and not along the runs of programs.

  A journal is a store, so programs, lines and scripts run on it as they are and call
  its writes.  Forgetting the log is a map between stores, and such a map can be taken
  before or after a run (`Store.Morphism`), whether it fails or not: the log is that of
  the session.
-/
import LineCalc.Proofs.LineErrors
import LineCalc.Proofs.Variables
import Mathlib.Data.List.Nodup

namespace LineCalc

namespace Env

/-! ### Writes -/

inductive Write where
  | define (name : String) (value : Value)
  | assign (name : String) (value : Value)
  deriving DecidableEq

namespace Write

def name : Write → String
  | .define name _ | .assign name _ => name

def value : Write → Value
  | .define _ value | .assign _ value => value

def isDefine : Write → Bool
  | .define _ _ => true
  | .assign _ _ => false

def apply (env : Env) : Write → Except EvalError Env
  | .define name value => env.define name value
  | .assign name value => env.assign name value

end Write

/-- A write changes the value of its name and no other, whichever write it is. -/
theorem get?_of_apply {env env' : Env} {w : Write} (h : w.apply env = .ok env') (x : String) :
    env'.get? x = if x = w.name then some w.value else env.get? x := by
  cases w with
  | define name value => exact get?_of_define h x
  | assign name value => exact get?_of_assign h x

/-! ### Logs -/

/-- The log makes the variables: one after another, its writes are accepted. -/
inductive Made : List Write → Env → Prop where
  | empty : Made [] .empty
  | write {log : List Write} {env env' : Env} {w : Write} :
      Made log env → w.apply env = .ok env' → Made (log ++ [w]) env'

namespace Made

variable {log : List Write} {env : Env}

theorem get?_eq (h : Made log env) (x : String) :
    env.get? x = (log.filter (·.name = x)).getLast?.map Write.value := by
  induction h with
  | empty => rfl
  | @write log env env' w _ happly ih =>
    rw [get?_of_apply happly x, List.filter_append, ih]
    by_cases hx : x = w.name
    · simp [hx]
    · have hx' : ¬ w.name = x := fun h => hx h.symm
      simp [hx, hx']

/-- The names in use are those that were defined, the latest first. -/
theorem names_eq (h : Made log env) :
    env.names = ((log.filter Write.isDefine).map Write.name).reverse := by
  induction h with
  | empty => rfl
  | @write log env env' w _ happly ih =>
    cases w with
    | define name value =>
      rw [names_of_define happly, ih, List.filter_append, List.map_append, List.reverse_append]
      rfl
    | assign name value =>
      rw [names_of_assign happly, ih, List.filter_append, List.map_append, List.reverse_append]
      rfl

theorem mem_names_iff (h : Made log env) (name : String) :
    name ∈ env.names ↔ ∃ value, Write.define name value ∈ log := by
  rw [h.names_eq, List.mem_reverse, List.mem_map]
  constructor
  · rintro ⟨w, hw, rfl⟩
    obtain ⟨hmem, hdefine⟩ := List.mem_filter.mp hw
    cases w with
    | define name value => exact ⟨value, hmem⟩
    | assign name value => cases hdefine
  · rintro ⟨value, hmem⟩
    exact ⟨_, List.mem_filter.mpr ⟨hmem, rfl⟩, rfl⟩

theorem size_eq (h : Made log env) : env.size = log.countP Write.isDefine := by
  have hlength : env.size = env.names.length := by simp [size, names]
  rw [hlength, h.names_eq, List.length_reverse, List.length_map, List.countP_eq_length_filter]

theorem countP_define_le_one (h : Made log env) (name : String) :
    log.countP (fun w => w.isDefine && w.name = name) ≤ 1 := by
  -- the names in use are distinct, hence so are those of the definitions
  have hnodup : ((log.filter Write.isDefine).map Write.name).Nodup := by
    rw [← List.nodup_reverse, ← h.names_eq]
    exact env.nodup
  have hcount := List.nodup_iff_count_le_one.mp hnodup name
  rw [List.count, List.countP_map, List.countP_filter] at hcount
  refine le_trans (le_of_eq ?_) hcount
  refine List.countP_congr fun w _ => ?_
  simp [and_comm]

/-- Every write of a log was accepted by the variables that the writes before it made. -/
theorem of_append {before after : List Write} {w : Write} (h : Made (before ++ w :: after) env) :
    ∃ mid next, Made before mid ∧ w.apply mid = .ok next := by
  generalize hlog : before ++ w :: after = log at h
  induction h generalizing after with
  | empty => simp at hlog
  | @write log env env' last hmade happly ih =>
    -- either the last write is meant, or an earlier one
    rcases List.eq_nil_or_concat after with rfl | ⟨front, back, rfl⟩
    · obtain ⟨rfl, hlast⟩ := List.append_inj' hlog rfl
      cases hlast
      exact ⟨env, env', hmade, happly⟩
    · have hshift : (before ++ w :: front) ++ [back] = log ++ [last] := by simpa using hlog
      exact ih (List.append_inj' hshift rfl).1

theorem define_mem_of_assign {before after : List Write} {name : String} {value : Value}
    (h : Made (before ++ .assign name value :: after) env) :
    ∃ first, Write.define name first ∈ before := by
  obtain ⟨mid, next, hmade, happly⟩ := h.of_append
  exact (hmade.mem_names_iff name).mp (assign_eq_ok happly).1

end Made

end Env

/-! ### Journals -/

/-- Variables and the log that made them. -/
structure Journal where
  env : Env
  log : List Env.Write
  made : Env.Made log env

namespace Journal

def empty : Journal := ⟨.empty, [], .empty⟩

def write (j : Journal) (w : Env.Write) : Except EvalError Journal :=
  match h : w.apply j.env with
  | .ok env => .ok ⟨env, j.log ++ [w], .write j.made h⟩
  | .error error => .error error

/-- A journal accepts and refuses what its variables do. -/
theorem map_env_write (j : Journal) (w : Env.Write) : (j.write w).map env = w.apply j.env := by
  unfold write
  split
  · next happly => exact happly.symm
  · next happly => exact happly.symm

instance : Store Journal where
  get? j := j.env.get?
  define j name value := j.write (.define name value)
  assign j name value := j.write (.assign name value)

end Journal

/-! ### Maps between stores -/

namespace Store

variable {σ τ ε α β : Type}

/-- A map under which one store reads and writes as the other, refusals included. -/
structure Morphism [Store σ] [Store τ] (f : σ → τ) : Prop where
  get?_eq (vars : σ) (name : String) : get? vars name = get? (f vars) name
  map_define (vars : σ) (name : String) (value : Value) :
    (define vars name value).map f = define (f vars) name value
  map_assign (vars : σ) (name : String) (value : Value) :
    (assign vars name value).map f = assign (f vars) name value

/-- A result with other variables. -/
def mapResult (f : σ → τ) : EStateM.Result ε σ α → EStateM.Result ε τ α
  | .ok a vars => .ok a (f vars)
  | .error error vars => .error error (f vars)

/-- Mapping what the first computation leaves is running the second on what is mapped. -/
def Commutes (f : σ → τ) (m : EStateM ε σ α) (n : EStateM ε τ α) : Prop :=
  ∀ vars, mapResult f (m vars) = n (f vars)

section

variable {f : σ → τ}

theorem commutes_pure (a : α) : Commutes f (pure a : EStateM ε σ α) (pure a) := fun _ => rfl

theorem commutes_throw (error : ε) : Commutes f (throw error : EStateM ε σ α) (throw error) :=
  fun _ => rfl

theorem Commutes.bind {m : EStateM ε σ α} {n : EStateM ε τ α} {g : α → EStateM ε σ β}
    {k : α → EStateM ε τ β} (hm : Commutes f m n) (hg : ∀ a, Commutes f (g a) (k a)) :
    Commutes f (m >>= g) (n >>= k) := by
  intro vars
  have hvars := hm vars
  simp only [Bind.bind, EStateM.bind]
  rw [← hvars]
  cases m vars with
  | ok a vars' => exact hg a vars'
  | error error vars' => rfl

/-- A refused update changes nothing on either side. -/
theorem commutes_update {u : σ → Except EvalError σ} {v : τ → Except EvalError τ}
    (h : ∀ vars, (u vars).map f = v (f vars)) : Commutes f (Eval.update u) (Eval.update v) := by
  intro vars
  unfold Eval.update
  rw [← h vars]
  cases u vars <;> rfl

theorem Commutes.leaves {m : EStateM ε σ α} {n : EStateM ε τ α} (h : Commutes f m n) (vars : σ) :
    f (Session.leaves (m vars)) = Session.leaves (n (f vars)) := by
  rw [← h vars]
  cases m vars <;> rfl

end

namespace Morphism

variable [Store σ] [Store τ] {f : σ → τ}

theorem lookup (hf : Morphism f) (name : String) :
    Commutes f (Eval.lookup name) (Eval.lookup name) := by
  intro vars
  unfold Eval.lookup
  rw [← hf.get?_eq]
  cases get? vars name <;> rfl

theorem evalExpr (hf : Morphism f) (e : Expr) : Commutes f e.eval e.eval := by
  induction e with
  | «variable» name => exact hf.lookup name
  | number | string | boolean | null => exact commutes_pure _
  | whitespace | not => exact commutes_throw _
  | arith op left right ihl ihr =>
    exact ihl.bind fun l => ihr.bind fun r => commutes_pure _
  | compare op left right ihl ihr =>
    exact ihl.bind fun l => ihr.bind fun r => commutes_pure _
  | assign name value ih =>
    refine ih.bind fun v => ?_
    exact (commutes_update fun vars => hf.map_assign vars name v).bind fun _ => commutes_pure v

mutual

theorem evalStatement (hf : Morphism f) (s : Statement) : Commutes f s.eval s.eval := by
  cases s with
  | program body =>
    rw [Statement.eval, Statement.eval]
    exact evalFrom hf .null body
  | declare name value =>
    rw [Statement.eval, Statement.eval]
    refine (hf.evalExpr value).bind fun v => ?_
    exact (commutes_update fun vars => hf.map_define vars name v).bind fun _ => commutes_pure v
  | expr e =>
    rw [Statement.eval, Statement.eval]
    exact hf.evalExpr e

theorem evalFrom (hf : Morphism f) (last : Value) (p : List Statement) :
    Commutes f (Program.evalFrom last p) (Program.evalFrom last p) := by
  cases p with
  | nil =>
    rw [Program.evalFrom, Program.evalFrom]
    exact commutes_pure last
  | cons s rest =>
    rw [Program.evalFrom, Program.evalFrom]
    exact (evalStatement hf s).bind fun v => evalFrom hf v rest

end

theorem evalProgram (hf : Morphism f) (p : Program) :
    Commutes f (Session.evalProgram p) (Session.evalProgram p) := by
  intro vars
  have hp : mapResult f (p.eval vars) = p.eval (f vars) := hf.evalFrom .null p vars
  unfold Session.evalProgram
  rw [← hp]
  cases p.eval vars <;> rfl

theorem evalLine (hf : Morphism f) (line : String) :
    Commutes f (Session.evalLine line) (Session.evalLine line) := by
  unfold Session.evalLine
  cases Session.parseLine line with
  | ok p => exact hf.evalProgram p
  | error error => exact commutes_throw error

theorem evalNumbered (hf : Morphism f) (number : Nat) (line : String) :
    Commutes f (Session.evalNumbered number line) (Session.evalNumbered number line) := by
  intro vars
  have hline := hf.evalLine line vars
  unfold Session.evalNumbered
  rw [← hline]
  cases Session.evalLine line vars <;> rfl

theorem evalLines (hf : Morphism f) (number : Nat) (last : Option String) (lines : List String) :
    Commutes f (Session.evalLines number last lines) (Session.evalLines number last lines) := by
  induction lines generalizing number last with
  | nil => exact commutes_pure last
  | cons line rest ih =>
    unfold Session.evalLines
    by_cases hblank : Text.isBlank line
    · rw [if_pos hblank, if_pos hblank]
      exact ih (number + 1) last
    · rw [if_neg hblank, if_neg hblank]
      exact (hf.evalNumbered number line).bind fun value => ih (number + 1) (some value)

end Morphism

end Store

theorem Journal.morphism_env : Store.Morphism Journal.env where
  get?_eq _ _ := rfl
  map_define j name value := j.map_env_write (.define name value)
  map_assign j name value := j.map_env_write (.assign name value)

/-! ### Sessions and their logs -/

namespace Session

/-- A request to a session: a line, a script or a program. -/
inductive Request where
  | call (call : Call)
  | program (program : Program)

def Request.run {σ : Type} [Store σ] (vars : σ) : Request → σ
  | .call c => c.run vars
  | .program p => leaves (evalProgram p vars)

/-- The variables of a new session after a series of requests. -/
def afterRequests (requests : List Request) : Env := requests.foldl Request.run .empty

/-- The same requests, run on a journal. -/
def journal (requests : List Request) : Journal := requests.foldl Request.run .empty

theorem Request.env_run (j : Journal) (request : Request) :
    (request.run j).env = request.run j.env := by
  have henv := Journal.morphism_env
  rcases request with (text | text) | program
  · exact (henv.evalLine text).leaves j
  · exact (henv.evalLines 1 none (Text.lines text)).leaves j
  · exact (henv.evalProgram program).leaves j

theorem env_journal (requests : List Request) :
    (journal requests).env = afterRequests requests := by
  have hfold : ∀ j : Journal, (requests.foldl Request.run j).env =
      requests.foldl Request.run j.env := by
    induction requests with
    | nil => intro j; rfl
    | cons request requests ih =>
      intro j
      rw [List.foldl_cons, List.foldl_cons, ih, Request.env_run]
  exact hfold .empty

/-- **One declaration a name, and the last write wins.**  Whatever a session has been
    asked, its log defines a name at most once and before any assignment to it; the
    names in use are those defined, and each has the value last written to it. -/
theorem journal_accounts_for_variables (requests : List Request) (name : String) :
    let env := afterRequests requests
    let log := (journal requests).log
    (journal requests).env = env ∧
      log.countP (fun w => w.isDefine && w.name = name) ≤ 1 ∧
      (∀ before value after, log = before ++ .assign name value :: after →
        ∃ first, Env.Write.define name first ∈ before) ∧
      (env.contains name ↔ ∃ value, Env.Write.define name value ∈ log) ∧
      env.get? name = (log.filter (·.name = name)).getLast?.map Env.Write.value ∧
      env.size = log.countP Env.Write.isDefine := by
  intro env log
  have henv : (journal requests).env = env := env_journal requests
  have hmade : Env.Made log env := henv ▸ (journal requests).made
  refine ⟨henv, hmade.countP_define_le_one name, ?_, ?_, hmade.get?_eq name, hmade.size_eq⟩
  · intro before value after hlog
    rw [hlog] at hmade
    exact hmade.define_mem_of_assign
  · rw [← hmade.mem_names_iff name]
    simp [Env.contains]

-- the second statement fails after its inner assignment, which stays in the log
example :
    (journal [.program [.declare "b" .null,
      .expr (.assign "a" (.assign "b" (.boolean true)))]]).log =
        [.define "b" .null, .assign "b" (.boolean true)] := by
  rfl

end Session

end LineCalc
