/-
  LineCalc/Env.lean
  =================
  **The variables of a session.**  There is one scope: a name is declared once
  and then assigned any number of times.  The variables are kept with their
  values in a list in which no name occurs twice; `get?` is the view of it that
  everything else is said in.

  Programs run on any `Store`, which reads and writes variables and may refuse a
  write.  Where no other is meant it is an `Env`.
-/
import LineCalc.Value
import LineCalc.Program.EvalError

namespace LineCalc

/-- Variables with their values, no name twice. -/
structure Env where
  vars : List (String × Value)
  nodup : (vars.map Prod.fst).Nodup

namespace Env

def empty : Env := ⟨[], List.nodup_nil⟩

/-- The names declared. -/
def names (env : Env) : List String := env.vars.map Prod.fst

/-- The value of a name. -/
def get? (env : Env) (name : String) : Option Value := env.vars.lookup name

def contains (env : Env) (name : String) : Bool := name ∈ env.names

def size (env : Env) : Nat := env.vars.length

/-- A new variable; the name must not be in use. -/
def define (env : Env) (name : String) (value : Value) : Except EvalError Env :=
  if h : name ∈ env.names then .error (.alreadyDeclared name)
  else .ok ⟨(name, value) :: env.vars, List.nodup_cons.mpr ⟨h, env.nodup⟩⟩

/-- The variables with another value for one name. -/
def replace (name : String) (value : Value) (vars : List (String × Value)) :
    List (String × Value) :=
  vars.map fun var => if var.1 = name then (name, value) else var

theorem map_fst_replace (name : String) (value : Value) (vars : List (String × Value)) :
    (replace name value vars).map Prod.fst = vars.map Prod.fst := by
  unfold replace
  rw [List.map_map]
  refine List.map_congr_left fun var _ => ?_
  by_cases h : var.1 = name <;> simp [h]

/-- Another value for a variable; the name must be in use. -/
def assign (env : Env) (name : String) (value : Value) : Except EvalError Env :=
  if name ∈ env.names then
    .ok ⟨replace name value env.vars, by rw [map_fst_replace]; exact env.nodup⟩
  else .error (.notDeclared name)

/-- The same names with equal values, numbers compared by value. -/
def eqv (a b : Env) : Bool :=
  a.size = b.size &&
    a.vars.all fun (name, value) => (b.get? name).any value.eqv

end Env

/-- What programs run on. -/
class Store (σ : Type) where
  /-- The value of a name. -/
  get? : σ → String → Option Value
  /-- A new variable. -/
  define : σ → String → Value → Except EvalError σ
  /-- Another value for a variable. -/
  assign : σ → String → Value → Except EvalError σ

@[default_instance]
instance : Store Env := ⟨Env.get?, Env.define, Env.assign⟩

end LineCalc
