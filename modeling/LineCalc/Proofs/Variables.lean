/-
  LineCalc/Proofs/Variables.lean
  ==============================
  **What the variables are after a write.**  Defining and assigning differ in the names
  they ask for and leave; on the values they agree, and neither touches another name.

  Computations on the variables run one after the other, and one that fails is the last.
-/
import LineCalc.Session

namespace LineCalc

namespace Env

theorem lookup_cons (key x : String) (value : Value) (vars : List (String × Value)) :
    ((key, value) :: vars).lookup x = if x = key then some value else vars.lookup x := by
  rw [List.lookup_cons]
  by_cases hx : x = key
  · simp [hx]
  · rw [beq_false_of_ne hx, if_neg hx]

theorem lookup_replace (name : String) (value : Value) (vars : List (String × Value))
    (x : String) :
    (replace name value vars).lookup x =
      if x = name ∧ name ∈ vars.map Prod.fst then some value else vars.lookup x := by
  induction vars with
  | nil => simp [replace]
  | cons var vars ih =>
    obtain ⟨key, old⟩ := var
    have hcons : replace name value ((key, old) :: vars) =
        (if key = name then (name, value) else (key, old)) :: replace name value vars := rfl
    rw [hcons, lookup_cons key]
    by_cases hkey : key = name
    · subst hkey
      rw [if_pos rfl, lookup_cons, ih]
      by_cases hx : x = key
      · simp [hx]
      · simp [hx]
    · rw [if_neg hkey, lookup_cons, ih]
      by_cases hx : x = key
      · subst hx
        simp [hkey]
      · have hkey' : ¬ name = key := fun h => hkey h.symm
        simp only [if_neg hx, List.map_cons, List.mem_cons, hkey', false_or]

theorem get?_eq_none_iff {env : Env} {name : String} :
    env.get? name = none ↔ name ∉ env.names := by
  unfold get? names
  rw [List.lookup_eq_none_iff]
  constructor
  · intro h hmem
    obtain ⟨var, hvar, rfl⟩ := List.mem_map.mp hmem
    simpa using h var hvar
  · intro h var hvar
    have hne : name ≠ var.1 := fun heq => h (heq ▸ List.mem_map_of_mem hvar)
    simpa using hne

theorem contains_iff_exists_get? {env : Env} {name : String} :
    env.contains name ↔ ∃ value, env.get? name = some value := by
  rw [← Option.ne_none_iff_exists', ne_eq, get?_eq_none_iff]
  simp [contains]

theorem define_of_mem {env : Env} {name : String} (h : name ∈ env.names) (value : Value) :
    env.define name value = .error (.alreadyDeclared name) :=
  dif_pos h

theorem exists_define_of_not_mem {env : Env} {name : String} (h : name ∉ env.names)
    (value : Value) : ∃ env', env.define name value = .ok env' :=
  ⟨_, dif_neg h⟩

theorem assign_of_not_mem {env : Env} {name : String} (h : name ∉ env.names) (value : Value) :
    env.assign name value = .error (.notDeclared name) :=
  if_neg h

theorem exists_assign_of_mem {env : Env} {name : String} (h : name ∈ env.names)
    (value : Value) : ∃ env', env.assign name value = .ok env' :=
  ⟨_, if_pos h⟩

theorem define_eq_ok {env env' : Env} {name : String} {value : Value}
    (h : env.define name value = .ok env') :
    name ∉ env.names ∧ env'.vars = (name, value) :: env.vars := by
  unfold define at h
  split at h
  · cases h
  · cases h
    exact ⟨by assumption, rfl⟩

theorem assign_eq_ok {env env' : Env} {name : String} {value : Value}
    (h : env.assign name value = .ok env') :
    name ∈ env.names ∧ env'.vars = replace name value env.vars := by
  unfold assign at h
  split at h
  · cases h
    exact ⟨by assumption, rfl⟩
  · cases h

theorem get?_of_define {env env' : Env} {name : String} {value : Value}
    (h : env.define name value = .ok env') (x : String) :
    env'.get? x = if x = name then some value else env.get? x := by
  unfold get?
  rw [(define_eq_ok h).2, lookup_cons]

theorem get?_of_assign {env env' : Env} {name : String} {value : Value}
    (h : env.assign name value = .ok env') (x : String) :
    env'.get? x = if x = name then some value else env.get? x := by
  obtain ⟨hmem, hvars⟩ := assign_eq_ok h
  have hmem' : name ∈ env.vars.map Prod.fst := hmem
  unfold get?
  rw [hvars, lookup_replace]
  simp only [hmem', and_true]

theorem names_of_define {env env' : Env} {name : String} {value : Value}
    (h : env.define name value = .ok env') : env'.names = name :: env.names := by
  unfold names
  rw [(define_eq_ok h).2]
  rfl

theorem names_of_assign {env env' : Env} {name : String} {value : Value}
    (h : env.assign name value = .ok env') : env'.names = env.names := by
  unfold names
  rw [(assign_eq_ok h).2, map_fst_replace]

end Env

namespace Eval

variable {f : Env → Except EvalError Env} {env env' : Env}

theorem update_of_ok (h : f env = .ok env') : update f env = .ok () env' := by
  simp only [update, h]

theorem update_of_error {error : EvalError} (h : f env = .error error) :
    update f env = .error error env := by
  simp only [update, h]

theorem lookup_of_some {name : String} {value : Value} (h : env.get? name = some value) :
    lookup name env = .ok value env := by
  have hget : Store.get? env name = some value := h
  simp only [lookup, hget]

theorem lookup_of_none {name : String} (h : env.get? name = none) :
    lookup name env = .error (.unknownVariable name) env := by
  have hget : Store.get? env name = none := h
  simp only [lookup, hget]

end Eval

namespace Session

variable {ε α β : Type} {m : Session ε α} {f : α → Session ε β} {env mid env' : Env}

theorem bind_of_ok {a : α} (h : m env = .ok a mid) : (m >>= f) env = f a mid := by
  simp only [Bind.bind, EStateM.bind, h]

theorem bind_of_error {error : ε} (h : m env = .error error mid) :
    (m >>= f) env = .error error mid := by
  simp only [Bind.bind, EStateM.bind, h]

theorem bind_eq_ok_iff {b : β} :
    (m >>= f) env = .ok b env' ↔ ∃ a mid, m env = .ok a mid ∧ f a mid = .ok b env' := by
  cases h : m env with
  | ok a mid => simp [bind_of_ok h, and_assoc]
  | error error mid => simp [bind_of_error h]

theorem bind_eq_error_iff {error : ε} :
    (m >>= f) env = .error error env' ↔
      m env = .error error env' ∨ ∃ a mid, m env = .ok a mid ∧ f a mid = .error error env' := by
  cases h : m env with
  | ok a mid => simp [bind_of_ok h, and_assoc]
  | error error mid => simp [bind_of_error h]

end Session

/-- Statements in a row run as two programs, one after the other. -/
theorem Program.evalFrom_append (last : Value) (p q : List Statement) :
    Program.evalFrom last (p ++ q) =
      Program.evalFrom last p >>= fun value => Program.evalFrom value q := by
  induction p generalizing last with
  | nil => simp [Program.evalFrom]
  | cons s p ih => simp [Program.evalFrom, ih]

end LineCalc
