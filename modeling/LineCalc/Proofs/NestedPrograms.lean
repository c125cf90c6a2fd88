/-
  LineCalc/Proofs/NestedPrograms.lean
  ===================================
  **Programs inside programs.**  A statement may be a program.  It runs in the variables
  around it, so its statements could as well stand in its place: `Program.flatten` puts
  them there at every depth, and what is left has no programs inside.

  Running the two makes the same writes and fails at the same place.  Only the value can
  differ, because an empty program has a value, null, and leaves nothing behind when it is
  flattened.  This shows where an empty program comes last (`Program.endsEmpty`), and
  nowhere else.
-/
import LineCalc.Proofs.Variables

namespace LineCalc

/-! ### Flattening -/

mutual

def Statement.flatten : Statement → List Statement
  | .program body => Program.flatten body
  | .declare name value => [.declare name value]
  | .expr e => [.expr e]

/-- The statements in order, those of a program inside in place of that program. -/
def Program.flatten : List Statement → List Statement
  | [] => []
  | s :: rest => s.flatten ++ Program.flatten rest

end

mutual

def Statement.endsEmpty : Statement → Bool
  | .program body => Program.endsEmpty body
  | .declare _ _ | .expr _ => false

/-- There are no statements, or the last one is a program that ends in the same way. -/
def Program.endsEmpty : List Statement → Bool
  | [] => true
  | s :: rest => if rest.isEmpty then s.endsEmpty else Program.endsEmpty rest

end

mutual

theorem Statement.program_not_mem_flatten (s : Statement) (body : List Statement) :
    .program body ∉ s.flatten := by
  cases s with
  | program inner =>
    rw [Statement.flatten]
    exact Program.program_not_mem_flatten inner body
  | declare | expr => simp [Statement.flatten]

theorem Program.program_not_mem_flatten (p body : List Statement) :
    .program body ∉ Program.flatten p := by
  cases p with
  | nil => simp [Program.flatten]
  | cons s rest =>
    rw [Program.flatten, List.mem_append, not_or]
    exact ⟨s.program_not_mem_flatten body, Program.program_not_mem_flatten rest body⟩

end

/-! ### Running the flattened program -/

/-- The value of statements that end empty is null. -/
def Value.nullIf (empty : Bool) (value : Value) : Value := if empty then .null else value

theorem Program.evalFrom_singleton (last : Value) (s : Statement) :
    Program.evalFrom last [s] = s.eval := by
  simp [Program.evalFrom]

mutual

theorem Statement.eval_eq_flatten (s : Statement) (last : Value) :
    s.eval = Value.nullIf s.endsEmpty <$> Program.evalFrom last s.flatten := by
  cases s with
  | program body =>
    rw [Statement.eval, Statement.endsEmpty, Statement.flatten]
    by_cases hne : body = []
    · subst hne
      rfl
    · exact Program.evalFrom_eq_flatten body hne .null last
  | declare name value =>
    rw [Statement.flatten, Program.evalFrom_singleton]
    exact (id_map _).symm
  | expr e =>
    rw [Statement.flatten, Program.evalFrom_singleton]
    exact (id_map _).symm

/-- The value before the statements is lost on both sides: where flattening leaves none of
    them, they end empty. -/
theorem Program.evalFrom_eq_flatten (p : List Statement) (hne : p ≠ []) (last last' : Value) :
    Program.evalFrom last p =
      Value.nullIf (Program.endsEmpty p) <$> Program.evalFrom last' (Program.flatten p) := by
  cases p with
  | nil => exact absurd rfl hne
  | cons s rest =>
    rw [Program.evalFrom, Statement.eval_eq_flatten s last', Program.flatten,
      Program.evalFrom_append, Program.endsEmpty]
    by_cases hrest : rest = []
    · subst hrest
      simp [Program.evalFrom, Program.flatten]
    · rw [if_neg (by simpa using hrest), map_bind, bind_map_left]
      refine bind_congr fun value => ?_
      exact Program.evalFrom_eq_flatten rest hrest _ value

end

/-- **Programs inside programs run as if their statements stood in their place.**  The
    flattened program has no programs inside.  It fails where the program fails, with the
    same error, and leaves the same variables in any case; where it succeeds, so does the
    program, and with the same value unless it ends empty, when its value is null. -/
theorem Program.eval_flatten (p : Program) :
    (∀ body, .program body ∉ Program.flatten p) ∧
      ∀ env, p.eval env =
        match Program.eval (Program.flatten p) env with
        | .ok value env' => .ok (if Program.endsEmpty p then .null else value) env'
        | .error error env' => .error error env' := by
  refine ⟨Program.program_not_mem_flatten p, fun env => ?_⟩
  have heval :
      p.eval = Value.nullIf (Program.endsEmpty p) <$> Program.eval (Program.flatten p) := by
    by_cases hne : p = []
    · subst hne
      rfl
    · exact Program.evalFrom_eq_flatten p hne .null .null
  rw [heval]
  cases hflat : Program.eval (Program.flatten p) env with
  | ok value env' => simp only [Functor.map, EStateM.map, hflat, Value.nullIf]
  | error error env' => simp only [Functor.map, EStateM.map, hflat]

/-- An empty program at the end of a program inside: flattened, the value is that of `x`. -/
def Program.emptyLast : Program :=
  [.declare "x" (.boolean true), .program [.expr (.variable "x"), .program [.program []]]]

theorem Program.eval_emptyLast :
    Program.emptyLast.eval .empty = .ok .null ⟨[("x", .boolean true)], by simp⟩ ∧
      Program.eval (Program.flatten Program.emptyLast) .empty =
        .ok (.boolean true) ⟨[("x", .boolean true)], by simp⟩ := by
  have hflat : Program.eval (Program.flatten Program.emptyLast) .empty =
      .ok (.boolean true) ⟨[("x", .boolean true)], by simp⟩ := rfl
  refine ⟨?_, hflat⟩
  rw [(Program.eval_flatten Program.emptyLast).2, hflat]
  rfl

end LineCalc
