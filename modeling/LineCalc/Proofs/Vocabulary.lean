/-
  LineCalc/Proofs/Vocabulary.lean
  ===============================
  **A session holds nothing that was not written.**  The names, numbers and texts of a
  program are its atoms.  Two things are true of them.  Each stands in a token of the
  line that the program was parsed from; and a run of the program, whether it fails or
  not, leaves no name and no text that is neither an atom of the program nor was there
  before, because the operators make numbers, booleans and null only.

  Whatever a session has been through, its names are therefore words that are not
  reserved, and its texts are such as can stand between quotes.
-/
import LineCalc.Proofs.LineErrors
import LineCalc.Proofs.Variables

namespace LineCalc

/-! ### Atoms -/

inductive Atom where
  | name (name : String)
  | number (value : Binary64)
  | text (text : String)
  deriving DecidableEq

/-- The names, numbers and texts of an expression, also where no evaluation gets to. -/
def Expr.atoms : Expr → List Atom
  | .variable name => [.name name]
  | .number value => [.number value]
  | .string text => [.text text]
  | .boolean _ | .null | .whitespace _ => []
  | .not inner => inner.atoms
  | .arith _ left right | .compare _ left right => left.atoms ++ right.atoms
  | .assign name value => .name name :: value.atoms

mutual

def Statement.atoms : Statement → List Atom
  | .program body => Program.atoms body
  | .declare name value => .name name :: value.atoms
  | .expr e => e.atoms

def Program.atoms : List Statement → List Atom
  | [] => []
  | s :: rest => s.atoms ++ Program.atoms rest

end

/-! ### Atoms of tokens -/

/-- The token is where the atom is written.  The signs of a number stand before it. -/
inductive Token.Writes : Token → Atom → Prop where
  | name {t : Token} (h : t.kind = .identifier) : Writes t (.name t.text)
  | text {t : Token} (h : t.kind = .string) : Writes t (.text t.text)
  | number {t : Token} {value : Binary64} (negative : Bool) (h : t.kind = .number)
      (hvalue : Binary64.ofText? t.text = some value) :
      Writes t (.number (if negative then value.neg else value))

/-- Each of the atoms is written in one of the tokens. -/
def Token.WriteAll (ts : List Token) (atoms : List Atom) : Prop :=
  ∀ a ∈ atoms, ∃ t ∈ ts, t.Writes a

namespace Token.WriteAll

variable {ts us : List Token} {as bs : List Atom}

theorem nil : WriteAll ts [] := by
  intro a ha
  cases ha

theorem of_mem {t : Token} {a : Atom} (ht : t ∈ ts) (h : t.Writes a) : WriteAll ts [a] := by
  intro b hb
  obtain rfl := List.mem_singleton.mp hb
  exact ⟨t, ht, h⟩

theorem mono (h : WriteAll ts as) (hsub : ts ⊆ us) : WriteAll us as := by
  intro a ha
  obtain ⟨t, ht, hwrites⟩ := h a ha
  exact ⟨t, hsub ht, hwrites⟩

theorem append (ha : WriteAll ts as) (hb : WriteAll ts bs) : WriteAll ts (as ++ bs) := by
  intro a hmem
  rcases List.mem_append.mp hmem with hmem | hmem
  · exact ha a hmem
  · exact hb a hmem

/-- Two parts with a token between them, which need not write anything. -/
theorem join (ha : WriteAll ts as) (t : Token) (hb : WriteAll us bs) :
    WriteAll (ts ++ t :: us) (as ++ bs) := by
  have hsub : us ⊆ ts ++ t :: us := fun s hs => by simp [hs]
  exact (ha.mono (List.subset_append_left _ _)).append (hb.mono hsub)

end Token.WriteAll

namespace Grammar

open Token (WriteAll)

theorem Joins.atoms_eq {level : Parser.Level} {op : Operator} {node : Expr → Expr → Expr}
    (h : Joins level op node) (l r : Expr) : (node l r).atoms = l.atoms ++ r.atoms := by
  cases h <;> rfl

theorem Derives.writeAll {rank : Rank} {u : List Token} {e : Expr} (h : Derives rank u e) :
    WriteAll u e.atoms := by
  induction h with
  | name h => exact .of_mem List.mem_cons_self (.name h)
  | string h => exact .of_mem List.mem_cons_self (.text h)
  | null | trueLiteral | falseLiteral => exact .nil
  | number h hvalue => exact .of_mem List.mem_cons_self (.number false h hvalue)
  | @signed signs t value _ _ h hvalue =>
    have hmem : t ∈ signs ++ [t] := by simp
    exact .of_mem hmem (.number (negates signs) h hvalue)
  | group _ _ _ ih =>
    exact ih.mono fun t ht => List.mem_cons_of_mem _ (List.mem_append_left _ ht)
  | operand _ ih => exact ih
  | comparison _ ih => exact ih
  | join _ _ hop _ ihl ihr =>
    rw [hop.atoms_eq]
    exact ihl.join _ ihr
  | assign _ _ _ ihl ihr =>
    -- the target is itself an expression, whose only atom is its name
    exact ihl.join _ ihr

theorem DerivesStatement.writeAll {u : List Token} {s : Statement} (h : DerivesStatement u s) :
    WriteAll u s.atoms := by
  cases h with
  | @bare s n _ hn =>
    have hmem : n ∈ [s, n] := by simp
    rw [Statement.atoms]
    exact .of_mem hmem (.name hn)
  | @declare s n t u e _ hn _ h =>
    have hmem : n ∈ s :: n :: t :: u := by simp
    have hsub : u ⊆ s :: n :: t :: u := fun x hx => by simp [hx]
    rw [Statement.atoms]
    exact (WriteAll.of_mem hmem (.name hn)).append (h.writeAll.mono hsub)
  | expr h =>
    rw [Statement.atoms]
    exact h.writeAll

theorem Split.writeAll {u : List Token} {p : Program} {pieces : List (List Token)}
    (h : Split u p pieces) : WriteAll u (Program.atoms p) := by
  obtain ⟨rfl, hderives, -, -⟩ := h
  induction hderives with
  | nil => rw [Program.atoms]; exact .nil
  | cons hs _ ih =>
    rw [Program.atoms, List.flatten_cons]
    exact (hs.writeAll.mono (List.subset_append_left _ _)).append
      (ih.mono (List.subset_append_right _ _))

end Grammar

/-- **Every atom of a program stands in a token.** -/
theorem Program.writeAll_of_ofTokens {ts : List Token} {p : Program}
    (h : Program.ofTokens ts = .ok p) : Token.WriteAll ts (Program.atoms p) := by
  obtain ⟨rest, hprogram⟩ := ofTokens_ok_iff.mp h
  obtain ⟨u, t, pieces, rfl, -, hsplit⟩ := Parser.program_eq_ok hprogram
  have hsub : Parser.strip u ⊆ u := List.filter_subset_self u
  exact hsplit.writeAll.mono fun t ht => List.mem_append_left _ (hsub ht)

/-! ### Atoms of lines -/

/-- The atom can be written in a text. -/
def Atom.Lexical (a : Atom) : Prop := ∃ t : Token, t.Lexical ∧ t.Writes a

/-- A text that can stand between quotes. -/
def IsQuotable (text : String) : Prop :=
  '\x00' ∉ text.toList ∧ text.toList.getLast? ≠ some '\\'

instance : DecidablePred IsQuotable := fun _ => inferInstanceAs (Decidable (_ ∧ _))

theorem Atom.Lexical.isName {name : String} (h : Atom.Lexical (.name name)) : IsName name := by
  obtain ⟨t, hlexical, hwrites⟩ := h
  cases hwrites with
  | name hkind =>
    simp only [Token.Lexical, hkind] at hlexical
    exact ⟨hlexical.1, hlexical.2.1⟩

theorem Atom.Lexical.isQuotable {text : String} (h : Atom.Lexical (.text text)) :
    IsQuotable text := by
  obtain ⟨t, hlexical, hwrites⟩ := h
  cases hwrites with
  | text hkind =>
    simp only [Token.Lexical, hkind] at hlexical
    exact ⟨hlexical.1, hlexical.2.1⟩

theorem Token.Writes.ne_endOfLine {t : Token} {a : Atom} (h : t.Writes a) : t ≠ .endOfLine := by
  rintro rfl
  cases h <;> contradiction

theorem Session.lexical_of_parseLine {line : String} {p : Program} (h : parseLine line = .ok p) :
    ∀ a ∈ Program.atoms p, a.Lexical := by
  intro a ha
  obtain ⟨ts, htext, hparse⟩ := parseLine_ok_iff.mp h
  obtain ⟨body, rfl, hlexical, -⟩ := Token.canonical_of_ofChars htext
  obtain ⟨t, ht, hwrites⟩ := Program.writeAll_of_ofTokens hparse a ha
  have hmem : t ∈ body := by simpa [hwrites.ne_endOfLine] using ht
  exact ⟨t, hlexical t hmem, hwrites⟩

/-! ### Variables within a vocabulary -/

/-- If the value is a text, it is one of these atoms. -/
def Value.Within (allowed : Atom → Prop) (value : Value) : Prop :=
  ∀ text, value = .string text → allowed (.text text)

/-- The names in use and the texts stored are among these atoms. -/
def Env.Within (allowed : Atom → Prop) (env : Env) : Prop :=
  ∀ name value, env.get? name = some value → allowed (.name name) ∧ value.Within allowed

section Within

variable {allowed : Atom → Prop}

theorem Value.within_string {text : String} (h : allowed (.text text)) :
    (Value.string text).Within allowed := by
  rintro _ ⟨⟩
  exact h

theorem Value.within_of_kind {value : Value} (h : value.kind ≠ .string) :
    value.Within allowed := by
  rintro text rfl
  exact absurd rfl h

theorem Value.within_null : Value.null.Within allowed := Value.within_of_kind nofun

theorem ArithOp.within_eval (op : ArithOp) (l r : Value) : (op.eval l r).Within allowed := by
  apply Value.within_of_kind
  unfold eval
  split <;> simp [Value.kind]

theorem CompareOp.within_eval (op : CompareOp) (l r : Value) : (op.eval l r).Within allowed := by
  apply Value.within_of_kind
  unfold eval
  split
  · simp [Value.kind]
  · split <;> simp [Value.kind]

theorem Env.within_empty : Env.empty.Within allowed := by
  intro name value h
  cases h

/-- A write keeps to the vocabulary if its name and its value do. -/
theorem Env.Within.write {env env' : Env} {name : String} {value : Value}
    (h : env.Within allowed) (hname : allowed (.name name)) (hvalue : value.Within allowed)
    (hwrite : ∀ x, env'.get? x = if x = name then some value else env.get? x) :
    env'.Within allowed := by
  intro x v hget
  rw [hwrite] at hget
  by_cases hx : x = name
  · rw [if_pos hx] at hget
    cases hget
    exact ⟨hx ▸ hname, hvalue⟩
  · rw [if_neg hx] at hget
    exact h x v hget

theorem Env.Within.of_define {env env' : Env} {name : String} {value : Value}
    (h : env.Within allowed) (hname : allowed (.name name)) (hvalue : value.Within allowed)
    (hok : env.define name value = .ok env') : env'.Within allowed :=
  h.write hname hvalue (get?_of_define hok)

/-- An assignment brings in no name. -/
theorem Env.Within.of_assign {env env' : Env} {name : String} {value : Value}
    (h : env.Within allowed) (hvalue : value.Within allowed)
    (hok : env.assign name value = .ok env') : env'.Within allowed := by
  have hcontains : env.contains name := by simpa [contains] using (assign_eq_ok hok).1
  obtain ⟨old, hold⟩ := contains_iff_exists_get?.mp hcontains
  exact h.write (h name old hold).1 hvalue (get?_of_assign hok)

end Within

/-! ### Runs within a vocabulary -/

namespace Session

variable {ε δ α β : Type} {allowed : Atom → Prop}

/-- The variables are within the vocabulary, and a result has this property. -/
inductive Ends (allowed : Atom → Prop) (post : α → Prop) : EStateM.Result ε Env α → Prop where
  | ok {a : α} {env : Env} : post a → env.Within allowed → Ends allowed post (.ok a env)
  | error {e : ε} {env : Env} : env.Within allowed → Ends allowed post (.error e env)

theorem Ends.leaves {post : α → Prop} {r : EStateM.Result ε Env α} (h : Ends allowed post r) :
    (leaves r).Within allowed := by
  cases h with
  | ok _ henv => exact henv
  | error henv => exact henv

/-- Another result or another error, with the same variables. -/
theorem Ends.of_leaves_eq {post : α → Prop} {r : EStateM.Result ε Env α}
    {r' : EStateM.Result δ Env β} (h : Ends allowed post r)
    (heq : Session.leaves r' = Session.leaves r) : Ends allowed (fun _ => True) r' := by
  have henv := h.leaves
  rw [← heq] at henv
  cases r' with
  | ok b env => exact .ok trivial henv
  | error e env => exact .error henv

/-- Run from variables within the vocabulary, the computation leaves such variables. -/
def Keeps (allowed : Atom → Prop) (post : α → Prop) (m : Session ε α) : Prop :=
  ∀ env, env.Within allowed → Ends allowed post (m env)

theorem keeps_pure {post : α → Prop} {a : α} (h : post a) :
    Keeps allowed post (pure a : Session ε α) :=
  fun _ henv => .ok h henv

theorem keeps_throw {post : α → Prop} (e : ε) : Keeps allowed post (throw e : Session ε α) :=
  fun _ henv => .error henv

theorem Keeps.bind {post : α → Prop} {post' : β → Prop} {m : Session ε α} {f : α → Session ε β}
    (hm : Keeps allowed post m) (hf : ∀ a, post a → Keeps allowed post' (f a)) :
    Keeps allowed post' (m >>= f) := by
  intro env henv
  have hends := hm env henv
  generalize hres : m env = result at hends
  cases hends with
  | ok ha hmid =>
    rw [bind_of_ok hres]
    exact hf _ ha _ hmid
  | error hmid =>
    rw [bind_of_error hres]
    exact .error hmid

theorem keeps_lookup (name : String) :
    Keeps allowed (Value.Within allowed) (Eval.lookup name) := by
  intro env henv
  cases hget : env.get? name with
  | some value =>
    rw [Eval.lookup_of_some hget]
    exact .ok (henv name value hget).2 henv
  | none =>
    rw [Eval.lookup_of_none hget]
    exact .error henv

theorem keeps_update {f : Env → Except EvalError Env}
    (h : ∀ env env', env.Within allowed → f env = .ok env' → env'.Within allowed) :
    Keeps allowed (fun _ => True) (Eval.update f) := by
  intro env henv
  cases hf : f env with
  | ok env' =>
    rw [Eval.update_of_ok hf]
    exact .ok trivial (h env env' henv hf)
  | error e =>
    rw [Eval.update_of_error hf]
    exact .error henv

theorem keeps_evalExpr (e : Expr) (h : ∀ a ∈ e.atoms, allowed a) :
    Keeps allowed (Value.Within allowed) e.eval := by
  induction e with
  | «variable» name => exact keeps_lookup name
  | string text => exact keeps_pure (Value.within_string (h _ List.mem_cons_self))
  | number | boolean | null => exact keeps_pure (Value.within_of_kind nofun)
  | whitespace | not => exact keeps_throw _
  | arith op left right ihl ihr =>
    have hl := ihl fun a ha => h a (List.mem_append_left _ ha)
    have hr := ihr fun a ha => h a (List.mem_append_right _ ha)
    exact hl.bind fun l _ => hr.bind fun r _ => keeps_pure (op.within_eval l r)
  | compare op left right ihl ihr =>
    have hl := ihl fun a ha => h a (List.mem_append_left _ ha)
    have hr := ihr fun a ha => h a (List.mem_append_right _ ha)
    exact hl.bind fun l _ => hr.bind fun r _ => keeps_pure (op.within_eval l r)
  | assign name value ih =>
    have hvalue := ih fun a ha => h a (List.mem_cons_of_mem _ ha)
    refine hvalue.bind fun v hv => ?_
    exact (keeps_update fun env env' henv => henv.of_assign hv).bind fun _ _ => keeps_pure hv

mutual

theorem keeps_evalStatement (s : Statement) (h : ∀ a ∈ s.atoms, allowed a) :
    Keeps allowed (Value.Within allowed) s.eval := by
  cases s with
  | program body =>
    rw [Statement.atoms] at h
    rw [Statement.eval]
    exact keeps_evalFrom body h Value.within_null
  | declare name value =>
    rw [Statement.atoms] at h
    rw [Statement.eval]
    have hname := h _ List.mem_cons_self
    have hvalue := keeps_evalExpr value fun a ha => h a (List.mem_cons_of_mem _ ha)
    refine hvalue.bind fun v hv => ?_
    exact (keeps_update fun env env' henv => henv.of_define hname hv).bind fun _ _ => keeps_pure hv
  | expr e =>
    rw [Statement.atoms] at h
    rw [Statement.eval]
    exact keeps_evalExpr e h

theorem keeps_evalFrom (p : List Statement) (h : ∀ a ∈ Program.atoms p, allowed a) {last : Value}
    (hlast : last.Within allowed) :
    Keeps allowed (Value.Within allowed) (Program.evalFrom last p) := by
  cases p with
  | nil =>
    rw [Program.evalFrom]
    exact keeps_pure hlast
  | cons s rest =>
    rw [Program.atoms] at h
    rw [Program.evalFrom]
    have hs := keeps_evalStatement s fun a ha => h a (List.mem_append_left _ ha)
    exact hs.bind fun v hv =>
      keeps_evalFrom rest (fun a ha => h a (List.mem_append_right _ ha)) hv

end

/-- **A program leaves no name and no text but its own** and those it found. -/
theorem keeps_evalProgram (p : Program) (h : ∀ a ∈ Program.atoms p, allowed a) :
    Keeps allowed (fun _ => True) (evalProgram p) := by
  intro env henv
  have hends := keeps_evalFrom p h Value.within_null env henv
  refine hends.of_leaves_eq ?_
  unfold evalProgram Program.eval
  cases Program.evalFrom .null p env <;> rfl

/-! ### Sessions -/

theorem keeps_evalLine (line : String) : Keeps Atom.Lexical (fun _ => True) (evalLine line) := by
  unfold evalLine
  cases hparse : parseLine line with
  | ok p => exact keeps_evalProgram p (lexical_of_parseLine hparse)
  | error e => exact keeps_throw e

theorem keeps_evalNumbered (number : Nat) (line : String) :
    Keeps Atom.Lexical (fun _ => True) (evalNumbered number line) := by
  intro env henv
  refine (keeps_evalLine line env henv).of_leaves_eq ?_
  unfold evalNumbered
  cases evalLine line env <;> rfl

theorem keeps_evalLines (number : Nat) (last : Option String) (lines : List String) :
    Keeps Atom.Lexical (fun _ => True) (evalLines number last lines) := by
  induction lines generalizing number last with
  | nil => exact keeps_pure trivial
  | cons line rest ih =>
    unfold evalLines
    by_cases hblank : Text.isBlank line
    · rw [if_pos hblank]
      exact ih (number + 1) last
    · rw [if_neg hblank]
      exact (keeps_evalNumbered number line).bind fun value _ => ih (number + 1) (some value)

theorem Call.within_run (call : Call) {env : Env} (h : env.Within Atom.Lexical) :
    (call.run env).Within Atom.Lexical := by
  cases call with
  | line text => exact (keeps_evalLine text env h).leaves
  | source text => exact (keeps_evalLines 1 none (Text.lines text) env h).leaves

theorem within_after (calls : List Call) : (after calls).Within Atom.Lexical :=
  List.foldlRecOn calls Call.run Env.within_empty fun _ henv call _ => call.within_run henv

/-- A line that declares a name with a text. -/
theorem get?_after_declare {name text : String} (hname : IsName name) (htext : IsQuotable text) :
    (after [.line (Program.source 0 [.declare name (.string text)])]).get? name =
      some (.string text) := by
  have hexpressible : Program.Expressible [.declare name (.string text)] := by
    simpa [Program.Expressible, Statement.Expressible, Expr.Expressible] using ⟨hname, htext⟩
  have hrun : after [.line (Program.source 0 [.declare name (.string text)])] =
      leaves (evalProgram [.declare name (.string text)] .empty) := by
    rw [← evalLine_source 0 hexpressible]
    rfl
  have hdeclared : evalProgram [.declare name (.string text)] .empty =
      .ok text ⟨[(name, .string text)], by simp⟩ := rfl
  rw [hrun, hdeclared]
  exact List.lookup_cons_self

/-- **A session holds nothing that was not written.**  The names that a session can come to
    use, by any calls and whether they fail or not, are the words that are not reserved;
    the texts that it can come to store are those without a NUL and without a backslash
    at the end. -/
theorem names_and_texts_of_sessions :
    (∀ name, (∃ calls, (after calls).contains name) ↔ IsName name) ∧
      ∀ text, (∃ calls name, (after calls).get? name = some (.string text)) ↔ IsQuotable text := by
  constructor
  · intro name
    constructor
    · rintro ⟨calls, hcontains⟩
      obtain ⟨value, hget⟩ := Env.contains_iff_exists_get?.mp hcontains
      exact (within_after calls name value hget).1.isName
    · intro h
      have hempty : IsQuotable "" := by decide
      exact ⟨_, Env.contains_iff_exists_get?.mpr ⟨_, get?_after_declare h hempty⟩⟩
  · intro text
    constructor
    · rintro ⟨calls, name, hget⟩
      exact ((within_after calls name _ hget).2 text rfl).isQuotable
    · intro h
      have hname : IsName "x" := isName_letter (c := 'x') rfl
      exact ⟨_, _, get?_after_declare hname h⟩

end Session

end LineCalc
