/-
  LineCalc/Proofs/JoinedLines.lean
  ================================
  **Two lines on one.**  Nothing separates statements, so two lines with a blank in
  between make one line, and that line is the first followed by the second: it has the
  statements of both, and it runs the second in the variables that the first has left.

  Three things have to hold at the seam.  No lexeme reaches across the blank; white space
  may, but it counts for nothing.  A sign at the start of the second line would go on with
  an expression of the first, so there is none.  And a declaration without a value is one
  at the end of its line only: in front of a second line it misses its `=`.
-/
import LineCalc.Proofs.LineEnd
import LineCalc.Proofs.LineErrors
import LineCalc.Proofs.Variables

namespace LineCalc

/-! ### The tokens of joined texts -/

namespace Token

open LineCalc.Parser Lexeme

theorem IsRun.append {first later : Char → Bool} {run ds : List Char} (h : IsRun first later run)
    (hds : ∀ d ∈ ds, later d) : IsRun first later (run ++ ds) := by
  cases run with
  | nil => exact absurd h id
  | cons c run =>
    refine ⟨h.1, ?_⟩
    intro d hd
    rcases List.mem_append.mp hd with hd | hd
    · exact h.2 d hd
    · exact hds d hd

theorem IsRun.isBlankPart {run : List Char} (h : IsRun isBlankStart isBlankPart run) :
    ∀ c ∈ run, isBlankPart c := by
  cases run with
  | nil => exact absurd h id
  | cons c run => exact List.forall_mem_cons.mpr ⟨isBlankPart_of_isBlankStart h.1, h.2⟩

theorem Lexical.isRun_spelling {t : Token} (ht : t.Lexical) (hkind : t.kind = .whitespace) :
    IsRun isBlankStart isBlankPart t.spelling := by
  simp only [Lexical, hkind] at ht
  simp only [spelling, hkind]
  exact ht.1

/-- A text behind its white space has the same tokens, white space apart. -/
theorem exists_ofChars_dropWhile {cs : List Char} {ts : List Token} (h : ofChars cs = .ok ts) :
    ∃ us, ofChars (cs.dropWhile isBlankPart) = .ok us ∧ strip us = strip ts := by
  cases hread : read cs with
  | endOfText =>
    refine ⟨ts, ?_, rfl⟩
    have hnul := read_eq_endOfText_iff.mp hread
    cases cs with
    | nil => exact h
    | cons c cs =>
      have hc : c = '\x00' := by simpa [beforeNul] using hnul
      rwa [List.dropWhile_cons_of_neg (by rw [hc]; decide)]
  | fault e rest =>
    rw [ofChars_of_fault hread] at h
    cases h
  | token t feeds rest =>
    obtain ⟨ht, rfl, hrest, -⟩ := read_eq_token_iff.mp hread
    by_cases hkind : t.kind = .whitespace
    · have hdelimited : ∀ c ∈ rest.head?, isBlankPart c = false := by
        simpa only [Delimited, continues, hkind] using hrest
      rw [dropWhile_append_of_head (ht.isRun_spelling hkind).isBlankPart hdelimited]
      rw [ofChars_of_token hread] at h
      cases hus : ofChars rest with
      | error e =>
        rw [hus] at h
        cases h
      | ok us =>
        rw [hus] at h
        cases h
        exact ⟨us, rfl, (strip_cons_of_eq hkind).symm⟩
    · refine ⟨ts, ?_, rfl⟩
      obtain ⟨c, tail, hspell, hblank, -⟩ := ht.exists_head
      rw [hspell] at h ⊢
      rwa [List.cons_append, List.dropWhile_cons_of_neg (by rwa [hblank])]

/-- Blanks in front of a text make no difference, white space apart. -/
theorem exists_ofChars_blank {run cs : List Char} {ts : List Token}
    (hrun : IsRun isBlankStart isBlankPart run) (h : ofChars cs = .ok ts) :
    ∃ us, ofChars (run ++ cs) = .ok us ∧ strip us = strip ts := by
  -- the run goes on with the white space at the start of the text
  have hread := read_blank (hrun.append fun d hd => List.mem_takeWhile_imp (l := cs) hd)
    (head?_dropWhile_eq_false isBlankPart cs)
  rw [List.append_assoc, List.takeWhile_append_dropWhile] at hread
  obtain ⟨us, hus, hstrip⟩ := exists_ofChars_dropWhile h
  refine ⟨_, by rw [ofChars_of_token hread, hus]; rfl, ?_⟩
  rw [strip_cons_of_eq rfl, hstrip]

/-- A blank ends every token but white space. -/
theorem Delimited.append_blank {t : Token} {cs : List Char} (h : t.Delimited cs)
    (ds : List Char) : t.Delimited (cs ++ ' ' :: ds) ∨ cs = [] ∧ t.kind = .whitespace := by
  cases cs with
  | cons c cs => exact Or.inl h
  | nil =>
    by_cases hkind : t.kind = .whitespace
    · exact Or.inr ⟨rfl, hkind⟩
    · refine Or.inl ?_
      intro c hc
      obtain rfl : ' ' = c := by simpa using hc
      unfold continues
      split <;> simp_all

/-- **The tokens of joined texts.**  A blank keeps two texts apart: the tokens that count
    are those of the first, without its end of line, and those of the second. -/
theorem exists_ofChars_joined {cs ds : List Char} {ts us : List Token} (hcs : ofChars cs = .ok ts)
    (hds : ofChars ds = .ok us) (hnul : '\x00' ∉ cs) :
    ∃ body ws, ts = body ++ [.endOfLine] ∧ ofChars (cs ++ ' ' :: ds) = .ok ws ∧
      strip ws = strip body ++ strip us := by
  have hblank : IsRun isBlankStart isBlankPart [' '] := ⟨by decide, by simp⟩
  fun_induction ofChars cs generalizing ts with
  | case1 cs hread =>
    cases hcs
    have hnil : cs = [] := by
      cases cs with
      | nil => rfl
      | cons c cs =>
        have hc : c = '\x00' := by simpa [beforeNul] using read_eq_endOfText_iff.mp hread
        exact absurd (by simp [hc]) hnul
    subst hnil
    obtain ⟨ws, hws, hstrip⟩ := exists_ofChars_blank hblank hds
    exact ⟨[], ws, rfl, hws, hstrip⟩
  | case2 cs t feeds rest hread ts' hts ih =>
    cases hcs
    obtain ⟨ht, rfl, hrest, -⟩ := read_eq_token_iff.mp hread
    obtain ⟨body, ws, rfl, hws, hstrip⟩ := ih hts fun hmem => hnul (List.mem_append_right _ hmem)
    rcases hrest.append_blank ds with hdelimited | ⟨rfl, hkind⟩
    · refine ⟨t :: body, t :: ws, rfl, ?_, ?_⟩
      · rw [List.append_assoc, ofChars_spelling ht hdelimited, hws]
        rfl
      · calc strip (t :: ws)
          _ = strip [t] ++ strip ws := strip_append [t] ws
          _ = strip [t] ++ (strip body ++ strip us) := by rw [hstrip]
          _ = strip (t :: body) ++ strip us := by rw [← List.append_assoc, ← strip_append]; rfl
    · -- white space at the end of the first text goes on with the blank
      rw [ofChars_of_endOfText rfl] at hts
      obtain rfl : body = [] := by simpa using hts
      have hrun : IsRun isBlankStart isBlankPart (t.spelling ++ [' ']) :=
        (ht.isRun_spelling hkind).append hblank.isBlankPart
      obtain ⟨ws, hws, hstrip⟩ := exists_ofChars_blank hrun hds
      refine ⟨[t], ws, rfl, ?_, ?_⟩
      · simpa using hws
      · rw [hstrip, strip_cons_of_eq hkind]
        rfl
  | case3 => cases hcs
  | case4 => cases hcs

end Token

/-! ### Declarations without a value -/

namespace Grammar

open LineCalc.Parser

/-- The tokens end in `set` and a name. -/
def EndsBare (u : List Token) : Prop :=
  ∃ front s n, u = front ++ [s, n] ∧ s.kind = .keyword .set ∧ n.kind = .identifier

theorem DerivesStatement.of_isBare {piece : List Token} {x : Statement}
    (h : DerivesStatement piece x) (hplain : ∀ t ∈ piece, t.Plain) (hbare : IsBare piece) :
    ∃ s n, piece = [s, n] ∧ s.kind = .keyword .set ∧ n.kind = .identifier := by
  obtain ⟨s, n, rfl, hs⟩ := hbare
  cases h with
  | bare _ hn => exact ⟨s, n, rfl, hs, hn⟩
  | expr h =>
    have hwell : s.WellFormed := (hplain s List.mem_cons_self).1
    exact absurd hs (h.kind_ne (by decide) (by decide) List.mem_cons_self hwell)

/-- Where a statement has a value, two more tokens at least stand behind its `set`. -/
theorem DerivesStatement.two_le_of_set {piece a b : List Token} {x : Statement} {s : Token}
    (h : DerivesStatement piece x) (hplain : ∀ t ∈ piece, t.Plain) (hbare : ¬ IsBare piece)
    (hpiece : piece = a ++ s :: b) (hs : s.kind = .keyword .set) : 2 ≤ b.length := by
  have hmem : s ∈ piece := by simp [hpiece]
  have hplain' : s.Plain := hplain s hmem
  cases h with
  | bare hset => exact absurd ⟨_, _, rfl, hset⟩ hbare
  | @declare set n t w e hset hn ht hw =>
    cases a with
    | nil =>
      obtain ⟨-, rfl⟩ := List.cons.inj hpiece
      simp
    | cons r a =>
      have htail : s ∈ n :: t :: w := by simp [(List.cons.inj hpiece).2]
      simp only [List.mem_cons] at htail
      rcases htail with rfl | rfl | htail
      · simp [hn] at hs
      · simp [hplain'.kind_eq ht] at hs
      · exact absurd hs (hw.kind_ne (by decide) (by decide) htail hplain'.1)
  | expr h => exact absurd hs (h.kind_ne (by decide) (by decide) hmem hplain'.1)

/-- The same in a program. -/
theorem two_le_of_set {pieces : List (List Token)} {p : Program} {a b : List Token} {s : Token}
    (h : List.Forall₂ DerivesStatement pieces p) (hplain : ∀ t ∈ pieces.flatten, t.Plain)
    (hbare : ∀ piece ∈ pieces, ¬ IsBare piece) (hpieces : pieces.flatten = a ++ s :: b)
    (hs : s.kind = .keyword .set) : 2 ≤ b.length := by
  induction h generalizing a with
  | nil => simp at hpieces
  | @cons piece x pieces p hx _ ih =>
    obtain ⟨hfirst, hothers⟩ := List.forall_mem_cons.mp hbare
    rw [List.flatten_cons] at hplain hpieces
    have hrest : ∀ a', pieces.flatten = a' ++ s :: b → 2 ≤ b.length :=
      fun a' => ih (fun t ht => hplain t (List.mem_append_right _ ht)) hothers
    rcases List.append_eq_append_iff.mp hpieces with ⟨a', -, ha'⟩ | ⟨c, hc, hb⟩
    · exact hrest a' ha'
    · cases c with
      | nil => exact hrest [] hb.symm
      | cons r c =>
        obtain ⟨rfl, hbehind⟩ := List.cons.inj hb
        have hle := hx.two_le_of_set (fun t ht => hplain t (List.mem_append_left _ ht)) hfirst hc hs
        rw [hbehind, List.append_eq, List.length_append]
        omega

theorem Split.not_endsBare {u : List Token} {p : Program} {pieces : List (List Token)}
    (h : Split u p pieces) (hplain : ∀ t ∈ u, t.Plain) (hbare : ∀ piece ∈ pieces, ¬ IsBare piece) :
    ¬ EndsBare u := by
  rintro ⟨front, s, n, hu, hs, -⟩
  obtain ⟨rfl, hderives, -, -⟩ := h
  have hle := two_le_of_set hderives hplain hbare hu hs
  simp at hle

/-- Each statement of a program has a value, or all but the last, `set` and a name. -/
theorem Split.bare_cases {u : List Token} {p : Program} {pieces : List (List Token)}
    (h : Split u p pieces) (hplain : ∀ t ∈ u, t.Plain) :
    (∀ piece ∈ pieces, ¬ IsBare piece) ∨
      ∃ front s n p' pieces', u = front ++ [s, n] ∧ s.kind = .keyword .set ∧
        n.kind = .identifier ∧ Split front p' pieces' ∧ ∀ piece ∈ pieces', ¬ IsBare piece := by
  induction p generalizing u pieces with
  | nil =>
    cases h.derives
    exact Or.inl (by simp)
  | cons x p ih =>
    cases pieces with
    | nil => cases h.derives
    | cons piece pieces =>
      obtain ⟨rfl, hx, hp, hsign, hlast⟩ := h.uncons
      by_cases hbare : IsBare piece
      · obtain ⟨s, n, rfl, hs, hn⟩ :=
          hx.of_isBare (fun t ht => hplain t (List.mem_append_left _ ht)) hbare
        exact Or.inr ⟨[], s, n, [], [], by simp [hlast hbare], hs, hn, .nil, by simp⟩
      · rcases ih hp fun t ht => hplain t (List.mem_append_right _ ht) with
          hothers | ⟨front, s, n, p', pieces', hu, hs, hn, hfront, hothers⟩
        · exact Or.inl (List.forall_mem_cons.mpr ⟨hbare, hothers⟩)
        · have hcons : Split (piece ++ front) (x :: p') (piece :: pieces') := by
            refine .cons hx hfront ?_ fun h => absurd h hbare
            rintro ⟨t, ht, hsigned⟩
            exact hsign ⟨t, by simp [hu, List.head?_append, Option.mem_def.mp ht], hsigned⟩
          exact Or.inr ⟨piece ++ front, s, n, x :: p', piece :: pieces', by simp [hu], hs, hn,
            hcons, List.forall_mem_cons.mpr ⟨hbare, hothers⟩⟩

/-- No statement starts with `=`. -/
theorem DerivesStatement.head_not_assign {t : Token} {w : List Token} {x : Statement}
    (h : DerivesStatement (t :: w) x) (ht : t.Plain) : t.isOperator .assign = false := by
  have hnone : ∀ {kind}, t.kind = kind → kind ≠ .operator → t.isOperator .assign = false := by
    rintro kind rfl hkind
    simp [Token.isOperator, ht.operator_eq_none hkind]
  cases h with
  | bare hs => exact hnone hs (by decide)
  | declare hs => exact hnone hs (by decide)
  | expr h =>
    obtain ⟨t', w', heq, hstart⟩ := h.exists_head
    obtain ⟨rfl, rfl⟩ := List.cons.inj heq
    rcases hstart with hatom | hparen | hsign
    · exact hnone rfl fun hop => by simp [hop, atomKinds] at hatom
    · simp [Token.isOperator, Token.isOperator_iff.mp hparen]
    · rcases Bool.or_eq_true_iff.mp hsign with hop | hop <;>
        simp [Token.isOperator, Token.isOperator_iff.mp hop]

theorem Split.exists_head {u : List Token} {p : Program} {pieces : List (List Token)}
    (h : Split u p pieces) (hplain : ∀ t ∈ u, t.Plain) (hne : p ≠ []) :
    ∃ t w, u = t :: w ∧ t.isOperator .assign = false := by
  obtain ⟨rfl, hderives, -, -⟩ := h
  cases hderives with
  | nil => exact absurd rfl hne
  | cons hx =>
    obtain ⟨t, w, rfl⟩ := hx.exists_head
    exact ⟨t, _, rfl, hx.head_not_assign (hplain t (by simp))⟩

end Grammar

/-! ### Programs in a row -/

namespace Parser

open LineCalc.Grammar

/-- **Statements are read one by one.**  Behind statements with a value, a program goes on
    with whatever follows, unless that goes on with the last of them. -/
theorem program_append {u ts : List Token} {p : Program} {pieces : List (List Token)}
    (h : Split u p pieces) (hu : ∀ t ∈ u, t.Plain ∧ t.kind ≠ .endOfLine)
    (hbare : ∀ piece ∈ pieces, ¬ IsBare piece) (hsolid : Solid ts) (hstops : Stops .expression ts) :
    program (u ++ ts) = (program >>= fun q => pure (p ++ q)) ts := by
  induction p generalizing u pieces with
  | nil =>
    obtain ⟨rfl, hderives, -, -⟩ := h
    cases hderives
    simp
  | cons x p ih =>
    cases pieces with
    | nil => cases h.derives
    | cons piece pieces =>
      obtain ⟨rfl, hx, hp, hsign, -⟩ := h.uncons
      obtain ⟨hfirst, hothers⟩ := List.forall_mem_cons.mp hbare
      have hpiece : ∀ t ∈ piece, t.Plain ∧ t.kind ≠ .endOfLine :=
        fun t ht => hu t (List.mem_append_left _ ht)
      have hrest : ∀ t ∈ pieces.flatten, t.Plain ∧ t.kind ≠ .endOfLine :=
        fun t ht => hu t (List.mem_append_right _ ht)
      have hplain : ∀ t ∈ pieces.flatten, t.Plain := fun t ht => (hrest t ht).1
      have hfollows : Follows piece (pieces.flatten ++ ts) :=
        ⟨solid_append hplain hsolid, Or.inr ⟨hfirst, stops_of_split hp hplain hsign hstops⟩⟩
      have ih := ih hp hrest hothers
      rw [List.append_assoc, program_of_derives hx hpiece hfollows]
      cases hq : program ts with
      | ok q rest =>
        rw [bind_of_ok hq] at ih ⊢
        rw [bind_of_ok ih]
        rfl
      | error e rest =>
        rw [bind_of_error hq] at ih ⊢
        rw [bind_of_error ih]

/-- A name that is declared in front of anything but the end of the line has to get a value. -/
theorem program_of_missing_value {s n t : Token} (hs : s.kind = .keyword .set)
    (hn : n.kind = .identifier) (ht : t.kind ≠ .whitespace) (hend : t.kind ≠ .endOfLine)
    (hassign : t.isOperator .assign = false) (ts : List Token) :
    program (s :: n :: t :: ts) = .error (.unexpectedToken (.operator .assign) t) ts := by
  have hsolid : Solid (s :: n :: t :: ts) := solid_cons.mpr (by simp [hs])
  have hfails : expectOperator .assign (t :: ts) =
      .error (.unexpectedToken (.operator .assign) t) ts := by
    rw [expectOperator, bind_of_ok (next_eq_ok_iff.mpr rfl)]
    simp [hassign]
  have hdeclaration : statement (s :: n :: t :: ts) =
      .error (.unexpectedToken (.operator .assign) t) ts := by
    simp only [statement, hs, if_true]
    rw [declaration_name hn ht, if_neg hend, initializer, bind_of_error hfails]
  rw [program_eq, hsolid.skipSpace_eq]
  simp only [hs, reduceCtorEq, if_false]
  rw [statementThen, bind_of_error hdeclaration]

/-- The tokens before the end of a line, white space apart, are what the program is cut into. -/
theorem split_of_program {u v rest : List Token} {p : Program} (hline : WithinLine u)
    (h : program (u ++ .endOfLine :: v) = .ok p rest) : ∃ pieces, Split (strip u) p pieces := by
  obtain ⟨w, t, pieces, hw, -, hsplit⟩ := program_eq_ok h
  obtain rfl := rest_of_program hline h
  obtain ⟨rfl, -⟩ := List.append_inj' hw (by simp)
  exact ⟨pieces, hsplit⟩

section Joined

variable {u₁ u₂ : List Token} {p₁ p₂ : Program} {pieces₁ pieces₂ : List (List Token)}

theorem program_joined (h₁ : Split u₁ p₁ pieces₁) (h₂ : Split u₂ p₂ pieces₂)
    (hu₁ : ∀ t ∈ u₁, t.Plain ∧ t.kind ≠ .endOfLine)
    (hu₂ : ∀ t ∈ u₂, t.Plain ∧ t.kind ≠ .endOfLine) (hbare : ¬ EndsBare u₁)
    (hsign : ¬ StartsWithSign u₂) (v : List Token) :
    program (u₁ ++ (u₂ ++ .endOfLine :: v)) = .ok (p₁ ++ p₂) v := by
  have hplain₁ : ∀ t ∈ u₁, t.Plain := fun t ht => (hu₁ t ht).1
  have hplain₂ : ∀ t ∈ u₂, t.Plain := fun t ht => (hu₂ t ht).1
  have hvalues : ∀ piece ∈ pieces₁, ¬ IsBare piece := by
    rcases h₁.bare_cases hplain₁ with h | ⟨front, s, n, -, -, hfront, hs, hn, -⟩
    · exact h
    · exact absurd ⟨front, s, n, hfront, hs, hn⟩ hbare
  have hsolid : Solid (u₂ ++ .endOfLine :: v) :=
    solid_append hplain₂ (solid_cons.mpr (by decide))
  have hstops : Stops .expression (u₂ ++ .endOfLine :: v) :=
    stops_of_split h₂ hplain₂ hsign (stops_of_operator_eq_none rfl)
  rw [program_append h₁ hu₁ hvalues hsolid hstops, bind_of_ok (program_of_split h₂ hu₂)]
  rfl

theorem program_joined_of_endsBare {t : Token} (h₁ : Split u₁ p₁ pieces₁)
    (hu₁ : ∀ t ∈ u₁, t.Plain ∧ t.kind ≠ .endOfLine) (hbare : EndsBare u₁)
    (ht : t.Plain ∧ t.kind ≠ .endOfLine) (hassign : t.isOperator .assign = false)
    (v : List Token) :
    program (u₁ ++ t :: v) = .error (.unexpectedToken (.operator .assign) t) v := by
  have hplain₁ : ∀ t ∈ u₁, t.Plain := fun t ht => (hu₁ t ht).1
  rcases h₁.bare_cases hplain₁ with h | ⟨front, s, n, p, pieces, rfl, hs, hn, hfront, hvalues⟩
  · exact absurd hbare (h₁.not_endsBare hplain₁ h)
  -- the statements before the declaration are read, and the declaration fails
  have hsolid : Solid (s :: n :: t :: v) := solid_cons.mpr (by simp [hs])
  have hstops : Stops .expression (s :: n :: t :: v) :=
    stops_of_operator_eq_none ((hplain₁ s (by simp)).operator_eq_none (by simp [hs]))
  have hfails := program_of_missing_value hs hn ht.1.2 ht.2 hassign v
  rw [List.append_assoc, List.cons_append, List.singleton_append,
    program_append hfront (fun t ht => hu₁ t (List.mem_append_left _ ht)) hvalues hsolid hstops,
    bind_of_error hfails]

end Joined

end Parser

/-! ### Programs run in a row -/

/-- The value before a statement is lost. -/
theorem Program.evalFrom_eq_eval (last : Value) {q : Program} (hne : q ≠ []) :
    Program.evalFrom last q = q.eval := by
  cases q with
  | nil => exact absurd rfl hne
  | cons s q => simp only [Program.eval, Program.evalFrom]

namespace Session

open LineCalc.Parser LineCalc.Grammar

theorem evalProgram_append (p : Program) {q : Program} (hne : q ≠ []) (env : Env) :
    evalProgram (p ++ q) env =
      match evalProgram p env with
      | .error e mid => .error e mid
      | .ok _ mid => evalProgram q mid := by
  have happend : Program.eval (p ++ q) = p.eval >>= fun _ => q.eval := by
    rw [Program.eval, Program.evalFrom_append]
    simp only [Program.evalFrom_eq_eval _ hne]
    rfl
  unfold evalProgram
  rw [happend]
  cases hp : p.eval env with
  | error e mid => rw [bind_of_error hp]
  | ok value mid => rw [bind_of_ok hp]

/-! ### Joined lines -/

/-- White space apart, the line ends in `set` and a name. -/
def EndsBare (line : String) : Prop :=
  ∃ u, Token.ofText line = .ok (u ++ [.endOfLine]) ∧ Grammar.EndsBare (strip u)

/-- White space apart, the line starts with this token. -/
def StartsWith (line : String) (t : Token) : Prop :=
  ∃ u, Token.ofText line = .ok (u ++ [.endOfLine]) ∧ t ∈ (strip u).head?

/-- The tokens of an accepted line, cut into its statements. -/
theorem exists_split_of_parseLine {line : String} {p : Program} (h : parseLine line = .ok p) :
    ∃ u, Token.ofText line = .ok (u ++ [.endOfLine]) ∧
      (∀ t ∈ strip u, t.Plain ∧ t.kind ≠ .endOfLine) ∧ ∃ pieces, Split (strip u) p pieces := by
  obtain ⟨ts, hts, hparse⟩ := parseLine_ok_iff.mp h
  obtain ⟨u, rfl, hlexical, -⟩ := Token.canonical_of_ofChars hts
  obtain ⟨rest, hprogram⟩ := Program.ofTokens_ok_iff.mp hparse
  rw [List.append_assoc] at hprogram
  have hline : WithinLine u := fun t ht => (hlexical t ht).kind_ne_endOfLine
  exact ⟨u, hts, Token.plain_of_mem_strip hlexical, split_of_program hline hprogram⟩

/-- A joined line is parsed as the tokens that count of both lines. -/
theorem parseLine_append_blank {l₁ l₂ : String} {u₁ u₂ : List Token}
    (h₁ : Token.ofText l₁ = .ok (u₁ ++ [.endOfLine]))
    (h₂ : Token.ofText l₂ = .ok (u₂ ++ [.endOfLine])) (hnul : '\x00' ∉ l₁.toList) :
    parseLine (l₁ ++ " " ++ l₂) =
      (Program.ofTokens (strip u₁ ++ (strip u₂ ++ [.endOfLine, .endOfLine]))).mapError .parse := by
  obtain ⟨u, ws, hu, hws, hstrip⟩ := Token.exists_ofChars_joined h₁ h₂ hnul
  obtain rfl : u₁ = u := List.append_cancel_right hu
  have hjoined : Token.ofText (l₁ ++ " " ++ l₂) = .ok ws := by simpa [Token.ofText] using hws
  have hstrip' : strip (ws ++ [.endOfLine]) =
      strip u₁ ++ (strip u₂ ++ [.endOfLine, .endOfLine]) := by
    rw [strip_append, hstrip, strip_append]
    simp [strip, Token.endOfLine]
  simp only [parseLine, tokenizeLine, hjoined]
  rw [Program.ofTokens_of_stripLeft (blind_program _), hstrip']
  cases Program.ofTokens (strip u₁ ++ (strip u₂ ++ [.endOfLine, .endOfLine])) <;> rfl

/-- **Joining two lines is running one after the other.**  Let both lines be accepted, the
    first without a NUL and the second with a statement.  If the first does not end in a
    declaration without a value and the second does not start with a sign, the joined line
    has the statements of both; it fails as the first line fails, and otherwise does what the
    second does in the variables that the first has left.  Behind a declaration without a
    value the second line starts where a `=` is expected. -/
theorem evalLine_joined (l₁ l₂ : String) (p₁ p₂ : Program) (h₁ : parseLine l₁ = .ok p₁)
    (h₂ : parseLine l₂ = .ok p₂) (hnul : '\x00' ∉ l₁.toList) (hne : p₂ ≠ []) :
    (¬ EndsBare l₁ → (∀ t, StartsWith l₂ t → isSign t = false) →
      parseLine (l₁ ++ " " ++ l₂) = .ok (p₁ ++ p₂) ∧
        ∀ env, evalLine (l₁ ++ " " ++ l₂) env =
          match evalLine l₁ env with
          | .error e mid => .error e mid
          | .ok _ mid => evalLine l₂ mid) ∧
      (EndsBare l₁ → ∃ found, StartsWith l₂ found ∧
        parseLine (l₁ ++ " " ++ l₂) =
          .error (.parse (.unexpectedToken (.operator .assign) found))) := by
  obtain ⟨u₁, hu₁, hplain₁, pieces₁, hsplit₁⟩ := exists_split_of_parseLine h₁
  obtain ⟨u₂, hu₂, hplain₂, pieces₂, hsplit₂⟩ := exists_split_of_parseLine h₂
  have hjoined := parseLine_append_blank hu₁ hu₂ hnul
  refine ⟨?_, ?_⟩
  · intro hbare hsign
    have hbare' : ¬ Grammar.EndsBare (strip u₁) := fun h => hbare ⟨u₁, hu₁, h⟩
    have hsign' : ¬ StartsWithSign (strip u₂) := by
      rintro ⟨t, ht, hsigned⟩
      rw [hsign t ⟨u₂, hu₂, ht⟩] at hsigned
      cases hsigned
    have hread := program_joined hsplit₁ hsplit₂ hplain₁ hplain₂ hbare' hsign' [.endOfLine]
    have hparse : parseLine (l₁ ++ " " ++ l₂) = .ok (p₁ ++ p₂) := by
      rw [hjoined, Program.ofTokens_ok_iff.mpr ⟨_, hread⟩]
      rfl
    refine ⟨hparse, ?_⟩
    intro env
    rw [evalLine_of_parseLine_ok hparse, evalLine_of_parseLine_ok h₁,
      evalLine_of_parseLine_ok h₂]
    exact evalProgram_append p₁ hne env
  · rintro ⟨u, hu, hbare⟩
    obtain rfl : u = u₁ := by simpa [hu₁, eq_comm] using hu
    obtain ⟨t, w, hw, hassign⟩ := hsplit₂.exists_head (fun t ht => (hplain₂ t ht).1) hne
    have ht : t.Plain ∧ t.kind ≠ .endOfLine := hplain₂ t (by simp [hw])
    have hread := program_joined_of_endsBare hsplit₁ hplain₁ hbare ht hassign
      (w ++ [.endOfLine, .endOfLine])
    refine ⟨t, ⟨u₂, hu₂, by simp [hw]⟩, ?_⟩
    rw [hjoined, hw, List.cons_append, Program.ofTokens_error_iff.mpr ⟨_, hread⟩]
    rfl

/-- The tab, the blank and the blank of the second line run together.  Behind `set y` a minus
    is refused as well. -/
theorem evalLine_joined_across_blanks :
    let l₁ := "set x = true\t"
    let l₂ := " (x)"
    let p₁ : Program := [.declare "x" (.boolean true)]
    let p₂ : Program := [.expr (.variable "x")]
    parseLine l₁ = .ok p₁ ∧ parseLine l₂ = .ok p₂ ∧ '\x00' ∉ l₁.toList ∧ ¬ EndsBare l₁ ∧
      (∀ t, StartsWith l₂ t → isSign t = false) ∧
      parseLine (l₁ ++ " " ++ l₂) = .ok (p₁ ++ p₂) ∧
      evalLine (l₁ ++ " " ++ l₂) .empty = .ok "true" ⟨[("x", .boolean true)], by decide⟩ ∧
      EndsBare "x set y\t" ∧
      ∃ found, StartsWith "-0" found ∧
        parseLine ("x set y\t" ++ " " ++ "-0") =
          .error (.parse (.unexpectedToken (.operator .assign) found)) := by
  intro l₁ l₂ p₁ p₂
  have hblank : Token.Lexical ⟨.whitespace, " ", none⟩ :=
    ⟨by simp [Token.IsRun, Lexeme.isBlankStart], rfl⟩
  have htab : Token.Lexical ⟨.whitespace, "\t", none⟩ :=
    ⟨by simp [Token.IsRun, Lexeme.isBlankStart], rfl⟩
  have hword : ∀ word, (Token.keyword word).Lexical := fun _ => ⟨rfl, rfl⟩
  have hx : (Token.name "x").Lexical := (Token.block_name (isName_letter (c := 'x') rfl)).lexical _
    List.mem_cons_self
  have hy : (Token.name "y").Lexical := (Token.block_name (isName_letter (c := 'y') rfl)).lexical _
    List.mem_cons_self
  have hop : ∀ {op}, op ≠ .invalid → (Token.ofOperator op).Lexical := Token.lexical_ofOperator
  have hts₁ : Token.ofText l₁ = .ok ([.keyword .set, ⟨.whitespace, " ", none⟩, .name "x",
      ⟨.whitespace, " ", none⟩, .ofOperator .assign, ⟨.whitespace, " ", none⟩,
      .keyword .trueLiteral, ⟨.whitespace, "\t", none⟩] ++ [.endOfLine]) :=
    Token.ofText_of_spell (by simp [hblank, htab, hword, hx, hop])
      (by unfold Token.Merges; decide) (by decide +kernel)
  have hts₂ : Token.ofText l₂ = .ok ([⟨.whitespace, " ", none⟩, .ofOperator .leftParen, .name "x",
      .ofOperator .rightParen] ++ [.endOfLine]) :=
    Token.ofText_of_spell (by simp [hblank, hx, hop]) (by unfold Token.Merges; decide)
      (by decide +kernel)
  have hts : Token.ofText "x set y\t" = .ok ([.name "x", ⟨.whitespace, " ", none⟩, .keyword .set,
      ⟨.whitespace, " ", none⟩, .name "y", ⟨.whitespace, "\t", none⟩] ++ [.endOfLine]) :=
    Token.ofText_of_spell (by simp [hblank, htab, hword, hx, hy])
      (by unfold Token.Merges; decide) (by decide +kernel)
  have hminus : Token.ofText "-0" = .ok ([.ofOperator .minus, .digits 0] ++ [.endOfLine]) :=
    Token.ofText_of_spell (Token.block_minus_digits 0).lexical (Token.block_minus_digits 0).apart
      rfl
  have h₁ : parseLine l₁ = .ok p₁ := parseLine_ok_iff.mpr ⟨_, hts₁, rfl⟩
  have h₂ : parseLine l₂ = .ok p₂ := parseLine_ok_iff.mpr ⟨_, hts₂, rfl⟩
  have hset : parseLine "x set y\t" = .ok [.expr (.variable "x"), .declare "y" .null] :=
    parseLine_ok_iff.mpr ⟨_, hts, rfl⟩
  have hzero : parseLine "-0" = .ok [.expr (.number (.zero true))] :=
    parseLine_ok_iff.mpr ⟨_, hminus, rfl⟩
  have hnul : '\x00' ∉ l₁.toList := by decide +kernel
  have hvalue : ¬ EndsBare l₁ := by
    rintro ⟨u, hu, front, s, n, hfront, hs, -⟩
    obtain rfl := List.append_cancel_right (Except.ok.inj (hts₁.symm.trans hu))
    have hends : [Token.keyword .set, .name "x"] ++ [.ofOperator .assign, .keyword .trueLiteral] =
        front ++ [s, n] := hfront
    obtain ⟨-, hlast⟩ := List.append_inj' hends rfl
    obtain ⟨rfl, -⟩ := List.cons.inj hlast
    cases hs
  have hparen : ∀ t, StartsWith l₂ t → isSign t = false := by
    rintro t ⟨u, hu, ht⟩
    obtain rfl := List.append_cancel_right (Except.ok.inj (hts₂.symm.trans hu))
    obtain rfl : .ofOperator .leftParen = t := Option.some.inj ht
    rfl
  have hbare : EndsBare "x set y\t" :=
    ⟨_, hts, [.name "x"], .keyword .set, .name "y", rfl, rfl, rfl⟩
  obtain ⟨hparse, heval⟩ := (evalLine_joined l₁ l₂ p₁ p₂ h₁ h₂ hnul (by simp [p₂])).1 hvalue hparen
  have hfails := (evalLine_joined _ _ _ _ hset hzero (by decide +kernel) (by simp)).2 hbare
  refine ⟨h₁, h₂, hnul, hvalue, hparen, hparse, ?_, hbare, hfails⟩
  rw [heval, evalLine_of_parseLine_ok h₁, evalLine_of_parseLine_ok h₂]
  rfl

end Session

end LineCalc
