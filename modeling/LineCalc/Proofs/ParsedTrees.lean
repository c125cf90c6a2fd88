/-
  LineCalc/Proofs/ParsedTrees.lean
  ================================
  **Which trees a line can have.**  Trees are wider than what can be written: a tree may
  hold white space, a negation, a program among its statements, or any number.  The parser
  makes none of the first three, from whatever tokens, since it skips white space before
  it reads an expression.

  Not all numbers come from a line either.  A line writes whole numbers, and a whole
  number is rounded to a whole number: up to `2^53` it is itself, and beyond that the
  numbers have no room for a fraction.  From `2^1024` on it is infinite.
-/
import LineCalc.Proofs.IntegerLines
import LineCalc.Proofs.Vocabulary

namespace LineCalc

/-! ### Rounding whole numbers -/

namespace Binary64

/-- The numbers that digits and signs can write. -/
def IsWritable (x : Binary64) : Prop := x.isIntegral ∨ ∃ negative, x = .infinite negative

theorem IsWritable.ne_nan {x : Binary64} (h : x.IsWritable) : x ≠ .nan := by
  rintro rfl
  rcases h with h | ⟨negative, h⟩ <;> cases h

theorem IsWritable.neg {x : Binary64} (h : x.IsWritable) : x.neg.IsWritable := by
  rcases h with h | ⟨negative, rfl⟩
  · left
    cases x with
    | finite negative units fits => exact h
    | infinite | nan => cases h
  · exact Or.inr ⟨!negative, rfl⟩

/-- A multiple of `2^k` is rounded to one: a place above the `k`-th leaves only multiples, and
    at one below nothing is lost. -/
theorem two_pow_dvd_roundUnits (n k : Nat) : 2 ^ k ∣ roundUnits (n * 2 ^ k) 1 := by
  unfold roundUnits
  generalize lastPlace (n * 2 ^ k) 1 = place
  rw [Nat.one_shiftLeft, Nat.shiftLeft_eq]
  rcases Nat.le_total k place with hle | hle
  · exact Nat.dvd_mul_left_of_dvd (Nat.pow_dvd_pow 2 hle) _
  · have hexact : n * 2 ^ k = n * 2 ^ (k - place) * 2 ^ place := by
      rw [Nat.mul_assoc, ← Nat.pow_add, Nat.sub_add_cancel hle]
    rw [hexact, roundDiv_mul_left _ (Nat.two_pow_pos place), ← hexact]
    exact Nat.dvd_mul_left ..

theorem isWritable_ofRatio (negative : Bool) (n : Nat) :
    (ofRatio negative (n * unitsPerOne) 1).IsWritable := by
  unfold ofRatio
  split
  · left
    rw [isIntegral, decide_eq_true_iff]
    apply Nat.mod_eq_zero_of_dvd
    rw [unitsPerOne_eq]
    exact two_pow_dvd_roundUnits n 1074
  · exact Or.inr ⟨negative, rfl⟩

theorem isWritable_ofDecimal (negative : Bool) (n : Nat) :
    (ofDecimal negative n 0).IsWritable := by
  rcases Nat.eq_zero_or_pos n with rfl | hn
  · left
    simp [ofDecimal, zero, isIntegral]
  · rw [ofDecimal_of_pos negative hn]
    exact isWritable_ofRatio negative n

end Binary64

/-! ### Numbers on a line -/

theorem Atom.Lexical.isWritable {x : Binary64} (h : Atom.Lexical (.number x)) : x.IsWritable := by
  obtain ⟨t, hlexical, hwrites⟩ := h
  cases hwrites with
  | number negative hkind hvalue =>
    have hdigits := hlexical.ofText?_eq hkind
    obtain rfl := Option.some.inj (hvalue.symm.trans hdigits)
    have hwritable := Binary64.isWritable_ofDecimal false (Numeral.natOfDigits t.text.toList)
    split
    · exact hwritable.neg
    · exact hwritable

/-- Some whole number is too large for the finite numbers. -/
theorem Binary64.exists_ofDecimal_infinite : ∃ n, ofDecimal false n 0 = .infinite false :=
  ⟨10 ^ 309, by decide +kernel⟩

namespace Session

theorem exists_line_of_infinite (negative : Bool) :
    ∃ line p, parseLine line = .ok p ∧ .number (.infinite negative) ∈ Program.atoms p := by
  obtain ⟨n, hn⟩ := Binary64.exists_ofDecimal_infinite
  have hdigits : Numeral.natOfDigits (Digits.ofNat n).chars = n := Numeral.natOfDigits_toDigits n
  have hnumber : Arith.number [⟨negative, .empty⟩] (.ofNat n) = .infinite negative := by
    rw [Arith.number, hdigits, hn]
    cases negative <;> rfl
  refine ⟨_, _, Arith.parseLine_literal [⟨negative, .empty⟩] (.ofNat n), ?_⟩
  rw [hnumber]
  simp [Program.atoms, Statement.atoms, Expr.atoms]

theorem exists_line_of_isWritable {x : Binary64} (h : x.IsWritable) :
    ∃ line p, parseLine line = .ok p ∧ .number x ∈ Program.atoms p := by
  rcases h with h | ⟨negative, rfl⟩
  · have hexpressible : Program.Expressible [.expr (.number x)] := by
      simpa [Program.Expressible, Statement.Expressible, Expr.Expressible] using h
    refine ⟨_, _, parseLine_of_expressible 0 hexpressible, ?_⟩
    simp [Program.atoms, Statement.atoms, Expr.atoms]
  · exact exists_line_of_infinite negative

/-- **Which trees a line can have.**  Whatever the tokens, no program that is parsed from them
    has white space, a negation or a program among its statements.  A program that is parsed
    from a line has no other numbers than whole and infinite ones, and each of these stands
    in the program of some line. -/
theorem parsed_trees :
    (∀ ts p, Program.ofTokens ts = .ok p → ∀ s ∈ p, s.Evaluable) ∧
      (∀ line p, parseLine line = .ok p →
        (∀ s ∈ p, s.Evaluable) ∧
          ∀ x, .number x ∈ Program.atoms p → x ≠ .nan ∧ x.IsWritable) ∧
      ∀ x : Binary64, x.IsWritable →
        ∃ line p, parseLine line = .ok p ∧ .number x ∈ Program.atoms p := by
  refine ⟨fun ts p h => Program.evaluable_of_ofTokens h, fun line p h => ?_,
    fun x h => exists_line_of_isWritable h⟩
  obtain ⟨ts, -, hparse⟩ := parseLine_ok_iff.mp h
  refine ⟨Program.evaluable_of_ofTokens hparse, fun x hx => ?_⟩
  have hwritable := (lexical_of_parseLine h _ hx).isWritable
  exact ⟨hwritable.ne_nan, hwritable⟩

/-- White space before, inside and behind brackets, around a name that carries an operator. -/
def spacedTokens : List Token :=
  [⟨.whitespace, " ", none⟩, .ofOperator .leftParen, ⟨.whitespace, " ", none⟩,
    ⟨.identifier, "x", some .leftParen⟩, ⟨.whitespace, " ", none⟩, .ofOperator .rightParen,
    ⟨.whitespace, " ", none⟩, .endOfLine]

/-- White space that leaves no trace, a zero with a sign, and a number beyond all others. -/
theorem parsed_trees_spaced_and_signed :
    (Program.ofTokens spacedTokens = .ok [.expr (.variable "x")] ∧
      ∀ s ∈ [Statement.expr (.variable "x")], s.Evaluable) ∧
    (parseLine "(-0)" = .ok [.expr (.number (.zero true))] ∧
      Binary64.zero true ≠ .nan ∧ (Binary64.zero true).IsWritable) ∧
    ∃ line p, parseLine line = .ok p ∧ .number (.infinite true) ∈ Program.atoms p := by
  obtain ⟨htokens, hline, hwritable⟩ := parsed_trees
  have hspaced : Program.ofTokens spacedTokens = .ok [.expr (.variable "x")] := rfl
  have hexpressible : Program.Expressible [.expr (.number (.zero true))] := by
    simp [Program.Expressible, Statement.Expressible, Expr.Expressible, Binary64.zero,
      Binary64.isIntegral]
  have hsource : Program.source 0 [.expr (.number (.zero true))] = "(-0)" := by decide +kernel
  have hsigned : parseLine "(-0)" = .ok [.expr (.number (.zero true))] :=
    hsource ▸ parseLine_of_expressible 0 hexpressible
  refine ⟨⟨hspaced, htokens _ _ hspaced⟩, ⟨hsigned, ?_⟩, hwritable _ (Or.inr ⟨true, rfl⟩)⟩
  exact (hline _ _ hsigned).2 _ (by simp [Program.atoms, Statement.atoms, Expr.atoms])

end Session

end LineCalc
