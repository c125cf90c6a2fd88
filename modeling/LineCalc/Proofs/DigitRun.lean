/-
  LineCalc/Proofs/DigitRun.lean
  =============================
  **Digits as numbers.**  A run of decimal digits is always a numeral, and it is
  read as its value rounded once (`ofText?_digits`).  A value that is a number
  already is its own rounding, so the digits of a whole number are read back as
  that number, whatever its size (`ofText?_toDigits`).
-/
import LineCalc.Decimal.Numeral
import Mathlib.Data.List.TakeDrop
import Mathlib.Data.List.TakeWhile

namespace LineCalc

namespace Binary64

/-! ### Numbers are their own rounding -/

theorem roundUnits_mul {units d : Nat} (h : Fits units) (hd : 0 < d) :
    roundUnits (units * d) d = units := by
  have hplace : lastPlace (units * d) d = units.log2 - 52 := by
    rw [lastPlace, Nat.mul_div_cancel units hd]
  rw [roundUnits, hplace]
  -- the invariant says that nothing is lost below the last place
  have hdvd := h.2
  generalize units.log2 - 52 = place at hdvd ⊢
  rw [Nat.one_shiftLeft] at hdvd
  obtain ⟨q, rfl⟩ := hdvd
  have hpos : 0 < d * 2 ^ place := Nat.mul_pos hd (Nat.two_pow_pos place)
  have hexact : 2 ^ place * q * d = q * (d * 2 ^ place) := by ac_rfl
  rw [Nat.shiftLeft_eq, Nat.shiftLeft_eq, hexact, roundDiv_mul_left q hpos, Nat.mul_comm]

/-- A quotient that is a number already is not rounded. -/
theorem ofRatio_mul {units d : Nat} (negative : Bool) (h : Fits units) (hd : 0 < d) :
    ofRatio negative (units * d) d = .finite negative units h := by
  have hround := roundUnits_mul h hd
  have hlt : roundUnits (units * d) d < unitsBound := hround.symm ▸ h.1
  rw [ofRatio, dif_pos hlt]
  congr 1

/-- A whole number is rounded as it is. -/
theorem ofDecimal_of_pos (negative : Bool) {n : Nat} (hn : 0 < n) :
    ofDecimal negative n 0 = ofRatio negative (n * unitsPerOne) 1 := by
  have hlog : ¬ (0 : Int) + n.log2 < -400 := by omega
  rw [ofDecimal, if_neg (Nat.ne_of_gt hn), if_neg (by decide), if_neg hlog]
  simp

/-- A whole number that fits is read exactly. -/
theorem ofDecimal_of_fits {n : Nat} (negative : Bool) (h : Fits (n * unitsPerOne)) :
    ofDecimal negative n 0 = .finite negative (n * unitsPerOne) h := by
  rcases Nat.eq_zero_or_pos n with rfl | hn
  · simp [ofDecimal, zero]
  · rw [ofDecimal_of_pos negative hn]
    simpa using ofRatio_mul negative h Nat.one_pos

end Binary64

namespace Numeral

/-! ### Runs of digits are numerals -/

theorem splitSign_of_isDigit {c : Char} {cs : List Char} (hc : c.isDigit) :
    splitSign (c :: cs) = (false, c :: cs) := by
  have hminus : c ≠ '-' := by rintro rfl; simp at hc
  have hplus : c ≠ '+' := by rintro rfl; simp at hc
  simp [splitSign, hminus, hplus]

theorem toLower_of_isDigit {c : Char} (hc : c.isDigit) : c.toLower = c := by
  simp only [Char.isDigit, Bool.and_eq_true, decide_eq_true_eq] at hc
  delta Char.toLower
  grind

/-- No word that stands for a number starts with a digit. -/
theorem special?_of_isDigit {c : Char} {cs : List Char} (hc : c.isDigit) (negative : Bool) :
    special? negative (c :: cs) = none := by
  have hword : ∀ d ds, d.isDigit = false →
      String.ofList ((c :: cs).map Char.toLower) ≠ String.ofList (d :: ds) := by
    intro d ds hd heq
    have hhead : c = d := by
      simpa [toLower_of_isDigit hc] using congrArg List.head? (String.ofList_injective heq)
    rw [hhead, hd] at hc
    exact Bool.noConfusion hc
  have hinf := hword 'i' ['n', 'f'] rfl
  have hinfinity := hword 'i' ['n', 'f', 'i', 'n', 'i', 't', 'y'] rfl
  have hnan := hword 'n' ['a', 'n'] rfl
  exact (if_neg (not_or.2 ⟨hinf, hinfinity⟩)).trans (if_neg hnan)

theorem spanDigits_of_isDigit {cs : List Char} (hcs : ∀ c ∈ cs, c.isDigit) :
    spanDigits cs = (cs, []) := by
  rw [spanDigits, List.span_eq_takeWhile_dropWhile, List.takeWhile_eq_self_iff.2 hcs,
    List.dropWhile_eq_nil_iff.2 hcs]

end Numeral

/-- **A run of digits is a numeral.** -/
theorem Binary64.ofText?_digits {cs : List Char} (hne : cs ≠ []) (hcs : ∀ c ∈ cs, c.isDigit) :
    Binary64.ofText? (String.ofList cs) = some (.ofDecimal false (Numeral.natOfDigits cs) 0) := by
  have hspan := Numeral.spanDigits_of_isDigit hcs
  cases cs with
  | nil => exact absurd rfl hne
  | cons c cs =>
    have hc : c.isDigit := hcs c List.mem_cons_self
    simp [Binary64.ofText?, Numeral.splitSign_of_isDigit hc, Numeral.special?_of_isDigit hc,
      Numeral.decimal?, hspan, Numeral.splitFraction, Numeral.exponent?]

/-- **Whole numbers are read back from their digits.** -/
theorem Binary64.ofText?_toDigits {n : Nat} (h : Fits (n * unitsPerOne)) :
    Binary64.ofText? (String.ofList (Nat.toDigits 10 n)) =
      some (.finite false (n * unitsPerOne) h) := by
  have hdigits : ∀ c ∈ Nat.toDigits 10 n, c.isDigit :=
    fun c hc => Nat.isDigit_of_mem_toDigits (by decide) (by decide) hc
  rw [ofText?_digits Nat.toDigits_ne_nil hdigits, Numeral.natOfDigits,
    Nat.ofDigitChars_ten_toDigits, ofDecimal_of_fits false h]

end LineCalc
