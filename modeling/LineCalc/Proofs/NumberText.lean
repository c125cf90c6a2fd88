/-
  LineCalc/Proofs/NumberText.lean
  ===============================
  **Which text a number has.**  The text of a finite number is the canonical
  decimal of its exact value, rounded to the sixteenth decimal place where the
  value is not whole.  Two finite numbers are written alike exactly when their
  rounded values are equal.

  The rounding is said twice: `roundEven` takes a rational to the nearest
  integer, and `roundDiv` a quotient of naturals.  `Nearest` is what both have in
  common; it determines the integer, and it does not care about signs, which the
  text keeps apart from the digits.
-/
import LineCalc.Proofs.CanonicalDecimal
import LineCalc.Proofs.ExactValue
import Mathlib.Data.Rat.Floor
import Mathlib.Tactic.Linarith

namespace LineCalc

/-! ### Rounding rationals -/

/-- The integer nearest to a rational; of two equally near ones, the even one. -/
def roundEven (x : ℚ) : ℤ :=
  if x - ⌊x⌋ < 1 / 2 ∨ (x - ⌊x⌋ = 1 / 2 ∧ Even ⌊x⌋) then ⌊x⌋ else ⌊x⌋ + 1

/-- A rational itself if it is whole, else its multiple of `10^-16` that is nearest; of two
    equally near ones, the even one. -/
def rounded (q : ℚ) : ℚ := if q.isInt then q else roundEven (q * 10 ^ 16) / 10 ^ 16

/-- No integer is nearer, and an odd one is not as near as another. -/
def Nearest (x : ℚ) (k : ℤ) : Prop := |x - k| ≤ 1 / 2 ∧ (|x - k| = 1 / 2 → Even k)

theorem Nearest.unique {x : ℚ} {j k : ℤ} (hj : Nearest x j) (hk : Nearest x k) : j = k := by
  obtain ⟨hj, hjeven⟩ := hj
  obtain ⟨hk, hkeven⟩ := hk
  by_contra hne
  have hdist : |(j : ℚ) - k| ≤ |x - j| + |x - k| := by
    have htriangle := abs_sub_le (j : ℚ) x k
    rwa [abs_sub_comm (j : ℚ) x] at htriangle
  have hone : (1 : ℤ) ≤ |j - k| := Int.one_le_abs (sub_ne_zero.mpr hne)
  have hone' : (1 : ℚ) ≤ |(j : ℚ) - k| := by exact_mod_cast hone
  -- both are half a step away, so both are even and cannot be neighbours
  obtain ⟨a, ha⟩ := hjeven (by linarith)
  obtain ⟨b, hb⟩ := hkeven (by linarith)
  have hle : |j - k| ≤ 1 := by
    have hle : |(j : ℚ) - k| ≤ 1 := by linarith
    exact_mod_cast hle
  rw [abs_le] at hle
  omega

theorem nearest_roundEven (x : ℚ) : Nearest x (roundEven x) := by
  have hlow : (⌊x⌋ : ℚ) ≤ x := Int.floor_le x
  have hhigh : x < ⌊x⌋ + 1 := Int.lt_floor_add_one x
  unfold roundEven
  split
  · next h =>
    rw [Nearest, abs_of_nonneg (by linarith)]
    rcases h with h | ⟨h, heven⟩
    · exact ⟨h.le, fun heq => absurd heq h.ne⟩
    · exact ⟨h.le, fun _ => heven⟩
  · next h =>
    obtain ⟨hhalf, hodd⟩ := not_or.mp h
    push Not at hhalf
    rw [Nearest, Int.cast_add, Int.cast_one, abs_of_nonpos (by linarith)]
    refine ⟨by linarith, ?_⟩
    intro heq
    have hnot : ¬ Even ⌊x⌋ := fun heven => hodd ⟨by linarith, heven⟩
    exact (Int.not_even_iff_odd.mp hnot).add_one

theorem roundEven_eq_iff {x : ℚ} {k : ℤ} : roundEven x = k ↔ Nearest x k := by
  constructor
  · rintro rfl
    exact nearest_roundEven x
  · exact (nearest_roundEven x).unique

theorem nearest_intCast (k : ℤ) : Nearest k k := by
  rw [Nearest, sub_self, abs_zero]
  norm_num

theorem Nearest.neg {x : ℚ} {k : ℤ} (h : Nearest x k) : Nearest (-x) (-k) := by
  rw [Nearest, Int.cast_neg, neg_sub_neg, abs_sub_comm, even_neg]
  exact h

/-- A quotient of naturals is rounded to nearest. -/
theorem nearest_roundDiv (a : Nat) {d : Nat} (hd : 0 < d) :
    Nearest ((a : ℚ) / d) (roundDiv a d) := by
  have hd' : (0 : ℚ) < d := Nat.cast_pos.mpr hd
  have hsplit : (a : ℚ) / d = (a / d : Nat) + (a % d : Nat) / d := by
    have hparts : ((a / d : Nat) : ℚ) * d + (a % d : Nat) = a := by
      exact_mod_cast Nat.div_add_mod' a d
    rw [← hparts, add_div, mul_div_cancel_right₀ _ hd'.ne']
  have hlt : a % d < d := Nat.mod_lt a hd
  unfold roundDiv
  rw [hsplit]
  generalize a / d = k at *
  generalize a % d = r at *
  have hlt' : (r : ℚ) / d < 1 := by
    rw [div_lt_one hd']
    exact_mod_cast hlt
  have hhalf : (r : ℚ) / d = 1 / 2 ↔ 2 * r = d := by
    rw [div_eq_div_iff hd'.ne' two_ne_zero, one_mul, mul_comm]
    norm_cast
  split
  · next h =>
    have hle : (r : ℚ) / d ≤ 1 / 2 := by
      rw [div_le_div_iff₀ hd' two_pos]
      exact_mod_cast (by omega : r * 2 ≤ 1 * d)
    rw [Nearest, Int.cast_natCast, add_sub_cancel_left, abs_of_nonneg (by positivity)]
    refine ⟨hle, ?_⟩
    intro heq
    have htie := hhalf.mp heq
    exact (Int.even_coe_nat k).mpr (Nat.even_iff.mpr (by omega))
  · next h =>
    have hle : 1 / 2 ≤ (r : ℚ) / d := by
      rw [div_le_div_iff₀ two_pos hd']
      exact_mod_cast (by omega : 1 * d ≤ r * 2)
    rw [Nearest, Int.cast_natCast, Nat.cast_succ, add_sub_add_left_eq_sub,
      abs_of_nonpos (by linarith)]
    refine ⟨by linarith, ?_⟩
    intro heq
    have htie := hhalf.mp (by linarith)
    exact (Int.even_coe_nat (k + 1)).mpr (Nat.even_iff.mpr (by omega))

/-- Whole rationals are rounded to themselves, so that the two cases are one. -/
theorem rounded_eq (q : ℚ) : rounded q = roundEven (q * 10 ^ 16) / 10 ^ 16 := by
  unfold rounded
  split
  · next h =>
    have hwhole : q * 10 ^ 16 = ((q.num * 10 ^ 16 : ℤ) : ℚ) := by
      rw [Int.cast_mul, Rat.eq_num_of_isInt h]
      push_cast
      rfl
    rw [hwhole, roundEven_eq_iff.mpr (nearest_intCast _), ← hwhole]
    field_simp
  · rfl

theorem rounded_intCast (n : ℤ) : rounded n = n := by
  rw [rounded, if_pos (by simp [Rat.isInt])]

/-! ### The text of a number -/

namespace Binary64

open Decimal (places stepsPerOne)

/-- The steps that are written are the rounded value. -/
theorem rounded_units (negative : Bool) (units : Nat) :
    rounded ((signed negative units : ℚ) / unitsPerOne) =
      signed negative (decimalSteps places units) / 10 ^ 16 := by
  have hnearest : Nearest ((units * stepsPerOne places : Nat) / unitsPerOne)
      (decimalSteps places units) :=
    nearest_roundDiv _ unitsPerOne_pos
  have hsigned : Nearest ((signed negative units : ℚ) / unitsPerOne * 10 ^ 16)
      (signed negative (decimalSteps places units)) := by
    have hscale : ((units * stepsPerOne places : Nat) : ℚ) / unitsPerOne =
        units / unitsPerOne * 10 ^ 16 := by
      rw [Decimal.stepsPerOne_eq]
      push_cast
      ring
    rw [hscale] at hnearest
    cases negative with
    | false => simpa [signed] using hnearest
    | true => simpa [signed, neg_div] using hnearest.neg
  rw [rounded_eq, roundEven_eq_iff.mpr hsigned]

/-- Ones are written exactly, with any number of places. -/
theorem decimalSteps_ones (precision k : Nat) :
    decimalSteps precision (k * unitsPerOne) = k * stepsPerOne precision := by
  rw [decimalSteps, Nat.mul_right_comm, roundDiv_mul_left _ unitsPerOne_pos]

theorem fixed_ones (negative : Bool) (k : Nat) :
    fixed 0 negative (k * unitsPerOne) = (if negative then ['-'] else []) ++ Nat.toDigits 10 k := by
  have hone : stepsPerOne 0 = 1 := rfl
  rw [fixed, decimalSteps_ones, Decimal.fixedChars, if_pos rfl, List.append_nil, hone, Nat.mul_one,
    Nat.div_one]

theorem eqv_zero_iff {negative : Bool} {units : Nat} {fits : Fits units} :
    (finite negative units fits).eqv (zero false) ↔ units = 0 := by
  cases negative <;> simp [eqv, zero, signed]

/-- Of a number with all its places, cutting leaves the decimal of its steps; only the sign stays,
    whether or not it is a zero's. -/
theorem trimEnd_fixed (negative : Bool) (units : Nat) :
    Decimal.trimEnd '.' (Decimal.trimEnd '0' (fixed places negative units)) =
      (if negative then ['-'] else []) ++
        Decimal.plainChars false (decimalSteps places units) := by
  have hpoint : ∀ sign q, (sign ++ Nat.toDigits 10 q).getLast? ≠ some '.' := by
    intro sign q hlast
    rw [List.getLast?_append_of_ne_nil _ Nat.toDigits_ne_nil] at hlast
    have hdigit := Nat.isDigit_of_mem_toDigits (by decide) (by decide) (List.mem_of_getLast? hlast)
    cases hdigit
  have hplaces : places ≠ 0 := by decide
  rw [fixed]
  generalize decimalSteps places units = n
  rw [Decimal.fixedChars, if_neg hplaces, ← List.append_assoc,
    Decimal.trimEnd_point (hpoint _ _) fun d hd => Decimal.isDigit_of_mem_padded hd,
    Decimal.plainChars, Bool.false_and, if_neg Bool.false_ne_true, List.nil_append,
    List.append_assoc]

/-- **All ways of writing are one.**  Whole numbers are written without places and others cut from
    sixteen, zero and what is left of a zero with a sign apart; in each case it is the decimal of
    the steps of the sixteenth place. -/
theorem render_finite (negative : Bool) (units : Nat) (fits : Fits units) :
    (finite negative units fits).render =
      String.ofList (Decimal.plainChars negative (decimalSteps places units)) := by
  simp only [render]
  split
  · next hint =>
    -- a whole number of ones
    obtain ⟨k, rfl⟩ : ∃ k, units = k * unitsPerOne := by
      rw [isIntegral, decide_eq_true_iff] at hint
      exact exists_eq_mul_left_of_dvd (Nat.dvd_of_mod_eq_zero hint)
    rw [decimalSteps_ones, Decimal.plainChars_ones]
    split
    · next hzero =>
      have hk : k = 0 :=
        (Nat.mul_eq_zero.mp (eqv_zero_iff.mp hzero)).resolve_right unitsPerOne_pos.ne'
      rw [hk, bne_self_eq_false, Bool.and_false]
      rfl
    · next hzero =>
      have hk : (k != 0) = true := by
        rw [bne_iff_ne]
        rintro rfl
        exact hzero (eqv_zero_iff.mpr (Nat.zero_mul _))
      rw [fixed_ones, hk, Bool.and_true]
  · -- sixteen places, cut
    rw [trimEnd_fixed]
    exact Decimal.signed_plainChars negative _

theorem render_eq_render_iff {x y : Binary64} {p q : ℚ} (hx : x.value? = some p)
    (hy : y.value? = some q) : x.render = y.render ↔ rounded p = rounded q := by
  obtain ⟨m, a, ha, rfl, rfl⟩ := value?_eq_some_iff.mp hx
  obtain ⟨n, b, hb, rfl, rfl⟩ := value?_eq_some_iff.mp hy
  rw [render_finite, render_finite, String.ofList_inj, Decimal.plainChars_eq_iff, rounded_units,
    rounded_units, div_left_inj' (by norm_num), Int.cast_inj]

theorem denotes_rounded_iff {x : Binary64} {q : ℚ} (hx : x.value? = some q) (text : String) :
    Decimal.Denotes text (rounded q) ∧ text ≠ "-0" ↔ text = x.render := by
  obtain ⟨negative, units, fits, rfl, rfl⟩ := value?_eq_some_iff.mp hx
  rw [rounded_units, Decimal.denotes_iff, render_finite]

/-- A whole number is written as its digits, all of them. -/
theorem render_of_value?_int {x : Binary64} {n : ℤ} (hx : x.value? = some (n : ℚ)) :
    x.render = toString n := by
  have hsteps : rounded n = signed (decide (n < 0)) (n.natAbs * stepsPerOne places) / 10 ^ 16 := by
    rw [rounded_intCast, Decimal.signed_mul, signed_decide_lt_zero, Decimal.stepsPerOne_eq]
    norm_num
  have htext := denotes_rounded_iff hx (toString n)
  rw [hsteps, Decimal.denotes_iff, Decimal.plainChars_whole] at htext
  exact (htext.mp rfl).symm

/-- **Numbers are written as canonical decimals.**  The text of a finite number is the one
    canonical decimal other than `-0` that stands for its rounded value, so two finite numbers
    are written alike exactly when their rounded values are equal. -/
theorem render_iff_canonical {x y : Binary64} {p q : ℚ} (hx : x.value? = some p)
    (hy : y.value? = some q) :
    (∀ text, x.render = text ↔ Decimal.Denotes text (rounded p) ∧ text ≠ "-0") ∧
      (x.render = y.render ↔ rounded p = rounded q) := by
  constructor
  · intro text
    rw [denotes_rounded_iff hx, eq_comm]
  · exact render_eq_render_iff hx hy

/-- `-0.0000228881835938`, the text of `-3 * 2^-17`. -/
def tieDecimal : Decimal.Canonical :=
  { Decimal.Canonical.negativeZero with
    fraction := "0000228881835938".toList
    fraction_digits := List.all_eq_true.mp rfl
    length_fraction_le := by decide
    no_zero_behind := by decide }

/-- A tie above an odd neighbour, and a negative number that is rounded to zero. -/
theorem render_tie_and_least :
    (finite true (3 <<< 1057) (by decide +kernel)).render = "-0.0000228881835938" ∧
      (finite true 1 (by decide +kernel)).render = (zero false).render := by
  have htie : (finite true (3 <<< 1057) (by decide +kernel)).value? = some (-3 / 2 ^ 17) := by
    decide +kernel
  have hleast : (finite true 1 (by decide +kernel)).value? = some (-1 / 2 ^ 1074) := by
    decide +kernel
  have hzero : (zero false).value? = some 0 := by decide +kernel
  constructor
  · apply ((render_iff_canonical htie htie).1 _).mpr
    exact ⟨⟨tieDecimal, rfl, by decide +kernel⟩, by decide⟩
  · apply (render_iff_canonical hleast hzero).2.mpr
    decide +kernel

end Binary64

end LineCalc
