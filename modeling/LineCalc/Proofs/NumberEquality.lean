/-
  LineCalc/Proofs/NumberEquality.lean
  ===================================
  **How near two numbers are that compare as equal.**  Numbers are compared by
  their texts.  Equal numbers have equal texts, and numbers with equal texts are
  no more than `10^-16` apart, since each is within half of that of the value that
  is written.

  From one half on, this makes them equal: the numbers there are `2^-53` apart,
  which is more than `10^-16`.  One half itself has a neighbour at `2^-54`, but is
  written without rounding, so that the text allows half of `10^-16` only.
-/
import LineCalc.Proofs.NumberText
import LineCalc.Value

namespace LineCalc

/-! ### The value that is written -/

theorem abs_sub_rounded_le (q : ℚ) : |q - rounded q| ≤ 1 / 2 / 10 ^ 16 := by
  obtain ⟨hnear, -⟩ := nearest_roundEven (q * 10 ^ 16)
  have hscale : |q - rounded q| * 10 ^ 16 = |q * 10 ^ 16 - roundEven (q * 10 ^ 16)| := by
    have hpow : |(10 : ℚ) ^ 16| = 10 ^ 16 := abs_of_pos (by norm_num)
    rw [← hpow, ← abs_mul, hpow, sub_mul, rounded_eq, div_mul_cancel₀ _ (by norm_num)]
  rw [le_div_iff₀ (by norm_num), hscale]
  exact hnear

/-- Values that are written alike are no more than one step of the last place apart. -/
theorem abs_sub_le_of_rounded_eq {p q : ℚ} (h : rounded p = rounded q) :
    |p - q| ≤ 1 / 10 ^ 16 := by
  have hp := abs_sub_rounded_le p
  have hq := abs_sub_rounded_le q
  have htriangle := abs_sub_le p (rounded p) q
  rw [h, abs_sub_comm (rounded q) q] at htriangle
  rw [h] at hp
  linarith

/-- What has sixteen decimal places is written without rounding. -/
theorem rounded_steps (k : ℤ) : rounded (k / 10 ^ 16) = k / 10 ^ 16 := by
  rw [rounded_eq, div_mul_cancel₀ _ (by norm_num), roundEven_eq_iff.mpr (nearest_intCast k)]

theorem rounded_of_abs_eq_half {q : ℚ} (h : |q| = 1 / 2) : rounded q = q := by
  rcases (abs_eq (by norm_num)).mp h with rfl | rfl
  · have hsteps := rounded_steps (5 * 10 ^ 15)
    norm_num at hsteps ⊢
    exact hsteps
  · have hsteps := rounded_steps (-(5 * 10 ^ 15))
    norm_num at hsteps ⊢
    exact hsteps

/-! ### The distance of numbers from one half on -/

namespace Binary64

/-- A magnitude of `2^k` units or more is a multiple of `2^(k - 52)` units. -/
theorem dvd_of_fits {n : ℤ} {k : Nat} (fits : Fits n.natAbs) (h : 2 ^ k ≤ |n|) :
    (2 : ℤ) ^ (k - 52) ∣ n := by
  have hle : 2 ^ k ≤ n.natAbs := by
    rw [← Int.natCast_natAbs] at h
    exact_mod_cast h
  have hne : n.natAbs ≠ 0 := (Nat.lt_of_lt_of_le (Nat.two_pow_pos k) hle).ne'
  have hlog : k ≤ n.natAbs.log2 := (Nat.le_log2 hne).mpr hle
  have hdvd := fits.2
  rw [Nat.one_shiftLeft] at hdvd
  have hpow : 2 ^ (k - 52) ∣ n.natAbs := Nat.dvd_trans (Nat.pow_dvd_pow 2 (by omega)) hdvd
  exact_mod_cast Int.natCast_dvd.mpr hpow

theorem le_abs_sub_of_dvd {d s t : ℤ} (hs : d ∣ s) (ht : d ∣ t) (hne : s ≠ t) : d ≤ |s - t| :=
  Int.le_of_dvd (abs_pos.mpr (sub_ne_zero.mpr hne)) ((dvd_abs _ _).mpr (dvd_sub hs ht))

/-- Where magnitudes reach `2^k` units, numbers are `2^(k - 52)` units apart; only the least of
    them has a neighbour at half that distance, which lies below it. -/
theorem units_apart {s t : ℤ} {k : Nat} (hk : 53 ≤ k) (hs : Fits s.natAbs) (ht : Fits t.natAbs)
    (hle : 2 ^ k ≤ |s|) (hne : s ≠ t) :
    2 ^ (k - 52) ≤ |s - t| ∨ (|s| = 2 ^ k ∧ 2 ^ (k - 53) ≤ |s - t|) := by
  have hsdvd := dvd_of_fits hs hle
  have htriangle : |s| - |t| ≤ |s - t| := abs_sub_abs_le_abs_sub s t
  by_cases htle : 2 ^ k ≤ |t|
  · exact Or.inl (le_abs_sub_of_dvd hsdvd (dvd_of_fits ht htle) hne)
  · by_cases hleast : |s| = 2 ^ k
    · right
      refine ⟨hleast, ?_⟩
      have hhalf : (2 : ℤ) ^ (k - 1) + 2 ^ (k - 1) = 2 ^ k := by
        rw [← two_mul, ← pow_succ', Nat.sub_add_cancel (by omega)]
      by_cases hbelow : 2 ^ (k - 1) ≤ |t|
      · have htdvd := dvd_of_fits ht hbelow
        rw [Nat.sub_sub] at htdvd
        exact le_abs_sub_of_dvd ((pow_dvd_pow 2 (by omega)).trans hsdvd) htdvd hne
      · have hpow : (2 : ℤ) ^ (k - 53) ≤ 2 ^ (k - 1) := pow_le_pow_right₀ (by norm_num) (by omega)
        omega
    · left
      have hbeyond : (2 : ℤ) ^ (k - 52) ≤ |s| - 2 ^ k := by
        apply Int.le_of_dvd (by omega)
        exact dvd_sub ((dvd_abs _ _).mpr hsdvd) (pow_dvd_pow 2 (by omega))
      omega

/-- The units of `2^-j`. -/
theorem two_pow_mul_unitsPerOne {j k : Nat} (h : j + k = 1074) :
    (1 : ℚ) / 2 ^ j * unitsPerOne = 2 ^ k := by
  rw [unitsPerOne_eq, ← h, Nat.cast_pow, Nat.cast_ofNat, pow_add, ← mul_assoc,
    one_div_mul_cancel (by positivity), one_mul]

theorem le_abs_div_iff {n : ℤ} {j k : Nat} (h : j + k = 1074) :
    1 / 2 ^ j ≤ |(n : ℚ) / unitsPerOne| ↔ 2 ^ k ≤ |n| := by
  rw [abs_div, abs_of_pos cast_unitsPerOne_pos, le_div_iff₀ cast_unitsPerOne_pos,
    two_pow_mul_unitsPerOne h]
  exact_mod_cast Iff.rfl

theorem abs_div_eq_iff {n : ℤ} {j k : Nat} (h : j + k = 1074) :
    |(n : ℚ) / unitsPerOne| = 1 / 2 ^ j ↔ |n| = 2 ^ k := by
  rw [abs_div, abs_of_pos cast_unitsPerOne_pos, div_eq_iff cast_unitsPerOne_pos.ne',
    two_pow_mul_unitsPerOne h]
  exact_mod_cast Iff.rfl

/-- Numbers are `2^-53` apart from one half on, but for the neighbour below one half. -/
theorem values_apart {x y : Binary64} {p q : ℚ} (hx : x.value? = some p) (hy : y.value? = some q)
    (hle : 1 / 2 ≤ |p|) (hne : p ≠ q) :
    1 / 2 ^ 53 ≤ |p - q| ∨ (|p| = 1 / 2 ∧ 1 / 2 ^ 54 ≤ |p - q|) := by
  obtain ⟨m, a, ha, rfl, rfl⟩ := value?_eq_some_iff.mp hx
  obtain ⟨n, b, hb, rfl, rfl⟩ := value?_eq_some_iff.mp hy
  rw [← natAbs_signed m a] at ha
  rw [← natAbs_signed n b] at hb
  generalize signed m a = s at *
  generalize signed n b = t at *
  rw [← pow_one (2 : ℚ)] at hle ⊢
  have hunits : 2 ^ 1073 ≤ |s| := (le_abs_div_iff (by decide)).mp hle
  have hst : s ≠ t := fun h => hne (by rw [h])
  rw [← sub_div, ← Int.cast_sub]
  rcases units_apart (by decide) ha hb hunits hst with hfar | ⟨hhalf, hnear⟩
  · exact Or.inl ((le_abs_div_iff (by decide)).mpr hfar)
  · exact Or.inr ⟨(abs_div_eq_iff (by decide)).mpr hhalf, (le_abs_div_iff (by decide)).mpr hnear⟩

/-- From one half on, different numbers are written differently. -/
theorem eq_of_rounded_eq {x y : Binary64} {p q : ℚ} (hx : x.value? = some p)
    (hy : y.value? = some q) (hle : 1 / 2 ≤ |p|) (h : rounded p = rounded q) : p = q := by
  by_contra hne
  rcases values_apart hx hy hle hne with hfar | ⟨hhalf, hnear⟩
  · have hstep := abs_sub_le_of_rounded_eq h
    norm_num at hstep hfar
    linarith
  · -- one half is its own text, so only the rounding of the other value counts
    have hstep := abs_sub_rounded_le q
    rw [← h, rounded_of_abs_eq_half hhalf, abs_sub_comm] at hstep
    norm_num at hstep hnear
    linarith

end Binary64

/-! ### Comparisons -/

/-- **How far comparing numbers is from comparing values.**  Equal values compare as equal, and
    those that compare as equal are within `10^-16`; from one half on and among whole numbers
    they are equal.  `!=` is the opposite of `==`. -/
theorem CompareOp.eval_numbers {x y : Binary64} {p q : ℚ} (hx : x.value? = some p)
    (hy : y.value? = some q) :
    ∃ isEqual : Bool,
      CompareOp.equal.eval (.number x) (.number y) = .boolean isEqual ∧
      CompareOp.notEqual.eval (.number x) (.number y) = .boolean (!isEqual) ∧
      (p = q → isEqual) ∧
      (isEqual → |p - q| ≤ 1 / 10 ^ 16) ∧
      (1 / 2 ≤ |p| ∨ (x.isIntegral ∧ y.isIntegral) → isEqual → p = q) := by
  refine ⟨decide (x.render = y.render), rfl, rfl, ?_⟩
  rw [decide_eq_true_iff, Binary64.render_eq_render_iff hx hy]
  refine ⟨fun h => by rw [h], abs_sub_le_of_rounded_eq, ?_⟩
  rintro (hle | ⟨hxint, hyint⟩) h
  · exact Binary64.eq_of_rounded_eq hx hy hle h
  · obtain ⟨m, hm⟩ := Binary64.isIntegral_iff.mp hxint
    obtain ⟨n, hn⟩ := Binary64.isIntegral_iff.mp hyint
    obtain rfl : p = m := Option.some.inj (hx.symm.trans hm)
    obtain rfl : q = n := Option.some.inj (hy.symm.trans hn)
    rwa [rounded_intCast, rounded_intCast] at h

-- sixteen places do not tell `0.1 + 0.2` from `0.3`
example :
    CompareOp.equal.eval (.number (.finite false (5404319552844596 <<< 1020) (by decide +kernel)))
      (.number (.finite false (5404319552844595 <<< 1020) (by decide +kernel))) =
        .boolean true := by
  decide +kernel

/-- One half and its neighbour below compare as different, the two zeros as equal. -/
theorem CompareOp.eval_numbers_half_and_zero :
    CompareOp.equal.eval (.number (.finite false (1 <<< 1073) (by decide +kernel)))
        (.number (.finite false ((1 <<< 53 - 1) <<< 1020) (by decide +kernel))) =
      .boolean false ∧
    CompareOp.notEqual.eval (.number (.zero false)) (.number (.zero true)) = .boolean false := by
  constructor
  · have hhalf : (Binary64.finite false (1 <<< 1073) (by decide +kernel)).value? = some (1 / 2) := by
      decide +kernel
    have hbelow : (Binary64.finite false ((1 <<< 53 - 1) <<< 1020) (by decide +kernel)).value? =
        some (1 / 2 - 1 / 2 ^ 54) := by
      decide +kernel
    obtain ⟨isEqual, hanswer, -, -, -, hexact⟩ := eval_numbers hhalf hbelow
    cases isEqual with
    | false => exact hanswer
    | true =>
      have heq := hexact (Or.inl (by norm_num)) rfl
      norm_num at heq
  · have hplus : (Binary64.zero false).value? = some 0 := by decide +kernel
    have hminus : (Binary64.zero true).value? = some 0 := by decide +kernel
    obtain ⟨isEqual, -, hanswer, hequal, -⟩ := eval_numbers hplus hminus
    rw [hanswer, hequal rfl]
    rfl

end LineCalc
