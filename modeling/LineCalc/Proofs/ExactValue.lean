/-
  LineCalc/Proofs/ExactValue.lean
  ===============================
  **The exact value of a number.**  A finite number stands for a rational, its
  units over `2^1074`; `Representable` says which rationals are such values.

  Rounding leaves alone what is representable.  So a sum, a difference and a
  product are exact whenever the exact result is representable, and among the
  whole numbers all those up to `2^53` in magnitude are.
-/
import LineCalc.Binary64.Arithmetic
import LineCalc.Proofs.DigitRun
import Mathlib.Data.Rat.Cast.Order
import Mathlib.Tactic.FieldSimp
import Mathlib.Tactic.Positivity
import Mathlib.Tactic.Ring

namespace LineCalc.Binary64

/-- The exact value of a finite number. -/
def value? (x : Binary64) : Option ℚ := x.units?.map fun units => (units : ℚ) / unitsPerOne

/-- The rational is the exact value of a number. -/
def Representable (q : ℚ) : Prop := ∃ x : Binary64, x.value? = some q

/-! ### Values and units -/

theorem unitsPerOne_eq : unitsPerOne = 2 ^ 1074 := by
  unfold unitsPerOne
  generalize 1074 = place
  exact Nat.one_shiftLeft place

theorem unitsPerOne_pos : 0 < unitsPerOne := by
  rw [unitsPerOne_eq]
  positivity

theorem cast_unitsPerOne_pos : (0 : ℚ) < unitsPerOne := Nat.cast_pos.mpr unitsPerOne_pos

theorem div_unitsPerOne_inj {a b : ℤ} :
    (a : ℚ) / unitsPerOne = b / unitsPerOne ↔ a = b := by
  rw [div_left_inj' cast_unitsPerOne_pos.ne', Int.cast_inj]

theorem value?_finite (negative : Bool) (units : Nat) (fits : Fits units) :
    (finite negative units fits).value? = some ((signed negative units : ℚ) / unitsPerOne) := rfl

theorem value?_eq_some_iff {x : Binary64} {q : ℚ} :
    x.value? = some q ↔
      ∃ negative units fits, x = .finite negative units fits ∧
        q = (signed negative units : ℚ) / unitsPerOne := by
  constructor
  · intro h
    cases x with
    | finite negative units fits => exact ⟨negative, units, fits, rfl, (Option.some.inj h).symm⟩
    | infinite negative => cases h
    | nan => cases h
  · rintro ⟨negative, units, fits, rfl, rfl⟩
    rfl

@[simp] theorem natAbs_signed (negative : Bool) (units : Nat) :
    (signed negative units).natAbs = units := by
  cases negative <;> simp [signed]

@[simp] theorem signed_zero (negative : Bool) : signed negative 0 = 0 := by
  cases negative <;> rfl

theorem signed_decide_lt_zero (n : ℤ) : signed (decide (n < 0)) n.natAbs = n := by
  by_cases h : n < 0
  · simp only [signed, h, decide_true, if_true]
    omega
  · simp only [signed, h, decide_false, Bool.false_eq_true, if_false]
    omega

theorem signed_not (negative : Bool) (units : Nat) :
    signed (!negative) units = -signed negative units := by
  cases negative <;> simp [signed]

theorem signed_xor (m n : Bool) (a b : Nat) :
    signed (m ^^ n) (a * b) = signed m a * signed n b := by
  cases m <;> cases n <;> simp [signed]

/-- Numeric equality is equality of the exact values. -/
theorem eqv_iff {x y : Binary64} {p q : ℚ} (hx : x.value? = some p) (hy : y.value? = some q) :
    x.eqv y ↔ p = q := by
  obtain ⟨m, a, ha, rfl, rfl⟩ := value?_eq_some_iff.mp hx
  obtain ⟨n, b, hb, rfl, rfl⟩ := value?_eq_some_iff.mp hy
  rw [div_unitsPerOne_inj]
  exact decide_eq_true_iff

theorem value?_neg {x : Binary64} {q : ℚ} (hx : x.value? = some q) : x.neg.value? = some (-q) := by
  obtain ⟨negative, units, fits, rfl, rfl⟩ := value?_eq_some_iff.mp hx
  rw [neg, value?_finite, signed_not, Int.cast_neg, neg_div]

theorem Representable.neg {q : ℚ} (h : Representable q) : Representable (-q) := by
  obtain ⟨x, hx⟩ := h
  exact ⟨x.neg, value?_neg hx⟩

/-- The numbers without a fractional part are those with a whole value. -/
theorem isIntegral_iff {x : Binary64} : x.isIntegral ↔ ∃ n : ℤ, x.value? = some (n : ℚ) := by
  constructor
  · intro h
    cases x with
    | finite negative units fits =>
      have hdvd : unitsPerOne ∣ units := Nat.dvd_of_mod_eq_zero (of_decide_eq_true h)
      obtain ⟨k, rfl⟩ := hdvd
      refine ⟨signed negative k, ?_⟩
      have hmul : signed negative (unitsPerOne * k) = signed negative k * unitsPerOne := by
        cases negative <;> simp [signed, mul_comm]
      rw [value?_finite, hmul, Int.cast_mul, Int.cast_natCast,
        mul_div_cancel_right₀ _ cast_unitsPerOne_pos.ne']
    | infinite negative => cases h
    | nan => cases h
  · rintro ⟨n, hn⟩
    obtain ⟨negative, units, fits, rfl, hvalue⟩ := value?_eq_some_iff.mp hn
    have hunits : signed negative units = n * unitsPerOne := by
      rw [eq_div_iff cast_unitsPerOne_pos.ne'] at hvalue
      exact_mod_cast hvalue.symm
    have habs : units = n.natAbs * unitsPerOne := by
      rw [← natAbs_signed negative units, hunits, Int.natAbs_mul, Int.natAbs_natCast]
    exact decide_eq_true (by rw [habs, Nat.mul_mod_left])

/-! ### What is representable -/

theorem representable_div_iff {n : ℤ} : Representable ((n : ℚ) / unitsPerOne) ↔ Fits n.natAbs := by
  constructor
  · rintro ⟨x, hx⟩
    obtain ⟨negative, units, fits, rfl, hvalue⟩ := value?_eq_some_iff.mp hx
    rw [div_unitsPerOne_inj.mp hvalue, natAbs_signed]
    exact fits
  · intro fits
    exact ⟨.finite (decide (n < 0)) n.natAbs fits, by rw [value?_finite, signed_decide_lt_zero]⟩

theorem representable_int_iff {n : ℤ} : Representable n ↔ Fits (n.natAbs * unitsPerOne) := by
  have hunits : (n : ℚ) = ((n * unitsPerOne : ℤ) : ℚ) / unitsPerOne := by
    rw [Int.cast_mul, Int.cast_natCast, mul_div_cancel_right₀ _ cast_unitsPerOne_pos.ne']
  rw [hunits, representable_div_iff, Int.natAbs_mul, Int.natAbs_natCast]

theorem shiftLeft_lt_unitsBound {m s : Nat} (hm : m ≤ 1 <<< 53) (hs : s ≤ 2044) :
    m <<< s < unitsBound := by
  refine Nat.lt_of_lt_of_le ?_ (shiftLeft_le_unitsBound (k := 54 + s) (by omega))
  rw [Nat.shiftLeft_eq, Nat.one_shiftLeft, Nat.pow_add]
  apply Nat.mul_lt_mul_of_pos_right _ (Nat.two_pow_pos s)
  exact Nat.lt_of_le_of_lt hm (by decide)

/-- A significand has room for every whole number up to `2^53`. -/
theorem representable_of_abs_le {n : ℤ} (h : |n| ≤ 2 ^ 53) : Representable n := by
  have hsmall : n.natAbs ≤ 1 <<< 53 := by
    rw [← Int.ofNat_le, Int.natCast_natAbs]
    exact h
  rw [representable_int_iff, unitsPerOne_eq, ← Nat.shiftLeft_eq]
  exact fits_shiftLeft hsmall (shiftLeft_lt_unitsBound hsmall (by decide))

/-! ### Exact operations -/

theorem signed_sumNegative (m n : Bool) (sum : ℤ) :
    signed (sumNegative m n sum) sum.natAbs = sum := by
  unfold sumNegative
  split
  · next h => rw [h, Int.natAbs_zero, signed_zero]
  · exact signed_decide_lt_zero sum

variable {x y : Binary64} {p q : ℚ}

theorem value?_add (hx : x.value? = some p) (hy : y.value? = some q)
    (h : Representable (p + q)) : (x.add y).value? = some (p + q) := by
  obtain ⟨m, a, ha, rfl, rfl⟩ := value?_eq_some_iff.mp hx
  obtain ⟨n, b, hb, rfl, rfl⟩ := value?_eq_some_iff.mp hy
  rw [← add_div, ← Int.cast_add] at h ⊢
  have fits := representable_div_iff.mp h
  have hround := ofRatio_mul (sumNegative m n (signed m a + signed n b)) fits Nat.one_pos
  rw [Nat.mul_one] at hround
  rw [add, hround, value?_finite, signed_sumNegative]

theorem value?_sub (hx : x.value? = some p) (hy : y.value? = some q)
    (h : Representable (p - q)) : (x.sub y).value? = some (p - q) := by
  rw [sub_eq_add_neg] at h ⊢
  exact value?_add hx (value?_neg hy) h

theorem value?_mul (hx : x.value? = some p) (hy : y.value? = some q)
    (h : Representable (p * q)) : (x.mul y).value? = some (p * q) := by
  obtain ⟨m, a, ha, rfl, rfl⟩ := value?_eq_some_iff.mp hx
  obtain ⟨n, b, hb, rfl, rfl⟩ := value?_eq_some_iff.mp hy
  obtain ⟨z, hz⟩ := h
  obtain ⟨l, c, hc, -, hvalue⟩ := value?_eq_some_iff.mp hz
  -- in units, the product of the magnitudes has one factor `2^1074` too many
  have hproduct : signed m a * signed n b = signed l c * unitsPerOne := by
    have hne := cast_unitsPerOne_pos.ne'
    rw [div_mul_div_comm, div_eq_div_iff (mul_ne_zero hne hne) hne, ← mul_assoc] at hvalue
    exact_mod_cast mul_right_cancel₀ hne hvalue
  have hunits : a * b = c * unitsPerOne := by
    have habs := congrArg Int.natAbs hproduct
    simpa [Int.natAbs_mul] using habs
  have hsigned : signed m a * signed n b = signed (m ^^ n) c * unitsPerOne := by
    rw [← signed_xor, hunits]
    cases m ^^ n <;> simp [signed]
  have hexact : (signed m a : ℚ) / unitsPerOne * (signed n b / unitsPerOne) =
      (signed (m ^^ n) c : ℚ) / unitsPerOne := by
    have hcast : (signed m a : ℚ) * signed n b = signed (m ^^ n) c * unitsPerOne := by
      exact_mod_cast hsigned
    rw [div_mul_div_comm, hcast, mul_div_mul_right _ _ cast_unitsPerOne_pos.ne']
  rw [mul, hunits, ofRatio_mul _ hc unitsPerOne_pos, value?_finite, hexact]

end LineCalc.Binary64
