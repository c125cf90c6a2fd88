/-
  LineCalc/Binary64/Rounding.lean
  ===============================
  **The one rounding of the library.**  `roundDiv` takes a quotient of naturals
  to the nearest natural, a tie to the even one.  `roundUnits` takes an exact
  quotient of units to the nearest magnitude of 53 significant bits, by rounding
  it at the last bit that such a magnitude keeps.  `ofRatio` is the number
  nearest to a signed quotient, infinite when the magnitude overflows.

  Arithmetic, the reading of decimals and the writing of decimals all round
  through `roundDiv`, so "to nearest, ties to even" is said once.
-/
import LineCalc.Binary64.Basic

namespace LineCalc

/-- The natural nearest to `a / d`; of two equally near ones, the even one. -/
def roundDiv (a d : Nat) : Nat :=
  if 2 * (a % d) < d ∨ (2 * (a % d) = d ∧ a / d % 2 = 0) then a / d else a / d + 1

theorem roundDiv_le (a d : Nat) : roundDiv a d ≤ a / d + 1 := by
  unfold roundDiv; split <;> omega

/-- A whole quotient is its own rounding. -/
theorem roundDiv_mul_left (k : Nat) {d : Nat} (hd : 0 < d) : roundDiv (k * d) d = k := by
  simp [roundDiv, Nat.mul_div_cancel k hd, hd]

namespace Binary64

/-- The place of the last bit kept when `a / d` units are cut to 53 bits. -/
def lastPlace (a d : Nat) : Nat := (a / d).log2 - 52

/-- The magnitude of at most 53 significant bits nearest to `a / d` units. -/
def roundUnits (a d : Nat) : Nat :=
  roundDiv a (d <<< lastPlace a d) <<< lastPlace a d

/-- What is left of a quotient at its last place is a significand. -/
theorem div_lastPlace_lt (a d : Nat) : a / d <<< lastPlace a d < 1 <<< 53 := by
  rw [Nat.shiftLeft_eq, ← Nat.div_div_eq_div_mul, Nat.div_lt_iff_lt_mul (Nat.two_pow_pos _),
    show (1 <<< 53 : Nat) = 2 ^ 53 from rfl, ← Nat.pow_add]
  refine Nat.lt_of_lt_of_le (Nat.lt_log2_self (n := a / d)) ?_
  exact Nat.pow_le_pow_right (by decide) (by unfold lastPlace; omega)

theorem fits_roundUnits {a d : Nat} (h : roundUnits a d < unitsBound) :
    Fits (roundUnits a d) :=
  fits_shiftLeft (Nat.le_trans (roundDiv_le _ _) (div_lastPlace_lt a d)) h

/-- The number nearest to `a / d` units, with the given sign. -/
def ofRatio (negative : Bool) (a d : Nat) : Binary64 :=
  if h : roundUnits a d < unitsBound then .finite negative (roundUnits a d) (fits_roundUnits h)
  else .infinite negative

end Binary64

end LineCalc
