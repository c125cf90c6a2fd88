/-
  LineCalc/Binary64/Basic.lean
  ============================
  **Binary64 numbers, held exactly.**  Every finite number of the format is a
  whole number of *units* of `2^-1074`, the least positive one, so a finite
  number is a sign and a natural number of units.  Which naturals occur is the
  invariant `Fits`: at most 53 significant bits, below `2^2098` units.

  Holding the units instead of the 64 bits makes the exact value of a number a
  field of it: order, equality and the operations are integer arithmetic, and
  rounding happens in one place (`Binary64/Rounding`).  The bit layout is a
  view, `toBits` and `ofBits`.

  Powers of two are written as shifts: `1 <<< k` is `2^k`, and `m <<< k` is `m`
  moved up by `k` binary places.
-/
namespace LineCalc

/-- The units that make up the number one. -/
def Binary64.unitsPerOne : Nat := 1 <<< 1074

/-- The units of `2^1024`, the first power of two beyond the finite numbers. -/
def Binary64.unitsBound : Nat := 1 <<< 2098

/-- The naturals that are the magnitude of a finite number, in units: no bit
    is set below the 53 leading ones, and the number lies below `2^1024`. -/
def Binary64.Fits (units : Nat) : Prop :=
  units < Binary64.unitsBound ∧ 1 <<< (units.log2 - 52) ∣ units

instance (units : Nat) : Decidable (Binary64.Fits units) :=
  inferInstanceAs (Decidable (_ ∧ _))

/-- A number of the language.  Zero has a sign; there is one not-a-number. -/
inductive Binary64 where
  | finite (negative : Bool) (units : Nat) (fits : Binary64.Fits units)
  | infinite (negative : Bool)
  | nan
  deriving DecidableEq

namespace Binary64

/-! ### Which magnitudes fit -/

theorem shiftLeft_le_unitsBound {k : Nat} (h : k ≤ 2098) : 1 <<< k ≤ unitsBound := by
  unfold unitsBound
  generalize 2098 = n at h ⊢
  rw [Nat.shiftLeft_eq, Nat.shiftLeft_eq]
  exact Nat.mul_le_mul_left 1 (Nat.pow_le_pow_right (by decide) h)

theorem unitsBound_pos : 0 < unitsBound :=
  Nat.lt_of_lt_of_le Nat.zero_lt_one (shiftLeft_le_unitsBound (k := 0) (by decide))

/-- A significand of at most 53 bits, shifted, fits as long as it does not
    overflow; the carry to `2^53` is harmless because it is a power of two. -/
theorem fits_shiftLeft {m s : Nat} (hm : m ≤ 1 <<< 53) (hlt : m <<< s < unitsBound) :
    Fits (m <<< s) := by
  refine ⟨hlt, ?_⟩
  have heq : m <<< s = m * 2 ^ s := Nat.shiftLeft_eq m s
  rw [Nat.shiftLeft_eq, Nat.one_mul, heq]
  rcases Nat.eq_zero_or_pos m with rfl | hpos
  · rw [Nat.zero_mul]
    exact Nat.dvd_zero _
  · have hne : m * 2 ^ s ≠ 0 := Nat.ne_of_gt (Nat.mul_pos hpos (Nat.two_pow_pos s))
    rcases Nat.lt_or_eq_of_le hm with hsmall | rfl
    · have hlog : (m * 2 ^ s).log2 < 53 + s := by
        rw [Nat.log2_lt hne, Nat.pow_add]
        exact Nat.mul_lt_mul_of_pos_right hsmall (Nat.two_pow_pos s)
      exact Nat.dvd_trans (Nat.pow_dvd_pow 2 (by omega)) (Nat.dvd_mul_left _ _)
    · rw [show (1 <<< 53 : Nat) = 2 ^ 53 from rfl, ← Nat.pow_add, Nat.log2_two_pow]
      exact Nat.pow_dvd_pow 2 (by omega)

theorem fits_zero : Fits 0 := ⟨unitsBound_pos, Nat.dvd_zero _⟩

/-! ### Constants, sign and exact value -/

/-- The zero of the given sign. -/
def zero (negative : Bool) : Binary64 := .finite negative 0 fits_zero

/-- A magnitude with its sign. -/
def signed (negative : Bool) (units : Nat) : Int :=
  if negative then -(units : Int) else units

/-- The exact value of a finite number as an integer number of units. -/
def units? : Binary64 → Option Int
  | .finite negative units _ => some (signed negative units)
  | _ => none

/-- The number with the other sign. -/
def neg : Binary64 → Binary64
  | .finite negative units fits => .finite (!negative) units fits
  | .infinite negative => .infinite (!negative)
  | .nan => .nan

/-- Numeric equality: the two zeros are equal, and not-a-number equals
    nothing. -/
def eqv : Binary64 → Binary64 → Bool
  | .finite n₁ u₁ _, .finite n₂ u₂ _ => signed n₁ u₁ = signed n₂ u₂
  | .infinite n₁, .infinite n₂ => n₁ = n₂
  | _, _ => false

/-- Greater than zero. -/
def isPositive : Binary64 → Bool
  | .finite negative units _ => !negative && units ≠ 0
  | .infinite negative => !negative
  | .nan => false

/-- Finite and without a fractional part. -/
def isIntegral : Binary64 → Bool
  | .finite _ units _ => units % unitsPerOne = 0
  | _ => false

/-! ### The bit layout

One sign bit, eleven exponent bits, fifty-two fraction bits.  Exponent field
`0` holds the magnitudes below `2^52` units as they are; field `e + 1` holds
`2^52 + fraction` shifted by `e`; the last field holds the rest. -/

/-- The magnitude with exponent field `e` and the given fraction. -/
def fieldUnits (e fraction : Nat) : Nat :=
  if e = 0 then fraction else (1 <<< 52 + fraction) <<< (e - 1)

theorem fits_fieldUnits {e fraction : Nat} (he : e < 2047) (hf : fraction < 1 <<< 52) :
    Fits (fieldUnits e fraction) := by
  have h53 : (1 <<< 52 : Nat) + 1 <<< 52 = 1 <<< 53 := by decide
  have bounded : ∀ m k, m < 1 <<< 53 → k ≤ 2045 → m <<< k < unitsBound := by
    intro m k hm hk
    refine Nat.lt_of_lt_of_le ?_ (shiftLeft_le_unitsBound (k := 53 + k) (by omega))
    rw [Nat.shiftLeft_eq, Nat.shiftLeft_eq, Nat.one_mul, Nat.pow_add]
    exact Nat.mul_lt_mul_of_pos_right hm (Nat.two_pow_pos k)
  unfold fieldUnits
  split
  · exact fits_shiftLeft (s := 0) (by omega) (bounded _ 0 (by omega) (by omega))
  · exact fits_shiftLeft (by omega) (bounded _ _ (by omega) (by omega))

/-- The number with these 64 bits. -/
def ofBits (bits : UInt64) : Binary64 :=
  let negative := bits.toNat ≥ 1 <<< 63
  let e := bits.toNat / 1 <<< 52 % 2048
  let fraction := bits.toNat % 1 <<< 52
  if he : e < 2047 then
    .finite negative (fieldUnits e fraction) (fits_fieldUnits he (Nat.mod_lt _ (by decide)))
  else if fraction = 0 then .infinite negative
  else .nan

/-- Exponent field and fraction of a magnitude, side by side. -/
def unitsField (units : Nat) : Nat :=
  if units < 1 <<< 52 then units
  else
    let e := units.log2 - 52
    (e + 1) <<< 52 + (units >>> e - 1 <<< 52)

/-- The sign bit. -/
def signField (negative : Bool) : Nat := if negative then 1 <<< 63 else 0

/-- The 64 bits of a number; not-a-number is the quiet one without payload. -/
def toBits : Binary64 → UInt64
  | .finite negative units _ => UInt64.ofNat (signField negative + unitsField units)
  | .infinite negative => UInt64.ofNat (signField negative + 2047 <<< 52)
  | .nan => 0x7ff8000000000000

end Binary64

end LineCalc
