/-
  LineCalc/Proofs/IntegerLines.lean
  =================================
  **Integers as lines.**  The text of a number without a fractional part is read
  back as that number, whatever its size, and a line with that text gives it again.
  Only the sign of a zero is lost.

  A run of digits may have zeros in front; the line gives the digits that count.
-/
import LineCalc.Proofs.ArithmeticLines

namespace LineCalc

/-! ### Zeros in front -/

namespace Numeral

/-- The digits without the zeros in front, one zero if there are no others. -/
def significant (ds : List Char) : List Char :=
  match ds.dropWhile (· = '0') with
  | [] => ['0']
  | rest => rest

theorem natOfDigits_dropWhile (ds : List Char) :
    natOfDigits (ds.dropWhile (· = '0')) = natOfDigits ds := by
  induction ds with
  | nil => rfl
  | cons d ds ih =>
    by_cases hd : d = '0'
    · subst hd
      rw [List.dropWhile_cons_of_pos (by decide), ih, natOfDigits_zero_cons]
    · rw [List.dropWhile_cons_of_neg (by simpa using hd)]

/-- The digits that count are those of the value. -/
theorem toDigits_eq_significant {ds : List Char} (hds : ∀ d ∈ ds, d.isDigit) :
    Nat.toDigits 10 (natOfDigits ds) = significant ds := by
  unfold significant
  rw [← natOfDigits_dropWhile]
  split
  · next hnil =>
    rw [hnil]
    rfl
  · next hne =>
    refine toDigits_natOfDigits hne ?_ ?_
    · intro d hd
      exact hds d ((List.dropWhile_sublist _).mem hd)
    · intro hzero
      have hhead := List.head?_dropWhile_not (fun d : Char => decide (d = '0')) ds
      simp [hzero] at hhead

end Numeral

namespace Decimal

theorem toString_natCast (n : Nat) : toString (n : ℤ) = String.ofList (Nat.toDigits 10 n) := by
  rw [← String.ofList_toList (s := toString (n : ℤ)), toList_toString, if_neg (by omega),
    Int.natAbs_natCast, List.nil_append]

theorem toString_neg_natCast (n : Nat) :
    toString (-(n : ℤ)) = String.ofList (if n = 0 then ['0'] else '-' :: Nat.toDigits 10 n) := by
  rw [← String.ofList_toList (s := toString (-(n : ℤ))), toList_toString, Int.natAbs_neg,
    Int.natAbs_natCast]
  rcases Nat.eq_zero_or_pos n with rfl | hpos
  · rfl
  · rw [if_pos (by omega), if_neg hpos.ne', List.singleton_append]

end Decimal

/-! ### Literals as lines -/

namespace Arith

open Binary64 (Representable)

theorem line_literal (signs : List Sign) (digits : Digits) :
    line .empty (.operand (.operand (literal signs digits))) .empty =
      String.ofList (literal signs digits).chars := by
  simp [line, chars, Gap.empty]

theorem parseLine_literal (signs : List Sign) (digits : Digits) :
    Session.parseLine (String.ofList (literal signs digits).chars) =
      .ok [.expr (.number (number signs digits))] := by
  rw [← line_literal]
  exact parseLine_line _ _ _

theorem evalLine_literal (signs : List Sign) (digits : Digits)
    (h : Representable (literal signs digits).value) (env : Env) :
    Session.evalLine (String.ofList (literal signs digits).chars) env =
      .ok (toString (literal signs digits).value) env := by
  rw [← line_literal]
  apply evalLine_of_representable
  intro n hn
  rw [List.mem_singleton.mp hn]
  exact h

/-- The signs of the literal of an integer. -/
def signsOf (n : ℤ) : List Sign := if n < 0 then [⟨true, .empty⟩] else []

theorem ofList_chars_signsOf (n : ℤ) :
    String.ofList (literal (signsOf n) (.ofNat n.natAbs)).chars = toString n := by
  rw [← String.ofList_toList (s := toString n), Decimal.toList_toString, chars, signsOf]
  split <;> rfl

theorem value_signsOf (n : ℤ) : (literal (signsOf n) (.ofNat n.natAbs)).value = n := by
  have hdigits : Numeral.natOfDigits (Digits.ofNat n.natAbs).chars = n.natAbs :=
    Numeral.natOfDigits_toDigits _
  rw [value, hdigits, signsOf]
  split
  · simp only [List.foldr, Sign.apply, if_true]
    omega
  · simp only [List.foldr]
    omega

end Arith

namespace Session

open Binary64 (Representable)

theorem exists_parseLine_toString {n : ℤ} (h : Representable n) :
    ∃ w, parseLine (toString n) = .ok [.expr (.number w)] ∧ w.value? = some (n : ℚ) := by
  rw [← Arith.value_signsOf n] at h
  have hparse := Arith.parseLine_literal (Arith.signsOf n) (.ofNat n.natAbs)
  have hvalue := Arith.value?_number h
  rw [Arith.ofList_chars_signsOf] at hparse
  rw [Arith.value_signsOf] at hvalue
  exact ⟨_, hparse, hvalue⟩

theorem evalLine_toString {n : ℤ} (h : Representable n) (env : Env) :
    evalLine (toString n) env = .ok (toString n) env := by
  rw [← Arith.value_signsOf n] at h
  have heval := Arith.evalLine_literal _ _ h env
  rw [Arith.ofList_chars_signsOf, Arith.value_signsOf] at heval
  exact heval

variable {d : Digits}

/-- Digits as a line. -/
theorem evalLine_digits (h : Representable (Numeral.natOfDigits d.chars)) (env : Env) :
    evalLine (String.ofList d.chars) env =
      .ok (String.ofList (Numeral.significant d.chars)) env := by
  rw [← Int.cast_natCast] at h
  have heval := Arith.evalLine_literal [] d h env
  have htext : toString (Arith.literal [] d).value =
      String.ofList (Numeral.significant d.chars) := by
    rw [← Numeral.toDigits_eq_significant d.isDigit]
    exact Decimal.toString_natCast _
  rw [htext] at heval
  exact heval

/-- A minus and digits as a line. -/
theorem evalLine_minus_digits (h : Representable (Numeral.natOfDigits d.chars)) (env : Env) :
    evalLine (String.ofList ('-' :: d.chars)) env =
      .ok (String.ofList (if Numeral.natOfDigits d.chars = 0 then ['0']
        else '-' :: Numeral.significant d.chars)) env := by
  have hneg := h.neg
  rw [← Int.cast_natCast, ← Int.cast_neg] at hneg
  have heval := Arith.evalLine_literal [⟨true, .empty⟩] d hneg env
  have htext : toString (Arith.literal [⟨true, .empty⟩] d).value =
      String.ofList (if Numeral.natOfDigits d.chars = 0 then ['0']
        else '-' :: Numeral.significant d.chars) := by
    rw [← Numeral.toDigits_eq_significant d.isDigit]
    exact Decimal.toString_neg_natCast _
  rw [htext] at heval
  exact heval

/-- **Integers survive writing and reading.**  The text of an integer is read as a number that
    equals it, and as a line it gives itself.  Digits whose value is a number give the digits that
    count, behind a minus if one stands there and the value is not zero. -/
theorem evalLine_integer {v : Binary64} (hv : v.isIntegral)
    (hd : Representable (Numeral.natOfDigits d.chars)) (env : Env) :
    (∃ w, parseLine v.render = .ok [.expr (.number w)] ∧ w.eqv v) ∧
      evalLine v.render env = .ok v.render env ∧
      evalLine (String.ofList d.chars) env =
        .ok (String.ofList (Numeral.significant d.chars)) env ∧
      evalLine (String.ofList ('-' :: d.chars)) env =
        .ok (String.ofList (if Numeral.natOfDigits d.chars = 0 then ['0']
          else '-' :: Numeral.significant d.chars)) env := by
  obtain ⟨n, hn⟩ := Binary64.isIntegral_iff.mp hv
  rw [Binary64.render_of_value?_int hn]
  refine ⟨?_, evalLine_toString ⟨v, hn⟩ env, evalLine_digits hd env, evalLine_minus_digits hd env⟩
  obtain ⟨w, hparse, hw⟩ := exists_parseLine_toString ⟨v, hn⟩
  exact ⟨w, hparse, (Binary64.eqv_iff hw hn).mpr rfl⟩

/-- An integer beyond `2^53`, negative. -/
def negativeLarge : Binary64 := .finite true (10 ^ 22 * Binary64.unitsPerOne) (by decide +kernel)

/-- Digits of an integer beyond `2^53`, with zeros in front. -/
def zerosInFront : Digits :=
  ⟨"009007199254740994".toList, by decide, List.all_eq_true.mp rfl⟩

/-- Beyond `2^53`, where not all integers are numbers. -/
theorem evalLine_integer_large :
    negativeLarge.isIntegral ∧ Representable (Numeral.natOfDigits zerosInFront.chars) ∧
      (∃ w, parseLine "-10000000000000000000000" = .ok [.expr (.number w)] ∧
        w.eqv negativeLarge) ∧
      evalLine "-10000000000000000000000" .empty = .ok "-10000000000000000000000" .empty ∧
      evalLine "009007199254740994" .empty = .ok "9007199254740994" .empty ∧
      evalLine "-009007199254740994" .empty = .ok "-9007199254740994" .empty := by
  have hv : negativeLarge.isIntegral := by decide +kernel
  have hd : Representable (Numeral.natOfDigits zerosInFront.chars) := by
    rw [← Int.cast_natCast, Binary64.representable_int_iff]
    decide +kernel
  have hrender : negativeLarge.render = "-10000000000000000000000" := by decide +kernel
  have hlines := evalLine_integer hv hd .empty
  rw [hrender] at hlines
  exact ⟨hv, hd, hlines⟩

end Session

end LineCalc
