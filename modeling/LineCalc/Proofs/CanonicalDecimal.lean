/-
  LineCalc/Proofs/CanonicalDecimal.lean
  =====================================
  **Decimals that can be written in one way only.**  A `Canonical` decimal has no
  needless zero, neither in front of its whole part nor at the end of its
  fraction, and no point that nothing follows.  `Denotes text r` says that a text
  is such a decimal and stands for the rational `r`.

  `Decimal.plainChars` writes a sign and a number of steps of the sixteenth place.
  Every canonical decimal but `-0` is what it writes (`Canonical.chars_eq`), and
  all that it writes is canonical (`exists_canonical`).  So the text of a number
  and the number of a text determine each other (`denotes_iff`,
  `plainChars_eq_iff`).
-/
import LineCalc.Decimal.Numeral
import LineCalc.Decimal.Plain
import Mathlib.Data.List.Induction
import Mathlib.Data.Rat.Cast.Order
import Mathlib.Tactic.FieldSimp
import Mathlib.Tactic.Positivity

namespace LineCalc

namespace Numeral

/-! ### Digits and their value -/

theorem natOfDigits_append (cs ds : List Char) :
    natOfDigits (cs ++ ds) = natOfDigits cs * 10 ^ ds.length + natOfDigits ds := by
  unfold natOfDigits
  rw [Nat.ofDigitChars_append, Nat.ofDigitChars_eq_ofDigitChars_zero, Nat.mul_comm]

theorem natOfDigits_zeros (k : Nat) : natOfDigits (List.replicate k '0') = 0 := by
  rw [natOfDigits, Nat.ofDigitChars_replicate_zero, Nat.mul_zero]

theorem natOfDigits_toDigits (n : Nat) : natOfDigits (Nat.toDigits 10 n) = n :=
  Nat.ofDigitChars_ten_toDigits

theorem natOfDigits_zero_cons (cs : List Char) : natOfDigits ('0' :: cs) = natOfDigits cs := by
  rw [← List.singleton_append, natOfDigits_append, show natOfDigits ['0'] = 0 from rfl,
    Nat.zero_mul, Nat.zero_add]

theorem exists_digitChar {c : Char} (hc : c.isDigit) : ∃ d < 10, c = d.digitChar := by
  obtain ⟨hlow, hhigh⟩ : 48 ≤ c.toNat ∧ c.toNat ≤ 57 := by
    simpa [Char.isDigit, UInt32.le_iff_toNat_le] using hc
  refine ⟨c.toNat - 48, by omega, ?_⟩
  have hnat : (c.toNat - 48).digitChar.toNat = c.toNat := by
    rw [Nat.toNat_digitChar_of_lt_ten (by omega)]
    omega
  exact (Char.toNat_inj.mp hnat).symm

theorem natOfDigits_digitChar {d : Nat} (hd : d < 10) : natOfDigits [d.digitChar] = d := by
  rw [natOfDigits, Nat.ofDigitChars_cons_digitChar_of_lt_ten hd, Nat.ofDigitChars_nil]
  omega

theorem natOfDigits_lt {cs : List Char} (h : ∀ c ∈ cs, c.isDigit) :
    natOfDigits cs < 10 ^ cs.length := by
  induction cs with
  | nil => exact Nat.one_pos
  | cons c cs ih =>
    obtain ⟨hc, hcs⟩ := List.forall_mem_cons.mp h
    obtain ⟨d, hd, rfl⟩ := exists_digitChar hc
    have hrest := ih hcs
    have hcarry : (d + 1) * 10 ^ cs.length ≤ 10 * 10 ^ cs.length := Nat.mul_le_mul_right _ hd
    rw [← List.singleton_append, natOfDigits_append, natOfDigits_digitChar hd,
      List.singleton_append, List.length_cons, Nat.pow_succ]
    rw [Nat.add_mul] at hcarry
    omega

/-- Digits without a needless zero in front are those of their value. -/
theorem toDigits_natOfDigits {cs : List Char} (hne : cs ≠ []) (hcs : ∀ c ∈ cs, c.isDigit)
    (hzero : cs.head? = some '0' → cs = ['0']) : Nat.toDigits 10 (natOfDigits cs) = cs := by
  induction cs using List.reverseRecOn with
  | nil => exact absurd rfl hne
  | append_singleton cs c ih =>
    obtain ⟨d, hd, rfl⟩ := exists_digitChar (hcs c (by simp))
    by_cases hnil : cs = []
    · subst hnil
      rw [List.nil_append, natOfDigits_digitChar hd, Nat.toDigits_of_lt_base hd]
    · have hhead : cs.head? ≠ some '0' := by
        intro hcs0
        have heq := hzero (by rw [List.head?_append_of_ne_nil _ hnil, hcs0])
        simpa [hnil] using congrArg List.length heq
      have hfront := ih hnil (fun c hc => hcs c (List.mem_append_left _ hc)) fun h => absurd h hhead
      -- the digits in front are not all zero, so the last one goes behind them
      have hpos : 0 < natOfDigits cs := by
        apply Nat.pos_of_ne_zero
        intro hnat
        apply hhead
        rw [← hfront, hnat]
        rfl
      rw [natOfDigits_append, natOfDigits_digitChar hd, List.length_singleton, Nat.pow_one,
        Nat.mul_comm, ← Nat.toDigits_append_toDigits (by decide) hpos hd, hfront,
        Nat.toDigits_of_lt_base hd]

/-- Only zero is written with a zero in front. -/
theorem eq_zero_of_head?_toDigits {n : Nat} (h : (Nat.toDigits 10 n).head? = some '0') :
    n = 0 := by
  induction n using Nat.strongRecOn with
  | ind n ih =>
    rw [Nat.toDigits_eq_if (by decide)] at h
    split at h
    · simpa using h
    · next hn =>
      rw [List.head?_append_of_ne_nil _ Nat.toDigits_ne_nil] at h
      have hzero := ih (n / 10) (by omega) h
      omega

end Numeral

namespace Decimal

open Numeral

/-! ### Zeros in front of and behind digits -/

/-- Digits are those of their value, with zeros in front. -/
theorem padded_natOfDigits {cs : List Char} (hne : cs ≠ []) (hcs : ∀ c ∈ cs, c.isDigit) :
    padded cs.length (natOfDigits cs) = cs := by
  induction cs with
  | nil => exact absurd rfl hne
  | cons c cs ih =>
    by_cases hc : c = '0'
    · subst hc
      by_cases hnil : cs = []
      · subst hnil
        rfl
      · have hdigits : ∀ c ∈ cs, c.isDigit := fun c h => hcs c (List.mem_cons_of_mem _ h)
        have hrest := ih hnil hdigits
        have hlen : (Nat.toDigits 10 (natOfDigits cs)).length ≤ cs.length :=
          (Nat.length_toDigits_le_iff (by decide) (List.length_pos_of_ne_nil hnil)).mpr
            (natOfDigits_lt hdigits)
        unfold padded List.leftpad at hrest ⊢
        rw [natOfDigits_zero_cons, List.length_cons, Nat.succ_sub hlen, List.replicate_succ,
          List.cons_append, hrest]
    · have hdigits := toDigits_natOfDigits hne hcs (by simpa using fun h => absurd h hc)
      rw [padded, hdigits, List.leftpad, Nat.sub_self, List.replicate_zero, List.nil_append]

theorem natOfDigits_padded (width n : Nat) : natOfDigits (padded width n) = n := by
  rw [padded, List.leftpad, natOfDigits_append, natOfDigits_zeros, natOfDigits_toDigits,
    Nat.zero_mul, Nat.zero_add]

theorem length_padded {width n : Nat} (hwidth : 0 < width) (hn : n < 10 ^ width) :
    (padded width n).length = width := by
  rw [padded, List.length_leftpad,
    Nat.max_eq_left ((Nat.length_toDigits_le_iff (by decide) hwidth).mpr hn)]

theorem isDigit_of_mem_padded {width n : Nat} {c : Char} (hc : c ∈ padded width n) :
    c.isDigit := by
  rcases List.mem_append.mp hc with hc | hc
  · rw [List.eq_of_mem_replicate hc]
    rfl
  · exact Nat.isDigit_of_mem_toDigits (by decide) (by decide) hc

theorem trimEnd_concat (c : Char) (ds : List Char) (d : Char) :
    trimEnd c (ds ++ [d]) = if d = c then trimEnd c ds else ds ++ [d] := by
  by_cases hd : d = c <;> simp [trimEnd, hd]

theorem exists_trimEnd_append (c : Char) (ds : List Char) :
    ∃ k, trimEnd c ds ++ List.replicate k c = ds := by
  induction ds using List.reverseRecOn with
  | nil => exact ⟨0, rfl⟩
  | append_singleton ds d ih =>
    rw [trimEnd_concat]
    split
    · next hd =>
      obtain ⟨k, hk⟩ := ih
      exact ⟨k + 1, by rw [List.replicate_succ', ← List.append_assoc, hk, hd]⟩
    · exact ⟨0, List.append_nil _⟩

theorem getLast?_trimEnd (c : Char) (ds : List Char) : (trimEnd c ds).getLast? ≠ some c := by
  induction ds using List.reverseRecOn with
  | nil => simp [trimEnd]
  | append_singleton ds d ih =>
    rw [trimEnd_concat]
    split
    · exact ih
    · next hd => simpa using hd

/-- Where the character does not stand at the end there is nothing to cut off. -/
theorem trimEnd_of_getLast? {c : Char} {ds : List Char} (h : ds.getLast? ≠ some c) :
    trimEnd c ds = ds := by
  induction ds using List.reverseRecOn with
  | nil => rfl
  | append_singleton ds d _ => rw [trimEnd_concat, if_neg (by simpa using h)]

theorem trimEnd_append_replicate {c : Char} {ds : List Char} (h : ds.getLast? ≠ some c) (k : Nat) :
    trimEnd c (ds ++ List.replicate k c) = ds := by
  induction k with
  | zero => rw [List.replicate_zero, List.append_nil, trimEnd_of_getLast? h]
  | succ k ih => rw [List.replicate_succ', ← List.append_assoc, trimEnd_concat, if_pos rfl, ih]

/-- Cutting goes no further than to another character. -/
theorem trimEnd_append_cons {c d : Char} (h : d ≠ c) (cs ds : List Char) :
    trimEnd c (cs ++ d :: ds) = cs ++ d :: trimEnd c ds := by
  induction ds using List.reverseRecOn with
  | nil => rw [trimEnd_concat, if_neg h]; rfl
  | append_singleton ds e ih =>
    rw [← List.cons_append, ← List.append_assoc, trimEnd_concat, trimEnd_concat, ih]
    split
    · rfl
    · rw [List.append_assoc, List.cons_append]

/-! ### Canonical decimals -/

/-- The point and the digits behind it; without digits there is no point. -/
def pointed (fraction : List Char) : List Char :=
  if fraction = [] then [] else '.' :: fraction

/-- A decimal without needless characters: a minus or none, digits with no zero in front
    unless it is the only one, at most sixteen digits behind the point, the last not zero. -/
structure Canonical where
  negative : Bool
  whole : List Char
  fraction : List Char
  whole_ne_nil : whole ≠ []
  whole_digits : ∀ c ∈ whole, c.isDigit
  no_zero_in_front : whole.head? = some '0' → whole = ['0']
  fraction_digits : ∀ c ∈ fraction, c.isDigit
  length_fraction_le : fraction.length ≤ 16
  no_zero_behind : fraction.getLast? ≠ some '0'

namespace Canonical

/-- How the decimal is written. -/
def chars (c : Canonical) : List Char :=
  (if c.negative then ['-'] else []) ++ c.whole ++ pointed c.fraction

/-- The number that the decimal stands for. -/
def value (c : Canonical) : ℚ :=
  Binary64.signed c.negative (natOfDigits (c.whole ++ c.fraction)) / 10 ^ c.fraction.length

end Canonical

/-- The text is a canonical decimal and stands for this number. -/
def Denotes (text : String) (r : ℚ) : Prop :=
  ∃ c : Canonical, text = String.ofList c.chars ∧ c.value = r

/-! ### A text stands for one number -/

theorem pointed_injective : Function.Injective pointed := by
  intro a b h
  cases a <;> cases b <;> simp_all [pointed]

namespace Canonical

theorem head?_chars (c : Canonical) : c.chars.head? = some '-' ↔ c.negative := by
  obtain ⟨d, cs, hwhole⟩ := List.exists_cons_of_ne_nil c.whole_ne_nil
  have hd : d.isDigit := c.whole_digits d (by simp [hwhole])
  have hminus : d ≠ '-' := by
    rintro rfl
    simp at hd
  cases hneg : c.negative <;> simp [chars, hneg, hwhole, hminus]

theorem takeWhile_isDigit (c : Canonical) :
    (c.whole ++ pointed c.fraction).takeWhile Char.isDigit = c.whole := by
  rw [List.takeWhile_append_of_pos c.whole_digits]
  unfold pointed
  split <;> simp

/-- The parts of a decimal can be told from its text. -/
theorem parts_of_chars {a b : Canonical} (h : a.chars = b.chars) :
    a.negative = b.negative ∧ a.whole = b.whole ∧ a.fraction = b.fraction := by
  have hneg : a.negative = b.negative := by
    rw [Bool.eq_iff_iff, ← head?_chars, ← head?_chars, h]
  have hrest : a.whole ++ pointed a.fraction = b.whole ++ pointed b.fraction := by
    unfold chars at h
    rw [hneg, List.append_assoc, List.append_assoc] at h
    exact List.append_cancel_left h
  have hwhole : a.whole = b.whole := by
    rw [← a.takeWhile_isDigit, hrest, b.takeWhile_isDigit]
  rw [hwhole] at hrest
  exact ⟨hneg, hwhole, pointed_injective (List.append_cancel_left hrest)⟩

end Canonical

theorem Denotes.unique {text : String} {r s : ℚ} (hr : Denotes text r) (hs : Denotes text s) :
    r = s := by
  obtain ⟨a, rfl, rfl⟩ := hr
  obtain ⟨b, hchars, rfl⟩ := hs
  obtain ⟨hneg, hwhole, hfraction⟩ := Canonical.parts_of_chars (String.ofList_injective hchars)
  rw [Canonical.value, hneg, hwhole, hfraction, Canonical.value]

/-! ### Decimals in steps of the sixteenth place -/

theorem stepsPerOne_eq : stepsPerOne places = 10 ^ 16 := rfl

theorem signed_mul (negative : Bool) (m n : Nat) :
    Binary64.signed negative (m * n) = Binary64.signed negative m * n := by
  cases negative <;> simp [Binary64.signed]

namespace Canonical

/-- The digits behind the point, filled up to sixteen. -/
def filled (c : Canonical) : List Char :=
  c.fraction ++ List.replicate (16 - c.fraction.length) '0'

/-- The magnitude in steps of the sixteenth place. -/
def steps (c : Canonical) : Nat := natOfDigits (c.whole ++ c.filled)

theorem length_filled (c : Canonical) : c.filled.length = 16 := by
  have hle := c.length_fraction_le
  rw [filled, List.length_append, List.length_replicate]
  omega

theorem isDigit_of_mem_filled (c : Canonical) : ∀ d ∈ c.filled, d.isDigit := by
  intro d hd
  rcases List.mem_append.mp hd with hd | hd
  · exact c.fraction_digits d hd
  · rw [List.eq_of_mem_replicate hd]
    rfl

theorem natOfDigits_filled_lt (c : Canonical) : natOfDigits c.filled < stepsPerOne places := by
  have hlt := natOfDigits_lt c.isDigit_of_mem_filled
  rwa [c.length_filled] at hlt

theorem steps_eq (c : Canonical) :
    c.steps = stepsPerOne places * natOfDigits c.whole + natOfDigits c.filled := by
  rw [steps, natOfDigits_append, c.length_filled, stepsPerOne_eq, Nat.mul_comm]

theorem value_eq (c : Canonical) : c.value = Binary64.signed c.negative c.steps / 10 ^ 16 := by
  have hsteps : c.steps =
      natOfDigits (c.whole ++ c.fraction) * 10 ^ (16 - c.fraction.length) := by
    rw [steps, filled, ← List.append_assoc, natOfDigits_append, natOfDigits_zeros,
      List.length_replicate, Nat.add_zero]
  have hpow : (10 : ℚ) ^ 16 = 10 ^ c.fraction.length * 10 ^ (16 - c.fraction.length) := by
    rw [← pow_add, Nat.add_sub_cancel' c.length_fraction_le]
  have hne : (10 : ℚ) ^ (16 - c.fraction.length) ≠ 0 := by positivity
  rw [value, hsteps, signed_mul, hpow]
  push_cast
  rw [mul_div_mul_right _ _ hne]

theorem toDigits_steps_div (c : Canonical) :
    Nat.toDigits 10 (c.steps / stepsPerOne places) = c.whole := by
  rw [c.steps_eq, Nat.mul_add_div (by decide), Nat.div_eq_of_lt c.natOfDigits_filled_lt,
    Nat.add_zero]
  exact toDigits_natOfDigits c.whole_ne_nil c.whole_digits c.no_zero_in_front

theorem trimEnd_steps_mod (c : Canonical) :
    trimEnd '0' (padded places (c.steps % stepsPerOne places)) = c.fraction := by
  have hne : c.filled ≠ [] := List.ne_nil_of_length_pos (by rw [c.length_filled]; decide)
  have hpadded := padded_natOfDigits hne c.isDigit_of_mem_filled
  rw [c.length_filled] at hpadded
  rw [c.steps_eq, Nat.mul_add_mod, Nat.mod_eq_of_lt c.natOfDigits_filled_lt, places, hpadded,
    filled, trimEnd_append_replicate c.no_zero_behind]

/-- Only `0` and `-0` stand for nothing. -/
theorem parts_of_steps_eq_zero {c : Canonical} (h : c.steps = 0) :
    c.whole = ['0'] ∧ c.fraction = [] := by
  have hwhole := c.toDigits_steps_div
  have hfraction := c.trimEnd_steps_mod
  rw [h] at hwhole hfraction
  exact ⟨hwhole.symm, hfraction.symm⟩

end Canonical

/-! ### What is written is canonical, and the other way round -/

/-- The decimal of `n` steps of the sixteenth place, with a sign that zero does not show. -/
def plainChars (negative : Bool) (n : Nat) : List Char :=
  (if negative && n != 0 then ['-'] else []) ++ Nat.toDigits 10 (n / stepsPerOne places) ++
    pointed (trimEnd '0' (padded places (n % stepsPerOne places)))

/-- A canonical decimal other than `-0` is written as its steps are. -/
theorem Canonical.chars_eq {c : Canonical} (h : c.chars ≠ ['-', '0']) :
    c.chars = plainChars c.negative c.steps := by
  have hsign : (c.negative && c.steps != 0) = c.negative := by
    by_contra hsign
    obtain ⟨hneg, hsteps⟩ : c.negative = true ∧ c.steps = 0 := by simpa using hsign
    obtain ⟨hwhole, hfraction⟩ := parts_of_steps_eq_zero hsteps
    exact h (by simp [chars, hneg, hwhole, hfraction, pointed])
  rw [plainChars, hsign, c.toDigits_steps_div, c.trimEnd_steps_mod, chars]

/-- Steps are written as a canonical decimal, with no sign on a zero. -/
theorem exists_canonical (negative : Bool) (n : Nat) :
    ∃ c : Canonical, c.negative = (negative && n != 0) ∧ c.steps = n ∧
      c.chars = plainChars negative n := by
  obtain ⟨k, hk⟩ := exists_trimEnd_append '0' (padded places (n % stepsPerOne places))
  have hlength : (padded places (n % stepsPerOne places)).length = 16 :=
    length_padded (by decide) (Nat.mod_lt _ (by decide))
  have hsum : (trimEnd '0' (padded places (n % stepsPerOne places))).length + k = 16 := by
    simpa [hlength] using congrArg List.length hk
  refine ⟨{
    negative := negative && n != 0
    whole := Nat.toDigits 10 (n / stepsPerOne places)
    fraction := trimEnd '0' (padded places (n % stepsPerOne places))
    whole_ne_nil := Nat.toDigits_ne_nil
    whole_digits := fun c hc => Nat.isDigit_of_mem_toDigits (by decide) (by decide) hc
    no_zero_in_front := ?_
    fraction_digits := ?_
    length_fraction_le := by omega
    no_zero_behind := getLast?_trimEnd '0' _ }, rfl, ?_, ?_⟩
  · intro hzero
    rw [eq_zero_of_head?_toDigits hzero]
    rfl
  · intro c hc
    have hpadded : c ∈ padded places (n % stepsPerOne places) := by
      rw [← hk]
      exact List.mem_append_left _ hc
    exact isDigit_of_mem_padded hpadded
  · have hfill : 16 - (trimEnd '0' (padded places (n % stepsPerOne places))).length = k := by omega
    rw [Canonical.steps, Canonical.filled]
    simp only [hfill, hk]
    rw [natOfDigits_append, hlength, natOfDigits_toDigits, natOfDigits_padded, ← stepsPerOne_eq,
      Nat.div_add_mod']
  · rw [Canonical.chars, plainChars]

theorem signed_and_ne_zero (negative : Bool) (n : Nat) :
    Binary64.signed (negative && n != 0) n = Binary64.signed negative n := by
  cases negative <;> cases n <;> simp [Binary64.signed]

theorem denotes_plainChars (negative : Bool) (n : Nat) :
    Denotes (String.ofList (plainChars negative n)) (Binary64.signed negative n / 10 ^ 16) := by
  obtain ⟨c, hneg, hsteps, hchars⟩ := exists_canonical negative n
  refine ⟨c, by rw [hchars], ?_⟩
  rw [c.value_eq, hneg, hsteps, signed_and_ne_zero]

/-- The one canonical decimal that is never written. -/
def Canonical.negativeZero : Canonical where
  negative := true
  whole := ['0']
  fraction := []
  whole_ne_nil := by decide
  whole_digits := List.forall_mem_singleton.mpr rfl
  no_zero_in_front _ := rfl
  fraction_digits := by simp
  length_fraction_le := by decide
  no_zero_behind := by decide

/-- Zero is written without a sign. -/
theorem plainChars_ne_negativeZero (negative : Bool) (n : Nat) :
    plainChars negative n ≠ Canonical.negativeZero.chars := by
  intro h
  obtain ⟨c, hneg, hsteps, hchars⟩ := exists_canonical negative n
  obtain ⟨hminus, hwhole, hfraction⟩ := Canonical.parts_of_chars (hchars.trans h)
  have hzero : n = 0 := by
    rw [← hsteps, Canonical.steps, Canonical.filled, hwhole, hfraction]
    rfl
  rw [hneg, hzero, bne_self_eq_false, Bool.and_false] at hminus
  cases hminus

/-- With a sign in front it is the text of the signed steps, unless the sign is that of a zero. -/
theorem signed_plainChars (negative : Bool) (n : Nat) :
    let text := String.ofList ((if negative then ['-'] else []) ++ plainChars false n)
    (if text = "-0" then "0" else text) = String.ofList (plainChars negative n) := by
  by_cases hsign : (negative && n != 0) = negative
  · have htext : (if negative then ['-'] else []) ++ plainChars false n =
        plainChars negative n := by
      rw [plainChars, plainChars, hsign]
      simp
    rw [htext]
    refine if_neg fun h => ?_
    exact plainChars_ne_negativeZero negative n (String.ofList_injective h)
  · obtain ⟨rfl, rfl⟩ : negative = true ∧ n = 0 := by simpa using hsign
    decide +kernel

/-- The text depends on the signed number of steps only. -/
theorem plainChars_congr {m n : Bool} {a b : Nat} (h : Binary64.signed m a = Binary64.signed n b) :
    plainChars m a = plainChars n b := by
  have habs : a = b := by
    have habs := congrArg Int.natAbs h
    cases m <;> cases n <;> simpa [Binary64.signed] using habs
  subst habs
  have hsign : (m && a != 0) = (n && a != 0) := by
    cases m <;> cases n <;> simp [Binary64.signed] at h ⊢ <;> omega
  rw [plainChars, plainChars, hsign]

/-- **One text for each number of steps.**  The text of a number of steps is the canonical
    decimal that stands for it, `-0` apart. -/
theorem denotes_iff {text : String} {negative : Bool} {n : Nat} :
    Denotes text (Binary64.signed negative n / 10 ^ 16) ∧ text ≠ "-0" ↔
      text = String.ofList (plainChars negative n) := by
  constructor
  · rintro ⟨⟨c, rfl, hvalue⟩, hne⟩
    have hchars : c.chars ≠ ['-', '0'] := by
      intro h
      exact hne (by rw [h])
    have hsigned : Binary64.signed c.negative c.steps = Binary64.signed negative n := by
      rw [c.value_eq] at hvalue
      exact_mod_cast (div_left_inj' (by norm_num)).mp hvalue
    rw [c.chars_eq hchars, plainChars_congr hsigned]
  · rintro rfl
    refine ⟨denotes_plainChars negative n, ?_⟩
    intro h
    exact plainChars_ne_negativeZero negative n (String.ofList_injective h)

theorem plainChars_eq_iff {m n : Bool} {a b : Nat} :
    plainChars m a = plainChars n b ↔ Binary64.signed m a = Binary64.signed n b := by
  constructor
  · intro h
    have ha := denotes_plainChars m a
    rw [h] at ha
    have hvalue := ha.unique (denotes_plainChars n b)
    exact_mod_cast (div_left_inj' (by norm_num)).mp hvalue
  · exact plainChars_congr

/-! ### Whole numbers -/

theorem toList_toString (n : ℤ) :
    (toString n).toList = (if n < 0 then ['-'] else []) ++ Nat.toDigits 10 n.natAbs := by
  cases n with
  | ofNat m =>
    have htext : toString (Int.ofNat m) = Nat.repr m := rfl
    rw [htext, Nat.toList_repr]
    rfl
  | negSucc m =>
    have htext : toString (Int.negSucc m) = "-" ++ Nat.repr (m + 1) := rfl
    rw [htext, String.toList_append, Nat.toList_repr, if_pos (Int.negSucc_lt_zero m)]
    rfl

/-- A whole number of ones is written without a point. -/
theorem plainChars_ones (negative : Bool) (k : Nat) :
    plainChars negative (k * stepsPerOne places) =
      (if negative && k != 0 then ['-'] else []) ++ Nat.toDigits 10 k := by
  have hpos : 0 < stepsPerOne places := by decide
  have hzero : (k * stepsPerOne places != 0) = (k != 0) := by
    rw [Bool.eq_iff_iff, bne_iff_ne, bne_iff_ne, Nat.mul_ne_zero_iff, and_iff_left hpos.ne']
  have hpoint : pointed (trimEnd '0' (padded places 0)) = [] := rfl
  rw [plainChars, hzero, Nat.mul_div_cancel _ hpos, Nat.mul_mod_left, hpoint, List.append_nil]

theorem plainChars_whole (n : ℤ) :
    String.ofList (plainChars (decide (n < 0)) (n.natAbs * stepsPerOne places)) = toString n := by
  have hsign : (decide (n < 0) && n.natAbs != 0) = decide (n < 0) := by
    by_cases hn : n < 0
    · have hne : n ≠ 0 := hn.ne
      simp [hn, hne]
    · simp [hn]
  rw [plainChars_ones, hsign, ← String.ofList_toList (s := toString n), toList_toString]
  simp only [decide_eq_true_eq]

/-! ### Decimals with sixteen places, cut -/

/-- Cutting off the zeros and then a point that nothing follows leaves the point and the places
    that are needed. -/
theorem trimEnd_point {cs ds : List Char} (hcs : cs.getLast? ≠ some '.')
    (hds : ∀ d ∈ ds, d.isDigit) :
    trimEnd '.' (trimEnd '0' (cs ++ '.' :: ds)) = cs ++ pointed (trimEnd '0' ds) := by
  rw [trimEnd_append_cons (by decide)]
  obtain ⟨k, hk⟩ := exists_trimEnd_append '0' ds
  generalize trimEnd '0' ds = digits at hk ⊢
  induction digits using List.reverseRecOn with
  | nil => rw [trimEnd_concat, if_pos rfl, trimEnd_of_getLast? hcs]; simp [pointed]
  | append_singleton digits d _ =>
    have hd : d.isDigit := hds d (by simp [← hk])
    have hpoint : d ≠ '.' := by
      rintro rfl
      cases hd
    rw [← List.cons_append, ← List.append_assoc, trimEnd_concat, if_neg hpoint]
    simp [pointed]

end Decimal

end LineCalc
