/-
  LineCalc/Proofs/QuotedText.lean
  ===============================
  **A quoted text ends at its quote.**  Each character is written between quotes in a way
  that shows where it ends, whatever follows: as itself, as a backslash and a letter of
  its own, or as a code point that a brace closes.  No character is written with a quote
  in front, so the first one that stands where a character could start is the closing one.
-/
import LineCalc.Text.Quoted
import Mathlib.Data.List.Basic

namespace LineCalc

/-- What is written can be told from whatever follows it. -/
def PrefixFree {α : Type} (write : α → List Char) : Prop :=
  ∀ ⦃a b : α⦄ ⦃xs ys : List Char⦄, write a ++ xs = write b ++ ys → a = b ∧ xs = ys

/-- A text ends at the first mark if it has none of its own. -/
theorem until_inj {mark : Char} {as bs xs ys : List Char} (ha : mark ∉ as) (hb : mark ∉ bs)
    (h : as ++ mark :: xs = bs ++ mark :: ys) : as = bs ∧ xs = ys := by
  induction as generalizing bs with
  | nil =>
    cases bs with
    | nil => exact ⟨rfl, (List.cons.inj h).2⟩
    | cons b bs => exact absurd (by simp [(List.cons.inj h).1]) hb
  | cons a as ih =>
    cases bs with
    | nil => exact absurd (by simp [(List.cons.inj h).1]) ha
    | cons b bs =>
      obtain ⟨rfl, htail⟩ := List.cons.inj h
      obtain ⟨rfl, rfl⟩ := ih (fun hmem => ha (List.mem_cons_of_mem _ hmem))
        (fun hmem => hb (List.mem_cons_of_mem _ hmem)) htail
      exact ⟨rfl, rfl⟩

namespace Text

/-! ### Code points -/

theorem digitChar_inj : ∀ m < 16, ∀ n < 16, m.digitChar = n.digitChar → m = n := by decide

theorem toDigits_sixteen_injective : Function.Injective (Nat.toDigits 16) := by
  intro m
  induction m using Nat.strongRecOn with
  | ind m ih =>
    intro n h
    have hne : ∀ k, Nat.toDigits 16 k ≠ [] := fun _ => Nat.toDigits_ne_nil
    -- the last digits are equal, and so is what stands before them
    rcases Nat.lt_or_ge m 16 with hm | hm <;> rcases Nat.lt_or_ge n 16 with hn | hn
    · rw [Nat.toDigits_of_lt_base hm, Nat.toDigits_of_lt_base hn] at h
      exact digitChar_inj m hm n hn (List.cons.inj h).1
    · rw [Nat.toDigits_of_lt_base hm, Nat.toDigits_of_base_le (by decide) hn,
        ← List.nil_append [m.digitChar]] at h
      exact absurd (List.append_inj' h rfl).1.symm (hne _)
    · rw [Nat.toDigits_of_base_le (by decide) hm, Nat.toDigits_of_lt_base hn,
        ← List.nil_append [n.digitChar]] at h
      exact absurd (List.append_inj' h rfl).1 (hne _)
    · rw [Nat.toDigits_of_base_le (by decide) hm, Nat.toDigits_of_base_le (by decide) hn] at h
      obtain ⟨hfront, hlast⟩ := List.append_inj' h rfl
      have hdiv : m / 16 = n / 16 := ih (m / 16) (by omega) hfront
      have hmod : m % 16 = n % 16 := digitChar_inj _ (Nat.mod_lt m (by decide)) _
        (Nat.mod_lt n (by decide)) (List.cons.inj hlast).1
      omega

theorem brace_not_mem_toDigits (n : Nat) : '\x7d' ∉ Nat.toDigits 16 n := by
  have hdigit : ∀ d : Nat, '\x7d' ≠ d.digitChar := fun d => (Nat.digitChar_ne _ (by decide)).symm
  induction n using Nat.strongRecOn with
  | ind n ih =>
    rw [Nat.toDigits_eq_if (by decide)]
    split
    · rw [List.mem_singleton]
      exact hdigit n
    · rw [List.mem_append, List.mem_singleton, not_or]
      exact ⟨ih (n / 16) (by omega), hdigit (n % 16)⟩

theorem prefixFree_codePointEscape : PrefixFree codePointEscape := by
  intro c d xs ys h
  simp only [codePointEscape, List.cons_append, List.append_assoc, List.cons.injEq, true_and,
    List.nil_append] at h
  obtain ⟨hdigits, hrest⟩ := until_inj (brace_not_mem_toDigits _) (brace_not_mem_toDigits _) h
  exact ⟨Char.toNat_inj.mp (toDigits_sixteen_injective hdigits), hrest⟩

/-! ### Characters -/

/-- The characters with an escape of their own, and the letter that stands for each. -/
def namedEscapes : List (Char × Char) :=
  [('\x00', '0'), ('\t', 't'), ('\r', 'r'), ('\n', 'n'), ('\\', '\\'), ('"', '"')]

/-- The three ways to write a character. -/
inductive Escaped (c : Char) : Prop where
  | named (letter : Char) (hmem : (c, letter) ∈ namedEscapes) (h : escape c = ['\\', letter])
  | codePoint (h : escape c = codePointEscape c)
  | plain (hbackslash : c ≠ '\\') (hquote : c ≠ '"') (h : escape c = [c])

theorem escaped (c : Char) : Escaped c := by
  by_cases hnamed : ∃ letter, (c, letter) ∈ namedEscapes
  · obtain ⟨letter, hmem⟩ := hnamed
    refine .named letter hmem ?_
    simp only [namedEscapes, List.mem_cons, Prod.mk.injEq, List.not_mem_nil, or_false] at hmem
    rcases hmem with h | h | h | h | h | h <;> (obtain ⟨rfl, rfl⟩ := h; rfl)
  · simp only [namedEscapes, List.mem_cons, Prod.mk.injEq, List.not_mem_nil, or_false,
      exists_or, exists_and_left, exists_eq, and_true, not_or] at hnamed
    obtain ⟨hnul, htab, hreturn, hfeed, hbackslash, hquote⟩ := hnamed
    have hescape : escape c = if isObscure c then codePointEscape c else [c] := by
      simp only [escape, hnul, htab, hreturn, hfeed, hbackslash, hquote, if_false]
    by_cases hobscure : isObscure c
    · exact .codePoint (by rw [hescape, if_pos hobscure])
    · exact .plain hbackslash hquote (by rw [hescape, if_neg hobscure])

/-- The letter of an escape tells the character, and is not the one of code points. -/
theorem namedEscapes_inj {c d letter : Char} (hc : (c, letter) ∈ namedEscapes)
    (hd : (d, letter) ∈ namedEscapes) : c = d := by
  have hinj : ∀ a ∈ namedEscapes, ∀ b ∈ namedEscapes, a.2 = b.2 → a = b := by decide
  exact congrArg Prod.fst (hinj _ hc _ hd rfl)

theorem ne_u_of_mem_namedEscapes {c letter : Char} (h : (c, letter) ∈ namedEscapes) :
    letter ≠ 'u' := by
  have hne : ∀ a ∈ namedEscapes, a.2 ≠ 'u' := by decide
  exact hne _ h

theorem prefixFree_escape : PrefixFree escape := by
  intro c d xs ys h
  -- the first two characters tell the three ways apart
  cases escaped c with
  | named letter hletter hc =>
    cases escaped d with
    | named letter' hletter' hd =>
      obtain ⟨rfl, rfl⟩ : letter = letter' ∧ xs = ys := by simpa [hc, hd] using h
      exact ⟨namedEscapes_inj hletter hletter', rfl⟩
    | codePoint hd => simp [hc, hd, codePointEscape, ne_u_of_mem_namedEscapes hletter] at h
    | plain hbackslash _ hd => simp [hc, hd, hbackslash.symm] at h
  | codePoint hc =>
    cases escaped d with
    | named letter hletter hd =>
      simp [hc, hd, codePointEscape, (ne_u_of_mem_namedEscapes hletter).symm] at h
    | codePoint hd =>
      rw [hc, hd] at h
      exact prefixFree_codePointEscape h
    | plain hbackslash _ hd => simp [hc, hd, codePointEscape, hbackslash.symm] at h
  | plain hbackslash _ hc =>
    cases escaped d with
    | named letter _ hd => simp [hc, hd, hbackslash] at h
    | codePoint hd => simp [hc, hd, codePointEscape, hbackslash] at h
    | plain _ _ hd => simpa [hc, hd] using h

/-! ### Texts -/

/-- No character is written with a quote in front. -/
theorem head?_escape_ne_quote (c : Char) (cs : List Char) : (escape c ++ cs).head? ≠ some '"' := by
  cases escaped c with
  | named letter _ hc => simp [hc]
  | codePoint hc => simp [hc, codePointEscape]
  | plain _ hquote hc => simpa [hc] using hquote

theorem flatMap_escape_inj {s t xs ys : List Char}
    (h : s.flatMap escape ++ '"' :: xs = t.flatMap escape ++ '"' :: ys) : s = t ∧ xs = ys := by
  induction s generalizing t with
  | nil =>
    cases t with
    | nil => simpa using h
    | cons d t =>
      rw [List.flatMap_cons, List.append_assoc] at h
      exact absurd (congrArg List.head? h).symm (head?_escape_ne_quote d _)
  | cons c s ih =>
    cases t with
    | nil =>
      rw [List.flatMap_cons, List.append_assoc] at h
      exact absurd (congrArg List.head? h) (head?_escape_ne_quote c _)
    | cons d t =>
      rw [List.flatMap_cons, List.append_assoc, List.flatMap_cons, List.append_assoc] at h
      obtain ⟨rfl, hrest⟩ := prefixFree_escape h
      obtain ⟨rfl, rfl⟩ := ih hrest
      exact ⟨rfl, rfl⟩

/-- **A quoted text ends at its quote.** -/
theorem prefixFree_quote : PrefixFree fun text => (quote text).toList := by
  intro s t xs ys h
  simp only [quote, String.toList_ofList, List.cons_append, List.append_assoc, List.cons.injEq,
    true_and, List.nil_append] at h
  obtain ⟨htext, hrest⟩ := flatMap_escape_inj h
  exact ⟨String.toList_injective htext, hrest⟩

end Text

end LineCalc
