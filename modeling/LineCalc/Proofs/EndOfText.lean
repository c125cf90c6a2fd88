/-
  LineCalc/Proofs/EndOfText.lean
  ==============================
  **NUL is the end of a text.**  A NUL is met in three ways: as the character that a
  lexeme would start with, inside a string, and behind a `=` or a `!` that looks for
  another character.  Each time it is as if nothing followed, so that a text has the same
  tokens, or the same fault, whatever stands from its first NUL on (`read_append_nul` for
  one lexeme, `ofChars_append_nul` for all of them).
-/
import LineCalc.Proofs.Spelling
import LineCalc.Session

namespace LineCalc

namespace Token

theorem beforeNul_append_nul (cs ds : List Char) :
    beforeNul (cs ++ '\x00' :: ds) = beforeNul cs := by
  unfold beforeNul
  induction cs with
  | nil => rfl
  | cons c cs ih => simp only [List.cons_append, List.takeWhile_cons, ih]

theorem Delimited.append_nul {t : Token} {cs : List Char} (h : t.Delimited cs)
    (ds : List Char) : t.Delimited (cs ++ '\x00' :: ds) := by
  cases cs with
  | cons c cs => exact h
  | nil =>
    intro c hc
    obtain rfl : '\x00' = c := by simpa using hc
    exact t.continues_nul

end Token

namespace Lexeme

/-! ### Faults -/

/-- No token starts with this character, and it does not end the text. -/
structure StartsNothing (c : Char) : Prop where
  ne_nul : c ≠ '\x00'
  not_blank : isBlankStart c = false
  not_digit : c.isDigit = false
  not_alpha : c.isAlpha = false
  ne_quote : c ≠ '"'
  not_operator : isOperatorStart c = false

theorem read_of_startsNothing {c : Char} (h : StartsNothing c) (cs : List Char) :
    read (c :: cs) = .fault (.unexpectedChar c) cs := by
  simp [read, h.ne_nul, h.not_blank, h.not_digit, h.not_alpha, h.ne_quote, h.not_operator]

theorem read_of_unterminated {cs text : List Char} (h : collect [] 0 cs = .unterminated text) :
    read ('"' :: cs) = .fault (.unterminatedString (String.ofList text)) cs := by
  simp [read, isBlankStart, h]

/-- **A fault** is a character that starts nothing, or a quote that is not closed.  A character
    of the operator class is no fault: it always is an operator. -/
theorem read_eq_fault_iff {e : LexError} {cs rest : List Char} :
    read cs = .fault e rest ↔
      (∃ c, cs = c :: rest ∧ StartsNothing c ∧ e = .unexpectedChar c) ∨
        ∃ text, cs = '"' :: rest ∧ collect [] 0 rest = .unterminated text ∧
          e = .unterminatedString (String.ofList text) := by
  constructor
  · intro h
    cases cs with
    | nil => cases h
    | cons c cs =>
      simp only [read] at h
      split at h
      · cases h
      split at h
      · cases h
      split at h
      · cases h
      split at h
      · cases h
      next hnul hblank hdigit halpha =>
      split at h
      · next hquote =>
        split at h
        · cases h
        · next text heq =>
          cases h
          exact Or.inr ⟨text, by rw [hquote], heq, rfl⟩
      next hquote =>
      split at h
      · next hoperator =>
        obtain ⟨op, after, hread⟩ := exists_readOperator_eq_ok hoperator cs
        rw [hread] at h
        cases h
      · next hoperator =>
        cases h
        exact Or.inl ⟨c, rfl, ⟨hnul, by simpa using hblank, by simpa using hdigit,
          by simpa using halpha, hquote, by simpa using hoperator⟩, rfl⟩
  · rintro (⟨c, rfl, hc, rfl⟩ | ⟨text, rfl, htext, rfl⟩)
    · exact read_of_startsNothing hc rest
    · exact read_of_unterminated htext

/-! ### One lexeme before a NUL -/

/-- A string that is not closed before a NUL is not closed, and no more of it is read. -/
theorem collect_append_nul {collected cs text : List Char} {feeds : Nat}
    (h : collect collected feeds cs = .unterminated text) (ds : List Char) :
    collect collected feeds (cs ++ '\x00' :: ds) = .unterminated text := by
  fun_induction collect collected feeds cs with
  | case1 collected feeds => simpa [collect] using h
  | case2 collected feeds cs => simpa [collect] using h
  | case3 collected feeds cs hbackslash _ ih => simpa [collect, hbackslash] using ih h
  | case4 => cases h
  | case5 collected feeds cs _ _ ih => simpa [collect] using ih h
  | case6 collected feeds c cs hnul hquote hfeed ih =>
    simpa [collect, hnul, hquote, hfeed] using ih h

/-- The lexeme with more text behind it. -/
def followedBy (ds : List Char) : Lexeme → Lexeme
  | .endOfText => .endOfText
  | .token t feeds rest => .token t feeds (rest ++ ds)
  | .fault e rest => .fault e (rest ++ ds)

/-- **One lexeme before a NUL** is read as it is without the NUL. -/
theorem read_append_nul (cs ds : List Char) :
    read (cs ++ '\x00' :: ds) = (read cs).followedBy ('\x00' :: ds) := by
  cases hread : read cs with
  | endOfText =>
    rw [followedBy, read_eq_endOfText_iff, Token.beforeNul_append_nul]
    exact read_eq_endOfText_iff.mp hread
  | token t feeds rest =>
    obtain ⟨ht, rfl, hrest, hfeeds⟩ := read_eq_token_iff.mp hread
    exact read_eq_token_iff.mpr ⟨ht, List.append_assoc .., hrest.append_nul ds, hfeeds⟩
  | fault e rest =>
    rcases read_eq_fault_iff.mp hread with ⟨c, rfl, hc, rfl⟩ | ⟨text, rfl, htext, rfl⟩
    · exact read_of_startsNothing hc _
    · exact read_of_unterminated (collect_append_nul htext ds)

end Lexeme

/-! ### All tokens before a NUL -/

theorem Token.ofChars_append_nul (cs ds : List Char) :
    Token.ofChars (cs ++ '\x00' :: ds) = Token.ofChars cs := by
  have hread := Lexeme.read_append_nul
  fun_induction Token.ofChars cs with
  | case1 cs hend => exact ofChars_of_endOfText (by rw [hread, hend]; rfl)
  | case2 cs t feeds rest htoken ts hts ih =>
    rw [ofChars_of_token (by rw [hread, htoken]; rfl), ih, hts]
    rfl
  | case3 cs t feeds rest htoken error herror ih =>
    rw [ofChars_of_token (by rw [hread, htoken]; rfl), ih, herror]
    rfl
  | case4 cs error rest hfault => exact ofChars_of_fault (by rw [hread, hfault]; rfl)

/-- **NUL is the end of a text.**  Nothing counts from a NUL on: a text with a NUL has the tokens
    or the fault of the part before it, and as a line it is that part's program or error, and
    runs like it in any variables. -/
theorem Session.line_ends_at_nul (s t : String) :
    Token.ofText (s ++ "\x00" ++ t) = Token.ofText s ∧
      parseLine (s ++ "\x00" ++ t) = parseLine s ∧
      ∀ env, evalLine (s ++ "\x00" ++ t) env = evalLine s env := by
  have htext : Token.ofText (s ++ "\x00" ++ t) = Token.ofText s := by
    have hchars : (s ++ "\x00" ++ t).toList = s.toList ++ '\x00' :: t.toList := by simp
    rw [Token.ofText, hchars, Token.ofChars_append_nul]
    rfl
  have hparse : parseLine (s ++ "\x00" ++ t) = parseLine s := by
    rw [parseLine, tokenizeLine, htext]
    rfl
  refine ⟨htext, hparse, fun env => ?_⟩
  rw [evalLine, hparse]
  rfl

end LineCalc
