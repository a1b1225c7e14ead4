import DocStore.Proofs.Query.Lexing
import DocStore.Proofs.Text.Pattern

/-!
# Patterns of lexemes

The patterns of blanks, words, numbers, quotations, operators and punctuation, and that the readings of the lexer take what
the patterns of blanks, words and numbers prefer (`leaves_blank?`, `leaves_word?`, `leaves_number?`). A number is the hard
one: a fraction or a power of ten that is not complete is left to what follows, and no shorter way of matching a part of a
number can be continued (`prefers_numberAfter`).
-/

namespace DocStore.Query

open Text (Pattern)
open Text.Pattern

variable {cs rest : List Char} {c : Char} {v : Value}

/-! ## Patterns -/

/-- Whether a character marks a power of ten. -/
def isExponentMark (c : Char) : Bool := c == 'e' || c == 'E'

/-- Whether a character is a sign. -/
def isSign (c : Char) : Bool := c == '+' || c == '-'

/-- A run of blanks. -/
def blankPattern : Pattern := atLeastOnce (one Text.isBlank)

/-- A word. -/
def wordPattern : Pattern := seq (one isWordStart) (many (one isWordChar))

/-- A run of digits. -/
def digitsPattern : Pattern := atLeastOnce (one Char.isDigit)

/-- A point and digits. -/
def fractionPattern : Pattern := seq (char '.') digitsPattern

/-- A power of ten. -/
def exponentPattern : Pattern := seq (one isExponentMark) (seq (opt (one isSign)) digitsPattern)

/-- A number after its sign. -/
def unsignedPattern : Pattern := seq digitsPattern (seq (opt fractionPattern) (opt exponentPattern))

/-- A number. -/
def numberPattern : Pattern := seq (opt (char '-')) unsignedPattern

/-- What can stand between two quotes. -/
def quotationPattern (quote : Char) : Pattern :=
  many (alt (one fun c => c != quote && c != '\\') (seq (char '\\') (one (· != '\n'))))

/-- Two given characters. -/
def pair (c d : Char) : Pattern := seq (char c) (char d)

/-- An operator. -/
def operatorPattern : Pattern :=
  alt (pair '=' '=') (alt (pair '!' '=') (alt (pair '>' '=') (alt (pair '<' '=')
    (alt (char '>') (alt (char '<') (pair '&' '&'))))))

/-- A punctuation character. -/
def punctuationPattern : Pattern := one fun c => c == '.' || c == ','

/-! ## Blanks and words -/

/-- A reading of a character of one class and of the run of another class after it takes what its pattern prefers. -/
theorem leaves_of_cons {α : Type} {p q : Char → Bool} {reading : List Char → Option (α × List Char)}
    (hnil : reading [] = none)
    (hcons : ∀ c cs, (reading (c :: cs)).map (·.2) = if p c then some (cs.dropWhile q) else none) (cs : List Char) :
    (seq (one p) (many (one q))).Leaves cs ((reading cs).map (·.2)) := by
  cases cs with
  | nil =>
    rw [hnil]
    exact ends_seq_one_nil
  | cons c cs =>
    rw [hcons]
    exact leaves_seq_one_many p q c cs

theorem leaves_blank? (cs : List Char) : blankPattern.Leaves cs ((blank? cs).map (·.2)) := by
  refine leaves_of_cons rfl (fun c cs => ?_) cs
  rw [blank?]
  split <;> rfl

theorem leaves_word? (cs : List Char) : wordPattern.Leaves cs ((word? cs).map (·.2)) := by
  refine leaves_of_cons rfl (fun c cs => ?_) cs
  rw [word?]
  split <;> rfl

/-! ## Numbers -/

theorem ends_digitsPattern_eq_nil (h : c.isDigit = false) (cs : List Char) : digitsPattern.ends (c :: cs) = [] :=
  ends_seq_one_cons.trans (if_neg (Bool.eq_false_iff.mp h))

theorem ends_digitsPattern_cons (h : c.isDigit = true) (cs : List Char) :
    digitsPattern.ends (c :: cs) = (many (one Char.isDigit)).ends cs :=
  ends_seq_one_cons.trans (if_pos h)

theorem leaves_power? (sign : Int) (cs : List Char) : digitsPattern.Leaves cs ((power? sign cs).map (·.2)) := by
  refine leaves_of_cons rfl (fun c cs => ?_) cs
  rw [power?]
  split <;> rfl

theorem ends_signedDigits (c : Char) (cs : List Char) :
    (seq (opt (one isSign)) digitsPattern).ends (c :: cs) =
      if isSign c then digitsPattern.ends cs else digitsPattern.ends (c :: cs) := by
  refine ends_seq_opt_one_cons fun hc => ends_digitsPattern_eq_nil ?_ cs
  rw [isSign, Bool.or_eq_true, beq_iff_eq, beq_iff_eq] at hc
  rcases hc with rfl | rfl
  · rfl
  · rfl

theorem leaves_signedPower? (cs : List Char) :
    (seq (opt (one isSign)) digitsPattern).Leaves cs ((signedPower? cs).map (·.2)) := by
  cases cs with
  | nil => exact ends_seq_opt_one_nil
  | cons c cs =>
    by_cases hplus : c = '+'
    · subst hplus
      exact (leaves_power? 1 cs).of_ends_eq (ends_signedDigits '+' cs)
    · by_cases hminus : c = '-'
      · subst hminus
        exact (leaves_power? (-1) cs).of_ends_eq (ends_signedDigits '-' cs)
      · have hsign : isSign c = false := by
          rw [isSign, beq_false_of_ne hplus, beq_false_of_ne hminus]
          rfl
        rw [signedPower?_eq_power? hplus hminus]
        refine (leaves_power? 1 (c :: cs)).of_ends_eq ?_
        rw [ends_signedDigits, hsign, if_neg Bool.false_ne_true]

theorem exponentMark_iff : isExponentMark c = true ↔ c = 'e' ∨ c = 'E' := by
  rw [isExponentMark, Bool.or_eq_true, beq_iff_eq, beq_iff_eq]

theorem isExponentMark_of_isDigit (h : c.isDigit = true) : isExponentMark c = false := by
  refine Bool.eq_false_iff.mpr fun hmark => ?_
  rcases exponentMark_iff.mp hmark with rfl | rfl
  · cases h
  · cases h

/-- A power of ten starts with its mark. -/
theorem ends_exponentPattern_eq_nil (h : isExponentMark c = false) (cs : List Char) : exponentPattern.ends (c :: cs) = [] :=
  ends_seq_one_cons.trans (if_neg (Bool.eq_false_iff.mp h))

theorem leaves_exponent? (cs : List Char) : exponentPattern.Leaves cs ((exponent? cs).map (·.2)) := by
  cases cs with
  | nil => exact ends_seq_one_nil
  | cons c cs =>
    rw [exponent?]
    split
    · next hc => exact (leaves_signedPower? cs).of_ends_eq (ends_seq_one_cons.trans (if_pos (exponentMark_iff.mpr hc)))
    · next hc => exact ends_exponentPattern_eq_nil (Bool.eq_false_iff.mpr fun hmark => hc (exponentMark_iff.mp hmark)) cs

theorem ends_fractionPattern (c : Char) (cs : List Char) :
    fractionPattern.ends (c :: cs) = if c == '.' then digitsPattern.ends cs else [] := ends_seq_one_cons

theorem leaves_fraction? (cs : List Char) : fractionPattern.Leaves cs ((fraction? cs).map (·.2)) := by
  cases cs with
  | nil => exact ends_seq_one_nil
  | cons c cs =>
    by_cases hc : c = '.'
    · subst hc
      cases cs with
      | nil => exact ends_fractionPattern '.' []
      | cons d cs =>
        -- a digit after the point is read as the first digit of a power of ten is
        have hpower : (fraction? ('.' :: d :: cs)).map (·.2) = (power? 1 (d :: cs)).map (·.2) := by
          rw [fraction?, power?]
          split <;> rfl
        rw [hpower]
        exact (leaves_power? 1 (d :: cs)).of_ends_eq (ends_fractionPattern '.' (d :: cs))
    · rw [fraction?_eq_none hc]
      exact (ends_fractionPattern c cs).trans (if_neg (by simpa using hc))

/-- Less than all digits of a run leaves a digit. -/
theorem eq_or_isDigit_of_mem_ends {x y : List Char} (hx : digitsPattern.Prefers cs x) (hy : y ∈ digitsPattern.ends cs) :
    y = x ∨ ∃ c ds, y = c :: ds ∧ c.isDigit = true := by
  cases cs with
  | nil => cases hy
  | cons c cs =>
    by_cases hc : c.isDigit = true
    · have hends := ends_digitsPattern_cons hc cs
      have hrun : x = cs.dropWhile Char.isDigit := by
        have hhead := hx.head?
        rw [hends, (prefers_run Char.isDigit cs).head?] at hhead
        exact (Option.some.inj hhead).symm
      rw [hends] at hy
      exact hrun ▸ eq_dropWhile_or_of_mem_ends hy
    · rw [ends_digitsPattern_eq_nil (Bool.eq_false_iff.mpr hc)] at hy
      cases hy

/-- What a power of ten does not start with is left as it is. -/
theorem ends_opt_exponentPattern_eq (h : isExponentMark c = false) (cs : List Char) :
    (opt exponentPattern).ends (c :: cs) = [c :: cs] :=
  ends_opt_of_nil (ends_exponentPattern_eq_nil h cs)

/-- What a fraction, if there is one, leaves of a text. -/
def afterFraction (cs : List Char) : List Char := ((fraction? cs).map (·.2)).getD cs

/-- What a power of ten, if there is one, leaves of a text. -/
def afterExponent (cs : List Char) : List Char := ((exponent? cs).map (·.2)).getD cs

theorem numberAfter_snd (negative : Bool) (whole cs : List Char) :
    (numberAfter negative whole cs).2 = afterExponent (afterFraction cs) := by
  unfold numberAfter afterFraction
  cases fraction? cs with
  | none =>
    unfold afterExponent
    dsimp only [Option.map_none, Option.getD_none]
    cases exponent? cs <;> rfl
  | some r =>
    unfold afterExponent
    dsimp only [Option.map_some, Option.getD_some]
    cases exponent? r.2 <;> rfl

/-- Less than the whole fraction leaves a digit, and no fraction where there is one leaves the point. -/
theorem eq_afterFraction_or_of_mem_ends {y : List Char} (hy : y ∈ (opt fractionPattern).ends cs) :
    y = afterFraction cs ∨ ∃ c ds, y = c :: ds ∧ isExponentMark c = false := by
  have hleaves := leaves_fraction? cs
  unfold afterFraction
  cases hf : fraction? cs with
  | none =>
    rw [hf] at hleaves
    rw [ends_opt_of_nil hleaves] at hy
    exact .inl (List.mem_singleton.mp hy)
  | some r =>
    rw [hf] at hleaves
    cases cs with
    | nil => cases hf
    | cons c cs =>
      have hc : c = '.' := by
        by_contra hne
        rw [fraction?_eq_none hne] at hf
        cases hf
      subst hc
      have hends : fractionPattern.ends ('.' :: cs) = digitsPattern.ends cs := ends_fractionPattern '.' cs
      rcases List.mem_append.mp hy with hy | hy
      · refine (eq_or_isDigit_of_mem_ends (Prefers.of_ends_eq hleaves hends.symm) (hends ▸ hy)).imp_right ?_
        rintro ⟨d, ds, rfl, hd⟩
        exact ⟨d, ds, rfl, isExponentMark_of_isDigit hd⟩
      · exact .inr ⟨'.', cs, List.mem_singleton.mp hy, rfl⟩

/-- A number after its first digits takes its fraction and its power of ten where they are complete. -/
theorem prefers_numberAfter (negative : Bool) (whole cs : List Char) :
    (seq (opt fractionPattern) (opt exponentPattern)).Prefers cs (numberAfter negative whole cs).2 := by
  rw [numberAfter_snd]
  refine (leaves_fraction? cs).opt.seq (leaves_exponent? _).opt fun y hy hne => ?_
  obtain ⟨c, ds, rfl, hc⟩ := (eq_afterFraction_or_of_mem_ends hy).resolve_left hne
  rw [ends_opt_exponentPattern_eq hc]
  exact fun z hz => List.mem_singleton.mp hz

/-- A digit starts neither a fraction nor a power of ten. -/
theorem ends_after_digits_eq (h : c.isDigit = true) (cs : List Char) :
    (seq (opt fractionPattern) (opt exponentPattern)).ends (c :: cs) = [c :: cs] := by
  have hfraction : fractionPattern.ends (c :: cs) = [] := by
    rw [ends_fractionPattern]
    refine if_neg fun hc => ?_
    rw [beq_iff_eq.mp hc] at h
    cases h
  rw [ends, ends_opt_of_nil hfraction, List.flatMap_singleton]
  exact ends_opt_exponentPattern_eq (isExponentMark_of_isDigit h) cs

theorem ends_unsignedPattern_eq_nil (h : c.isDigit = false) (cs : List Char) : unsignedPattern.ends (c :: cs) = [] := by
  rw [unsignedPattern, ends, ends_digitsPattern_eq_nil h]
  rfl

theorem leaves_unsigned? (negative : Bool) (cs : List Char) :
    unsignedPattern.Leaves cs ((unsigned? negative cs).map (·.2)) := by
  cases cs with
  | nil => rfl
  | cons c cs =>
    rw [unsigned?]
    split
    · next hc =>
      have hdigits := (prefers_run Char.isDigit cs).of_ends_eq (ends_digitsPattern_cons hc cs)
      refine hdigits.seq (prefers_numberAfter negative _ _) fun y hy hne => ?_
      obtain ⟨d, ds, rfl, hd⟩ := (eq_or_isDigit_of_mem_ends hdigits hy).resolve_left hne
      rw [ends_after_digits_eq hd]
      exact fun z hz => List.mem_singleton.mp hz
    · next hc => exact ends_unsignedPattern_eq_nil (Bool.eq_false_iff.mpr hc) cs

/-- The sign of a number that is written. -/
def signText (negative : Bool) : List Char := if negative then ['-'] else []

/-- A number is read as its pattern matches: after a minus sign, or from the first digit on. -/
theorem exists_ends_numberPattern (cs : List Char) : ∃ negative ds, cs = signText negative ++ ds ∧
    number? cs = unsigned? negative ds ∧ numberPattern.ends cs = unsignedPattern.ends ds := by
  cases cs with
  | nil => exact ⟨false, [], rfl, rfl, rfl⟩
  | cons c cs =>
    have hends : numberPattern.ends (c :: cs) =
        if c == '-' then unsignedPattern.ends cs else unsignedPattern.ends (c :: cs) := by
      refine ends_seq_opt_one_cons fun hc => ends_unsignedPattern_eq_nil ?_ cs
      rw [beq_iff_eq.mp hc]
      rfl
    rw [hends]
    by_cases hc : c = '-'
    · subst hc
      exact ⟨true, cs, rfl, rfl, rfl⟩
    · exact ⟨false, c :: cs, rfl, number?_eq_unsigned? hc, if_neg (by simpa using hc)⟩

theorem leaves_number? (cs : List Char) : numberPattern.Leaves cs ((number? cs).map (·.2)) := by
  obtain ⟨negative, ds, -, hread, hends⟩ := exists_ends_numberPattern cs
  rw [hread]
  exact (leaves_unsigned? negative ds).of_ends_eq hends

end DocStore.Query
