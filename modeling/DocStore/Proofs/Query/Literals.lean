import DocStore.Proofs.Numeric.Decimal
import DocStore.Proofs.Query.Lexing
import DocStore.Proofs.Query.Unambiguous

/-!
# Writing values as literals

Every text can be written between quotes of either kind, with a backslash before what would end it or be taken for a backslash
(`Written`), and it is read back from there (`next?_of_written`), as an integer is from its decimal text (`next?_decimal`). Null
and the truth values are words. So these are the values that can be written as literals (`exists_spells_iff`), and each such
text is one lexeme, an operand with the value (`Spells.exists_operandTree`).
-/

namespace DocStore.Query

open Text (Stops takeWhile_append dropWhile_append)

variable {quote c : Char} {s w rest : List Char} {v : Value}

/-! ## Texts between quotes -/

/-- The letters that stand for control characters after a backslash. -/
def controlLetters : List (Char × Char) := [('n', '\n'), ('t', '\t'), ('r', '\r')]

/-- The ways to write some characters between quotes: a backslash and the quote stand after a backslash, a line feed, a tab and
a carriage return may be written as a letter after a backslash, and every other character stands for itself. -/
inductive Written (quote : Char) : List Char → List Char → Prop
  | nil : Written quote [] []
  | plain {c : Char} {s w : List Char} (hquote : c ≠ quote) (hc : c ≠ '\\') (h : Written quote s w) :
      Written quote (c :: s) (c :: w)
  | escaped {c : Char} {s w : List Char} (hc : c = '\\' ∨ c = quote) (h : Written quote s w) :
      Written quote (c :: s) ('\\' :: c :: w)
  | letter {l c : Char} {s w : List Char} (hl : (l, c) ∈ controlLetters) (h : Written quote s w) :
      Written quote (c :: s) ('\\' :: l :: w)

/-- All characters can be written between quotes. -/
theorem exists_written (quote : Char) (s : List Char) : ∃ w, Written quote s w := by
  induction s with
  | nil => exact ⟨[], .nil⟩
  | cons c s ih =>
    obtain ⟨w, hw⟩ := ih
    by_cases hc : c = '\\' ∨ c = quote
    · exact ⟨_, .escaped hc hw⟩
    · exact ⟨_, .plain (fun h => hc (.inr h)) (fun h => hc (.inl h)) hw⟩

theorem ne_of_mem_quotes (h : quote ∈ quotes) : '\\' ≠ quote ∧ quote ≠ '\n' ∧ unescape quote = quote := by
  have hquotes : ∀ q ∈ quotes, '\\' ≠ q ∧ q ≠ '\n' ∧ unescape q = q :=
    List.all_iff_forall_prop.mp (by decide)
  exact hquotes quote h

/-- What was written between quotes is read back up to the closing quote. -/
theorem quotationBody?_of_written (hquote : quote ∈ quotes) (h : Written quote s w) (rest : List Char) :
    quotationBody? quote (w ++ quote :: rest) = some (s, rest) := by
  obtain ⟨hbackslash, hfeed, hself⟩ := ne_of_mem_quotes hquote
  induction h with
  | nil => exact quotationBody?_quote quote rest
  | plain hq hc _ ih =>
    rw [List.cons_append, quotationBody?_plain hq hc, ih]
    rfl
  | @escaped c s w hc _ ih =>
    have hback : c ≠ '\n' ∧ unescape c = c := by
      obtain rfl | rfl := hc
      · decide
      · exact ⟨hfeed, hself⟩
    rw [List.cons_append, List.cons_append, quotationBody?_escaped hbackslash hback.1, ih, Option.map_some, hback.2]
  | @letter l c s w hl _ ih =>
    have hletters : ∀ x ∈ controlLetters, x.1 ≠ '\n' ∧ unescape x.1 = x.2 := by decide
    obtain ⟨hne, hback⟩ := hletters _ hl
    rw [List.cons_append, List.cons_append, quotationBody?_escaped hbackslash hne, ih, Option.map_some, hback]

theorem next?_of_written (hquote : quote ∈ quotes) (h : Written quote s w) (rest : List Char) :
    next? (quote :: (w ++ quote :: rest)) = some (some (.literal (.string (String.ofList s))), rest) := by
  rw [next?_of_mem_quotes hquote, quotation?, if_pos rfl, quotationBody?_of_written hquote h]
  rfl

/-! ## Integers -/

theorem exponent?_eq_none (h : Stops isWordChar rest) : exponent? rest = none := by
  cases rest with
  | nil => rfl
  | cons c rest =>
    refine if_neg fun hc => Bool.eq_false_iff.mp (h c rfl) ?_
    obtain rfl | rfl := hc <;> decide

/-- Digits before no word character and no point are an integer. -/
theorem unsigned?_toDigits (negative : Bool) (n : Nat) (h : Stops isWordChar rest) (hpoint : rest.head? ≠ some '.') :
    unsigned? negative (Nat.toDigits 10 n ++ rest) = some (.ofInt (if negative then -n else n), rest) := by
  have hdigits : ∀ c ∈ Nat.toDigits 10 n, c.isDigit = true := fun c => isDigit_of_mem_toDigits
  have hvalue : Nat.ofDigitChars 10 (Nat.toDigits 10 n) 0 = n := Nat.ofDigitChars_ten_toDigits
  have hstop : Stops Char.isDigit rest := h.mono fun y hy => by rw [isWordChar, Char.isAlphanum, hy, Bool.or_true, Bool.true_or]
  have hfraction : fraction? rest = none := by
    cases rest with
    | nil => rfl
    | cons c rest => exact fraction?_eq_none fun hc => hpoint (by rw [hc]; rfl)
  obtain ⟨c, cs, hcs, hc⟩ := exists_toDigits_eq_cons n
  rw [hcs] at hdigits hvalue ⊢
  obtain ⟨-, htail⟩ := List.forall_mem_cons.mp hdigits
  rw [List.cons_append, unsigned?, if_pos hc, takeWhile_append hstop, dropWhile_append hstop,
    List.takeWhile_eq_self_iff.mpr htail, List.dropWhile_eq_nil_iff.mpr htail, List.nil_append, numberAfter, hfraction,
    exponent?_eq_none h, hvalue]

theorem number?_decimal (i : Int64) (h : Stops isWordChar rest) (hpoint : rest.head? ≠ some '.') :
    number? (Number.decimal i.toInt ++ rest) = some (.int i, rest) := by
  have hread (negative : Bool) (hi : (if negative then -(i.toInt.natAbs : Int) else i.toInt.natAbs) = i.toInt) :
      unsigned? negative (Nat.toDigits 10 i.toInt.natAbs ++ rest) = some (.int i, rest) := by
    rw [unsigned?_toDigits negative _ h hpoint, hi, Value.ofInt, Number.ofInt_toInt]
    rfl
  rw [Number.decimal]
  split
  · exact hread true (by rw [if_pos rfl]; omega)
  · obtain ⟨c, cs, hcs, hdigit⟩ := exists_toDigits_eq_cons i.toInt.natAbs
    have hminus : c ≠ '-' := by rintro rfl; cases hdigit
    have hplain := hread false (by rw [if_neg Bool.false_ne_true]; omega)
    rw [hcs, List.cons_append] at hplain ⊢
    rw [number?_eq_unsigned? hminus, hplain]

/-- An integer is read from its decimal text. -/
theorem next?_decimal (i : Int64) (h : Stops isWordChar rest) (hpoint : rest.head? ≠ some '.') :
    next? (Number.decimal i.toInt ++ rest) = some (some (.literal (.int i)), rest) := by
  have hnumber := number?_decimal i h hpoint
  obtain ⟨c, cs, hcs, hc⟩ := Number.exists_decimal_eq_cons i.toInt
  have hstart : isNumberStart c = true := by rwa [isNumberStart, Bool.or_eq_true, beq_iff_eq]
  rw [hcs, List.cons_append] at hnumber ⊢
  rw [next?_of_isNumberStart hstart, hnumber]
  rfl

/-! ## Words -/

/-- Only a letter has a capital letter. -/
theorem isAlpha_of_isAlpha_toUpper (h : c.toUpper.isAlpha = true) : c.isAlpha = true := by
  unfold Char.toUpper at h
  split at h
  · next hlower =>
    obtain ⟨hlow, hhigh⟩ := hlower
    exact isAlpha_iff_toNat.mpr (.inr ⟨UInt32.le_iff_toNat_le.mp hlow, UInt32.le_iff_toNat_le.mp hhigh⟩)
  · exact h

/-- A word that is a literal in some spelling is a word. -/
theorem isWord_of_sameLetters (l : WordLiteral) {s : String} (h : sameLetters s l.text = true) : IsWord s := by
  have hliteral : ∀ x ∈ l.text.toList.map Char.toUpper, x.isAlpha = true :=
    List.all_eq_true.mp (by cases l <;> decide)
  have hletters : ∀ x ∈ s.toList, x.isAlpha = true := by
    intro x hx
    rw [← beq_iff_eq.mp h] at hliteral
    exact isAlpha_of_isAlpha_toUpper (hliteral _ (List.mem_map_of_mem hx))
  cases hs : s.toList with
  | nil =>
    have hempty : ([] : List Char) = l.text.toList.map Char.toUpper := by simpa [sameLetters, hs] using h
    cases l <;> cases hempty
  | cons c cs =>
    rw [hs] at hletters
    obtain ⟨hc, hcs⟩ := List.forall_mem_cons.mp hletters
    refine ⟨c, cs, hs, by rw [isWordStart, hc, Bool.true_or], fun x hx => ?_⟩
    rw [isWordChar, Char.isAlphanum, hcs x hx, Bool.true_or, Bool.true_or]

theorem word?_of_isWord {s : String} (h : IsWord s) (hrest : Stops isWordChar rest) :
    word? (s.toList ++ rest) = some (s, rest) := by
  rw [stopsAt_word? _ _ hrest, h.word?]
  rfl

theorem next?_of_isWord {s : String} (h : IsWord s) (hrest : Stops isWordChar rest) :
    next? (s.toList ++ rest) = some (some (.word s), rest) := by
  have hword := word?_of_isWord h hrest
  obtain ⟨c, cs, hs, hc, -⟩ := h
  rw [hs, List.cons_append] at hword ⊢
  rw [next?_of_isWordStart hc, hword]
  rfl

/-- The at sign and a word are a parameter. -/
theorem next?_param_of_isWord {s : String} (h : IsWord s) (hrest : Stops isWordChar rest) :
    next? ('@' :: (s.toList ++ rest)) = some (some (.param s), rest) := by
  rw [next?_at, word?_of_isWord h hrest]
  rfl

/-! ## Literals -/

/-- The texts of a value as a literal: null and the truth values are words in capital or small letters, an integer is
written in decimal and a text between quotes of either kind. -/
inductive Spells : Value → List Char → Prop
  | word (l : WordLiteral) {s : String} (h : sameLetters s l.text = true) : Spells l.value s.toList
  | int (i : Int64) : Spells (.int i) (Number.decimal i.toInt)
  | string {quote : Char} {s : String} {w : List Char} (hquote : quote ∈ quotes) (h : Written quote s.toList w) :
      Spells (.string s) (quote :: (w ++ [quote]))

theorem Spells.ne_nil (h : Spells v w) : w ≠ [] := by
  cases h with
  | word l h =>
    obtain ⟨c, cs, hs, -⟩ := isWord_of_sameLetters l h
    rw [hs]
    exact List.cons_ne_nil c cs
  | int i =>
    obtain ⟨c, cs, hcs, -⟩ := Number.exists_decimal_eq_cons i.toInt
    rw [hcs]
    exact List.cons_ne_nil c cs
  | string hquote h => exact List.cons_ne_nil _ _

/-- The values that can be written as literals: null, truth values, integers and texts. -/
theorem exists_spells_iff :
    (∃ w, Spells v w) ↔ v = .null ∨ (∃ b, v = .bool b) ∨ (∃ i, v = .int i) ∨ ∃ s, v = .string s := by
  constructor
  · rintro ⟨w, h⟩
    cases h with
    | word l h =>
      cases l with
      | true => exact .inr (.inl ⟨true, rfl⟩)
      | false => exact .inr (.inl ⟨false, rfl⟩)
      | null => exact .inl rfl
    | int i => exact .inr (.inr (.inl ⟨i, rfl⟩))
    | string hquote h => exact .inr (.inr (.inr ⟨_, rfl⟩))
  · rintro (rfl | ⟨b, rfl⟩ | ⟨i, rfl⟩ | ⟨s, rfl⟩)
    · exact ⟨_, .word .null (beq_self_eq_true _)⟩
    · cases b with
      | false => exact ⟨_, .word .false (beq_self_eq_true _)⟩
      | true => exact ⟨_, .word .true (beq_self_eq_true _)⟩
    · exact ⟨_, .int i⟩
    · obtain ⟨w, hw⟩ := exists_written '"' s.toList
      exact ⟨_, .string (by decide) hw⟩

/-- The text of a literal is one lexeme before no word character and no point, and an operand with its value. -/
theorem Spells.exists_operandTree (h : Spells v w) (hrest : Stops isWordChar rest) (hpoint : rest.head? ≠ some '.') :
    ∃ o : OperandTree, next? (w ++ rest) = some (some o.token, rest) ∧ o.operand = .literal v := by
  cases h with
  | @word l s h => exact ⟨.word l s h, next?_of_isWord (isWord_of_sameLetters l h) hrest, rfl⟩
  | int i => exact ⟨.literal (.int i), next?_decimal i hrest hpoint, rfl⟩
  | @string quote s w hquote h =>
    have hnext := next?_of_written hquote h rest
    rw [String.ofList_toList] at hnext
    have hcut : quote :: (w ++ [quote]) ++ rest = quote :: (w ++ quote :: rest) := by simp
    rw [hcut]
    exact ⟨.literal (.string s), hnext, rfl⟩

end DocStore.Query
