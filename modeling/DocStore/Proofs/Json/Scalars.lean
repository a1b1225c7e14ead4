import DocStore.Json.Reader
import DocStore.Proofs.Numeric.Decimal
import DocStore.Proofs.Text.Runs
import DocStore.Text.Quoted
import Mathlib.Data.List.TakeWhile
import Mathlib.Tactic.SplitIfs

/-!
# Reading texts and integers back

A quoted text is read back whatever characters it has (`readText?_quoted`), and so is an integer with 64 bits from its decimal
text before anything that cannot continue a number (`readNumber?_decimal`).
-/

namespace DocStore.Json

open Text (Stops ne_of_class takeWhile_append dropWhile_append)

variable {c : Char} {cs rest : List Char}

/-! ## Texts -/

theorem hexDigit?_digitChar : ∀ k < 16, hexDigit? (Nat.digitChar k) = some k := by decide

theorem readText?_plain (hquote : c ≠ '"') (hbackslash : c ≠ '\\') (hcontrol : ¬ c.toNat < 0x20) (cs : List Char) :
    readText? (c :: cs) = (readText? cs).map (prepend c) := by
  rw [readText?.eq_def]
  split
  · next heq => exact absurd (List.cons.inj heq).1 hquote
  · next heq => exact absurd (List.cons.inj heq).1 hbackslash
  · next heq => exact absurd (List.cons.inj heq).1 hbackslash
  · next heq =>
    cases heq
    rw [if_neg hcontrol]
  · next heq => cases heq

/-- A control character is read from its four digits. -/
theorem readText?_control (hcontrol : c.toNat < 0x20) (cs : List Char) :
    readText? ('\\' :: 'u' :: '0' :: '0' :: Nat.digitChar (c.toNat / 16) :: Nat.digitChar (c.toNat % 16) :: cs) =
      (readText? cs).map (prepend c) := by
  have hhigh := hexDigit?_digitChar (c.toNat / 16) (by omega)
  have hlow := hexDigit?_digitChar (c.toNat % 16) (by omega)
  have hzero : hexDigit? '0' = some 0 := rfl
  have hvalue : ((16 * 0 + 0) * 16 + c.toNat / 16) * 16 + c.toNat % 16 = c.toNat := by omega
  have hnumber : hexNumber? '0' '0' (Nat.digitChar (c.toNat / 16)) (Nat.digitChar (c.toNat % 16)) = some c.toNat := by
    rw [hexNumber?, hhigh, hlow, hzero]
    exact congrArg some hvalue
  rw [readText?, hnumber]
  dsimp only
  rw [if_neg (by omega), Char.ofNat_toNat]

/-- A character is read from what is written for it. -/
theorem readText?_quoteChar (c : Char) (cs : List Char) :
    readText? (Text.quoteChar c ++ cs) = (readText? cs).map (prepend c) := by
  unfold Text.quoteChar
  split_ifs with hquote hbackslash hn hr ht hcontrol
  · subst hquote
    rfl
  · subst hbackslash
    rfl
  · subst hn
    rfl
  · subst hr
    rfl
  · subst ht
    rfl
  · exact readText?_control hcontrol cs
  · exact readText?_plain hquote hbackslash hcontrol cs

/-- The characters between quotes are read back up to the closing one. -/
theorem readText?_quoted (s rest : List Char) : readText? (s.flatMap Text.quoteChar ++ '"' :: rest) = some (s, rest) := by
  induction s with
  | nil => rw [List.flatMap_nil, List.nil_append, readText?]
  | cons c s ih =>
    rw [List.flatMap_cons, List.append_assoc, readText?_quoteChar, ih]
    rfl

/-! ## Integers -/

/-- Whether a number goes on with a character. -/
def continuesNumber (c : Char) : Bool := c.isDigit || c == '.' || c == 'e' || c == 'E'

theorem le_ofDigitChars (cs : List Char) (n : Nat) : n ≤ Nat.ofDigitChars 10 cs n := by
  induction cs generalizing n with
  | nil => exact Nat.le_of_eq Nat.ofDigitChars_nil.symm
  | cons c cs ih =>
    rw [Nat.ofDigitChars_cons]
    exact Nat.le_trans (by omega) (ih _)

/-- All digits of a number that fits count. -/
theorem absorb_eq {s : Nat} (h : Nat.ofDigitChars 10 cs s < pow2 64) : absorb s cs = (Nat.ofDigitChars 10 cs s, cs.length) := by
  induction cs generalizing s with
  | nil => rw [absorb, Nat.ofDigitChars_nil, List.length_nil]
  | cons c cs ih =>
    have hnext : Nat.ofDigitChars 10 [c] s = 10 * s + (c.toNat - '0'.toNat) := by
      rw [Nat.ofDigitChars_cons, Nat.ofDigitChars_nil]
    rw [Nat.ofDigitChars_cons, ← hnext] at h ⊢
    rw [absorb]
    dsimp only
    rw [if_pos (Nat.lt_of_le_of_lt (le_ofDigitChars cs _) h), ih h, List.length_cons]

theorem numberValue?_toDigits (negative : Bool) {n : Nat} (h : n < pow2 64) (hzero : negative = true → n ≠ 0) :
    numberValue? negative (Nat.toDigits 10 n) none none = some (.ofInt (if negative then -n else n)) := by
  have hvalue : Nat.ofDigitChars 10 (Nat.toDigits 10 n) 0 = n := Nat.ofDigitChars_ten_toDigits
  have habsorb := absorb_eq (s := 0) (hvalue.symm ▸ h)
  rw [numberValue?, habsorb, hvalue]
  dsimp only
  rw [if_pos ⟨rfl, rfl, rfl⟩]
  cases negative with
  | true => rw [if_pos rfl, if_neg (hzero rfl), if_pos rfl]
  | false => rfl

theorem readFraction?_eq (h : Stops continuesNumber rest) : readFraction? rest = some (none, rest) := by
  cases rest with
  | nil => rfl
  | cons c rest =>
    have hpoint : c ≠ '.' := ne_of_class (h c rfl) rfl
    unfold readFraction?
    split
    · next heq => exact absurd (List.cons.inj heq).1 hpoint
    · rfl

theorem readExponent?_eq (h : Stops continuesNumber rest) : readExponent? rest = some (none, rest) := by
  cases rest with
  | nil => rfl
  | cons c rest =>
    have hmark : ¬ (c = 'e' ∨ c = 'E') := not_or.mpr ⟨ne_of_class (h c rfl) rfl, ne_of_class (h c rfl) rfl⟩
    exact if_neg hmark

/-- Digits without a fraction and an exponent are an integer. -/
theorem readUnsigned?_toDigits (negative : Bool) {n : Nat} (h : n < pow2 64) (hzero : negative = true → n ≠ 0)
    (hrest : Stops continuesNumber rest) : readUnsigned? negative (Nat.toDigits 10 n ++ rest) =
      some (.ofInt (if negative then -n else n), rest) := by
  have hstop : Stops Char.isDigit rest := hrest.mono fun y hy => by simp [continuesNumber, hy]
  have hall : ∀ c ∈ Nat.toDigits 10 n, c.isDigit = true := fun _ => isDigit_of_mem_toDigits
  have hdigits : digits (Nat.toDigits 10 n ++ rest) = (Nat.toDigits 10 n, rest) := by
    rw [digits, takeWhile_append hstop, dropWhile_append hstop, List.takeWhile_eq_self_iff.mpr hall,
      List.dropWhile_eq_nil_iff.mpr hall, List.nil_append]
  have hguard : Nat.toDigits 10 n ≠ [] ∧ ((Nat.toDigits 10 n).head? = some '0' → (Nat.toDigits 10 n).length = 1) := by
    refine ⟨Nat.toDigits_ne_nil, fun hhead => ?_⟩
    obtain rfl | hn := Nat.eq_zero_or_pos n
    · rfl
    · exact absurd hhead (head?_toDigits_ne hn)
  rw [readUnsigned?, hdigits]
  dsimp only
  rw [guard, if_pos hguard]
  show (readFraction? rest >>= _) = _
  rw [readFraction?_eq hrest]
  show (readExponent? rest >>= _) = _
  rw [readExponent?_eq hrest]
  show (numberValue? negative (Nat.toDigits 10 n) none none >>= _) = _
  rw [numberValue?_toDigits negative h hzero]
  rfl

/-- An integer is read back from its decimal text. -/
theorem readNumber?_decimal (i : Int64) (hrest : Stops continuesNumber rest) :
    readNumber? (Number.decimal i.toInt ++ rest) = some (.int i, rest) := by
  have hlow : -(2 ^ 63 : Int) ≤ i.toInt := Int64.le_toInt i
  have hhigh : i.toInt < (2 ^ 63 : Int) := Int64.toInt_lt i
  have hfits : i.toInt.natAbs < pow2 64 := by
    show i.toInt.natAbs < 2 ^ 64
    omega
  have hread (negative : Bool) (hzero : negative = true → i.toInt.natAbs ≠ 0)
      (hi : (if negative then -(i.toInt.natAbs : Int) else i.toInt.natAbs) = i.toInt) :
      readUnsigned? negative (Nat.toDigits 10 i.toInt.natAbs ++ rest) = some (.int i, rest) := by
    rw [readUnsigned?_toDigits negative hfits hzero hrest, hi, Value.ofInt, Number.ofInt_toInt]
    rfl
  rw [Number.decimal]
  split
  · exact hread true (fun _ => by omega) (by rw [if_pos rfl]; omega)
  · obtain ⟨c, cs, hcs, hdigit⟩ := exists_toDigits_eq_cons i.toInt.natAbs
    have hminus : c ≠ '-' := by rintro rfl; cases hdigit
    have hplain := hread false (fun h => absurd h Bool.false_ne_true) (by rw [if_neg Bool.false_ne_true]; omega)
    rw [hcs, List.cons_append] at hplain ⊢
    rw [← hplain, readNumber?]
    exact fun ds heq => hminus (List.cons.inj heq).1

end DocStore.Json
