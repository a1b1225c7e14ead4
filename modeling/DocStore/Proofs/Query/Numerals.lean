import DocStore.Numeric.Reading
import DocStore.Proofs.Query.Patterns

/-!
# Values of numbers in queries

What is read off the front of a text as a number has the value that its own text writes when all of it has to be a number
(`exists_of_number?`): so every text that the pattern of numbers takes is one. Digits with a sign alone are an integer if it
fits (`numberValue?_eq_ofInt`), anything else is the nearest floating point word (`numberValue?_eq_float`).
-/

namespace DocStore.Query

open Text (Pattern)
open Text.Pattern

variable {cs rest : List Char} {c : Char} {v : Value}

/-- The value that the text of a number writes: an integer if it has no fraction and no power of ten and fits. -/
def numberValue? (cs : List Char) : Option Value :=
  let integer? := if cs.any fun c => c == '.' || isExponentMark c then none else Numeral.readInteger? cs
  match integer? with
  | some i => some (.int i)
  | none => (Numeral.readFloat? cs).map .float

theorem isDigits_iff : Numeral.isDigits cs = true ↔ cs ≠ [] ∧ ∀ c ∈ cs, c.isDigit = true := by
  rw [Numeral.isDigits, Bool.and_eq_true, Bool.not_eq_true', List.isEmpty_eq_false_iff, List.all_eq_true]

theorem isDigits_cons_takeWhile (h : c.isDigit = true) (cs : List Char) :
    Numeral.isDigits (c :: cs.takeWhile Char.isDigit) = true :=
  isDigits_iff.mpr ⟨List.cons_ne_nil _ _, List.forall_mem_cons.mpr ⟨h, fun _ hx => List.mem_takeWhile_imp hx⟩⟩

/-- A fraction that is read is a point and digits. -/
theorem eq_of_fraction? {ds : List Char} (h : fraction? cs = some (ds, rest)) :
    cs = '.' :: ds ++ rest ∧ Numeral.isDigits ds = true := by
  unfold fraction? at h
  split at h
  · next c cs =>
    rw [Option.ite_none_right_eq_some] at h
    obtain ⟨hc, h⟩ := h
    cases h
    refine ⟨?_, isDigits_cons_takeWhile hc cs⟩
    rw [List.cons_append, List.cons_append, List.takeWhile_append_dropWhile]
  · cases h

theorem exists_of_power? {sign e : Int} (h : power? sign cs = some (e, rest)) :
    ∃ ds, cs = ds ++ rest ∧ Numeral.isDigits ds = true ∧ e = sign * Nat.ofDigitChars 10 ds 0 := by
  cases cs with
  | nil => cases h
  | cons c cs =>
    rw [power?, Option.ite_none_right_eq_some] at h
    obtain ⟨hc, h⟩ := h
    cases h
    exact ⟨_, by rw [List.cons_append, List.takeWhile_append_dropWhile], isDigits_cons_takeWhile hc cs, rfl⟩

theorem signed_of_isDigits (h : Numeral.isDigits cs = true) (rest : List Char) :
    Numeral.signed (cs ++ rest) = (false, cs ++ rest) := by
  obtain ⟨hne, hall⟩ := isDigits_iff.mp h
  obtain ⟨c, ds, rfl⟩ := List.exists_cons_of_ne_nil hne
  have hc := hall c (List.mem_cons_self ..)
  unfold Numeral.signed
  split
  · next heq => rw [(List.cons.inj heq).1] at hc; cases hc
  · next heq => rw [(List.cons.inj heq).1] at hc; cases hc
  · rfl

/-- A power of ten that is read is a mark and what a number can end with. -/
theorem exists_of_exponent? {e : Int} (h : exponent? cs = some (e, rest)) :
    ∃ c w, cs = c :: w ++ rest ∧ isExponentMark c = true ∧ Numeral.readPower? (c :: w) = some e := by
  cases cs with
  | nil => cases h
  | cons c cs =>
    rw [exponent?, Option.ite_none_right_eq_some] at h
    obtain ⟨hc, h⟩ := h
    have hread (sign : List Char) (negative : Bool) (ds : List Char) (hds : Numeral.isDigits ds = true)
        (hsign : Numeral.signed (sign ++ ds) = (negative, ds)) :
        Numeral.readPower? (c :: (sign ++ ds)) = some (Numeral.integer negative ds) := by
      rw [Numeral.readPower?, hsign]
      exact if_pos ⟨hc, hds⟩
    unfold signedPower? at h
    split at h
    · obtain ⟨ds, rfl, hds, rfl⟩ := exists_of_power? h
      refine ⟨c, '+' :: ds, rfl, exponentMark_iff.mpr hc, ?_⟩
      rw [Int.one_mul]
      exact hread ['+'] false ds hds rfl
    · obtain ⟨ds, rfl, hds, rfl⟩ := exists_of_power? h
      refine ⟨c, '-' :: ds, rfl, exponentMark_iff.mpr hc, ?_⟩
      rw [Int.neg_one_mul]
      exact hread ['-'] true ds hds rfl
    · obtain ⟨ds, rfl, hds, rfl⟩ := exists_of_power? h
      refine ⟨c, ds, rfl, exponentMark_iff.mpr hc, ?_⟩
      rw [Int.one_mul]
      have hsign := signed_of_isDigits hds []
      rw [List.append_nil] at hsign
      exact hread [] false ds hds hsign

theorem signed_signText {ds : List Char} (h : Numeral.isDigits ds = true) (negative : Bool) (rest : List Char) :
    Numeral.signed (signText negative ++ (ds ++ rest)) = (negative, ds ++ rest) := by
  cases negative with
  | false => exact signed_of_isDigits h rest
  | true => rfl

/-- The fraction of a number that is written: none, or a point and digits. -/
def fractionText : Option (List Char) → List Char
  | none => []
  | some ds => '.' :: ds

/-- A power of ten that is written stops the digits before it, and is no fraction. -/
theorem readFraction_fractionText {fraction? : Option (List Char)} {power : List Char}
    (hfraction : ∀ ds ∈ fraction?, Numeral.isDigits ds = true) (hpower : ∀ c ∈ power.head?, isExponentMark c = true) :
    Text.Stops Char.isDigit (fractionText fraction? ++ power) ∧
      Numeral.readFraction (fractionText fraction? ++ power) = (fraction?.getD [], power) := by
  have hstops : Text.Stops Char.isDigit power := fun c hc =>
    Bool.eq_false_iff.mpr fun hdigit => by
      have hmark := hpower c hc
      rw [isExponentMark_of_isDigit hdigit] at hmark
      cases hmark
  cases fraction? with
  | none =>
    refine ⟨hstops, ?_⟩
    cases power with
    | nil => rfl
    | cons c cs =>
      have hc : c ≠ '.' := by
        rintro rfl
        cases hpower '.' rfl
      rw [fractionText, List.nil_append]
      unfold Numeral.readFraction
      split
      · next heq => exact absurd (List.cons.inj heq).1 hc
      · rfl
  | some ds =>
    refine ⟨Text.stops_cons rfl, ?_⟩
    have hall := (isDigits_iff.mp (hfraction ds rfl)).2
    rw [fractionText, List.cons_append, Numeral.readFraction, Text.takeWhile_append hstops, Text.dropWhile_append hstops,
      List.takeWhile_eq_self_iff.mpr hall, List.dropWhile_eq_nil_iff.mpr hall]
    rfl

/-- A number that is written in its parts is read as the word nearest to it. -/
theorem readFloat?_eq {negative : Bool} {whole power : List Char} {fraction? : Option (List Char)} {e : Int}
    (hwhole : Numeral.isDigits whole = true) (hfraction : ∀ ds ∈ fraction?, Numeral.isDigits ds = true)
    (hpower : ∀ c ∈ power.head?, isExponentMark c = true) (hread : Numeral.readPower? power = some e) :
    Numeral.readFloat? (signText negative ++ (whole ++ (fractionText fraction? ++ power))) =
      some (Numeral.toBinary64 ⟨negative, whole, fraction?.getD [], e⟩) := by
  obtain ⟨hne, hall⟩ := isDigits_iff.mp hwhole
  obtain ⟨hstops, hfractionRead⟩ := readFraction_fractionText hfraction hpower
  rw [Numeral.readFloat?, signed_signText hwhole]
  dsimp only
  rw [Text.takeWhile_append hstops, Text.dropWhile_append hstops, List.takeWhile_eq_self_iff.mpr hall,
    List.dropWhile_eq_nil_iff.mpr hall, List.nil_append, hfractionRead]
  dsimp only
  rw [if_neg fun h => hne h.1, hread]
  rfl

/-- A number with a fraction or a power of ten is the word nearest to it. -/
theorem numberValue?_eq_float {negative : Bool} {whole power : List Char} {fraction? : Option (List Char)} {e : Int}
    (hwhole : Numeral.isDigits whole = true) (hfraction : ∀ ds ∈ fraction?, Numeral.isDigits ds = true)
    (hpower : ∀ c ∈ power.head?, isExponentMark c = true) (hread : Numeral.readPower? power = some e)
    (hmarked : fractionText fraction? ++ power ≠ []) :
    numberValue? (signText negative ++ (whole ++ (fractionText fraction? ++ power))) =
      some (.float (Numeral.toBinary64 ⟨negative, whole, fraction?.getD [], e⟩)) := by
  have hmark : (fractionText fraction? ++ power).any (fun c => c == '.' || isExponentMark c) = true := by
    cases fraction? with
    | some ds => rfl
    | none =>
      obtain ⟨c, cs, hcs⟩ := List.exists_cons_of_ne_nil hmarked
      rw [fractionText, List.nil_append] at hcs ⊢
      rw [hcs, List.any_cons, hpower c (by rw [hcs]; rfl), Bool.or_true, Bool.true_or]
  rw [numberValue?, List.any_append, List.any_append, hmark, Bool.or_true, Bool.or_true, if_pos rfl,
    readFloat?_eq hwhole hfraction hpower hread]
  rfl

/-- The word nearest to digits with a sign is that of their integer, unless it is zero. -/
theorem toBinary64_eq_ofInt (negative : Bool) {whole : List Char} (h : Numeral.integer negative whole ≠ 0) :
    Numeral.toBinary64 ⟨negative, whole, [], 0⟩ = .ofInt (Numeral.integer negative whole) := by
  have hne : Nat.ofDigitChars 10 whole 0 ≠ 0 := by
    intro hzero
    rw [Numeral.integer, hzero] at h
    exact h (ite_self _)
  have hsign : decide (Numeral.integer negative whole < 0) = negative := by
    cases negative with
    | false => exact decide_eq_false (Int.not_lt.mpr (Int.natCast_nonneg _))
    | true => exact decide_eq_true (Int.neg_neg_of_pos (Int.natCast_pos.mpr (Nat.pos_of_ne_zero hne)))
  have habs : (Numeral.integer negative whole).natAbs = Nat.ofDigitChars 10 whole 0 := by
    cases negative with
    | false => exact Int.natAbs_natCast _
    | true => exact (Int.natAbs_neg _).trans (Int.natAbs_natCast _)
  rw [Binary64.ofInt, hsign, habs, Numeral.toBinary64]
  simp only [Numeral.significand, Numeral.scale, List.append_nil, List.length_nil]
  rw [if_neg (by omega), if_neg (by omega)]
  exact congrArg (Binary64.ofRatio negative · 1) (Nat.mul_one _)

/-- Digits with a sign alone are an integer. -/
theorem numberValue?_eq_ofInt (negative : Bool) {whole : List Char} (hwhole : Numeral.isDigits whole = true) :
    numberValue? (signText negative ++ whole) = some (.ofInt (Numeral.integer negative whole)) := by
  obtain ⟨hne, hall⟩ := isDigits_iff.mp hwhole
  have hplain : (signText negative ++ whole).any (fun c => c == '.' || isExponentMark c) = false := by
    have hsign : (signText negative).any (fun c => c == '.' || isExponentMark c) = false := by
      cases negative <;> rfl
    have hdigits : whole.any (fun c => c == '.' || isExponentMark c) = false := by
      rw [List.any_eq_false]
      intro c hc
      rw [isExponentMark_of_isDigit (hall c hc), Bool.or_false, beq_iff_eq]
      rintro rfl
      cases hall '.' hc
    rw [List.any_append, hsign, hdigits]
    rfl
  have hsigned := signed_signText hwhole negative []
  rw [List.append_nil] at hsigned
  rw [numberValue?, hplain, if_neg Bool.false_ne_true, Numeral.readInteger?, hsigned, Value.ofInt, Number.ofInt]
  dsimp only
  by_cases hrange : Int64.minValue.toInt ≤ Numeral.integer negative whole ∧
      Numeral.integer negative whole ≤ Int64.maxValue.toInt
  · rw [if_pos ⟨hwhole, hrange⟩, if_pos hrange]
    rfl
  · rw [if_neg fun h => hrange h.2, if_neg hrange]
    have hfloat : Numeral.readFloat? (signText negative ++ (whole ++ (fractionText none ++ []))) =
        some (Numeral.toBinary64 ⟨negative, whole, [], 0⟩) := readFloat?_eq hwhole nofun nofun rfl
    rw [fractionText, List.append_nil, List.append_nil] at hfloat
    have hne : Numeral.integer negative whole ≠ 0 := fun hzero => hrange (by rw [hzero]; decide)
    dsimp only
    rw [hfloat, toBinary64_eq_ofInt negative hne]
    rfl

theorem numberAfter_fst (negative : Bool) (whole cs : List Char) :
    (numberAfter negative whole cs).1 =
      bif (fraction? cs).isNone && (exponent? (afterFraction cs)).isNone then .ofInt (Numeral.integer negative whole)
      else .float (Numeral.toBinary64 ⟨negative, whole, ((fraction? cs).map (·.1)).getD [],
        ((exponent? (afterFraction cs)).map (·.1)).getD 0⟩) := by
  unfold numberAfter afterFraction
  cases fraction? cs with
  | none =>
    dsimp only [Option.map_none, Option.getD_none]
    cases exponent? cs <;> rfl
  | some r =>
    dsimp only [Option.map_some, Option.getD_some]
    cases exponent? r.2 <;> rfl

theorem eq_fractionText_append (cs : List Char) : cs = fractionText ((fraction? cs).map (·.1)) ++ afterFraction cs ∧
    ∀ ds ∈ (fraction? cs).map (·.1), Numeral.isDigits ds = true := by
  unfold afterFraction
  cases hf : fraction? cs with
  | none => exact ⟨rfl, nofun⟩
  | some r =>
    obtain ⟨hcs, hds⟩ := eq_of_fraction? hf
    exact ⟨hcs, fun xs hxs => Option.some.inj hxs ▸ hds⟩

theorem exists_powerText (cs : List Char) : ∃ power, cs = power ++ afterExponent cs ∧
    (∀ c ∈ power.head?, isExponentMark c = true) ∧
    Numeral.readPower? power = some (((exponent? cs).map (·.1)).getD 0) ∧ (power = [] ↔ (exponent? cs).isNone) := by
  unfold afterExponent
  cases he : exponent? cs with
  | none => exact ⟨[], rfl, nofun, rfl, iff_of_true rfl rfl⟩
  | some r =>
    obtain ⟨c, w, hcs, hc, hread⟩ := exists_of_exponent? he
    exact ⟨c :: w, hcs, fun x hx => Option.some.inj hx ▸ hc, hread, iff_of_false (List.cons_ne_nil _ _) Bool.false_ne_true⟩

/-- A number after its first digits has the value of its text. -/
theorem exists_of_numberAfter (negative : Bool) {whole : List Char} (hwhole : Numeral.isDigits whole = true)
    (cs : List Char) : ∃ w, cs = w ++ (numberAfter negative whole cs).2 ∧
      numberValue? (signText negative ++ (whole ++ w)) = some (numberAfter negative whole cs).1 := by
  obtain ⟨hcs, hfraction⟩ := eq_fractionText_append cs
  obtain ⟨power, hpower, hmark, hread, hnil⟩ := exists_powerText (afterFraction cs)
  rw [numberAfter_snd, numberAfter_fst]
  refine ⟨fractionText ((fraction? cs).map (·.1)) ++ power, by rw [List.append_assoc, ← hpower, ← hcs], ?_⟩
  cases hplain : (fraction? cs).isNone && (exponent? (afterFraction cs)).isNone with
  | true =>
    rw [Bool.and_eq_true] at hplain
    rw [Option.isNone_iff_eq_none.mp hplain.1, hnil.mpr hplain.2, Option.map_none, fractionText, List.append_nil,
      List.append_nil]
    exact numberValue?_eq_ofInt negative hwhole
  | false =>
    refine numberValue?_eq_float hwhole hfraction hmark hread fun hempty => Bool.false_ne_true (hplain.symm.trans ?_)
    obtain ⟨hf, hp⟩ := List.append_eq_nil_iff.mp hempty
    rw [hnil.mp hp, Bool.and_true]
    cases hsome : fraction? cs with
    | none => rfl
    | some r =>
      rw [hsome] at hf
      cases hf

/-- A number that is read has the value of its text. -/
theorem exists_of_number? (h : number? cs = some (v, rest)) : ∃ w, cs = w ++ rest ∧ numberValue? w = some v := by
  obtain ⟨negative, ds, hcs, hread, -⟩ := exists_ends_numberPattern cs
  rw [hread] at h
  cases ds with
  | nil => cases h
  | cons c ds =>
    rw [unsigned?, Option.ite_none_right_eq_some] at h
    obtain ⟨hc, h⟩ := h
    obtain ⟨w, hw, hvalue⟩ := exists_of_numberAfter negative (isDigits_cons_takeWhile hc ds) (ds.dropWhile Char.isDigit)
    rw [Option.some.inj h] at hw hvalue
    refine ⟨_, ?_, hvalue⟩
    rw [List.append_assoc, List.append_assoc, ← hw, List.cons_append, List.takeWhile_append_dropWhile]
    exact hcs

end DocStore.Query
