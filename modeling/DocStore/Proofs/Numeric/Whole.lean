import DocStore.Proofs.Numeric.Exact
import Mathlib.Data.Rat.Floor

/-!
# Whole parts are words

An integer is compared with a finite word by the whole part of the word and then by what the word has beyond it. Both are
again multiples of the power of two that the word is a multiple of, with no larger factor (`exists_div_mod_pow2`), and
every such multiple is the value of some word (`exists_units_eq`). So cutting a word in two takes no rounding
(`exists_toRat_eq`).
-/

namespace DocStore.Binary64

variable {w : Binary64} {low m k r : Nat}

/-! ## Words put together -/

/-- The fields of a word that is put together from them. -/
theorem fields_ofParts (negative : Bool) (h : low < infinityBits) :
    (ofParts negative low).isNegative = negative ∧ (ofParts negative low).field = low / pow2 52 ∧
      (ofParts negative low).fraction = low % pow2 52 := by
  have h52 : pow2 52 = 4503599627370496 := rfl
  have h63 : pow2 63 = 9223372036854775808 := rfl
  have h11 : pow2 11 = 2048 := rfl
  have hlow : low < 9218868437227405312 := h
  have hbits : (ofParts negative low).bits.toNat = if negative then 9223372036854775808 + low else low := by
    unfold ofParts
    rw [h63, UInt64.toNat_ofNat_of_lt']
    cases negative <;> simp [UInt64.size] <;> omega
  unfold isNegative field fraction
  rw [hbits, h52, h63, h11]
  cases negative <;> simp <;> omega

theorem isFinite_ofParts (negative : Bool) (h : low < infinityBits) : (ofParts negative low).isFinite = true := by
  have hlt : low / pow2 52 < 2047 := Nat.div_lt_of_lt_mul (Nat.mul_comm 2047 _ ▸ h)
  rw [isFinite, (fields_ofParts negative h).2.1]
  exact bne_iff_ne.mpr (Nat.ne_of_lt hlt)

theorem magnitude_ofParts (negative : Bool) (h : low < infinityBits) : (ofParts negative low).magnitude =
    (if low / pow2 52 = 0 then low % pow2 52 else pow2 52 + low % pow2 52) * pow2 (low / pow2 52 - 1) := by
  obtain ⟨-, hfield, hfraction⟩ := fields_ofParts negative h
  rw [magnitude, significand, hfield, hfraction]

/-- A significand of 53 bits behind its power of two makes a word of their product, also when it carries. -/
theorem magnitude_ofParts_add (negative : Bool) (hr : r ≤ pow2 53) (hk : k = 0 ∨ pow2 52 ≤ r)
    (h : k * pow2 52 + r < infinityBits) : (ofParts negative (k * pow2 52 + r)).magnitude = r * pow2 k := by
  have h52 : pow2 52 = 4503599627370496 := rfl
  have h53 : pow2 53 = 9007199254740992 := rfl
  rw [magnitude_ofParts negative h]
  rw [h52] at hk ⊢
  rw [h53] at hr
  by_cases hsmall : r < 4503599627370496
  · have hzero : k = 0 := by omega
    rw [hzero, Nat.zero_mul, Nat.zero_add, Nat.div_eq_of_lt hsmall, Nat.mod_eq_of_lt hsmall]
    rfl
  by_cases hcarry : r = 9007199254740992
  · have hfield : (k * 4503599627370496 + r) / 4503599627370496 = k + 2 := by omega
    have hfraction : (k * 4503599627370496 + r) % 4503599627370496 = 0 := by omega
    rw [hfield, hfraction, if_neg (k + 1).succ_ne_zero, hcarry]
    show 4503599627370496 * pow2 (k + 1) = _
    rw [pow2_succ]
    omega
  · have hfield : (k * 4503599627370496 + r) / 4503599627370496 = k + 1 := by omega
    have hfraction : (k * 4503599627370496 + r) % 4503599627370496 = r - 4503599627370496 := by omega
    rw [hfield, hfraction, if_neg k.succ_ne_zero, Nat.add_sub_cancel, Nat.add_sub_cancel' (by omega)]

/-- Up to 53 bits times a power of two are the magnitude of a word of either sign. -/
theorem exists_magnitude_eq (hm : m < pow2 53) (hk : k ≤ 2045) :
    ∃ low, low < infinityBits ∧ ∀ negative, (ofParts negative low).magnitude = m * pow2 k := by
  have h52 : pow2 52 = 4503599627370496 := rfl
  have h53 : pow2 53 = 9007199254740992 := rfl
  have hinfinity : infinityBits = 9218868437227405312 := rfl
  have hlow {m k : Nat} (hm : m < pow2 53) (hk : k ≤ 2045) : k * pow2 52 + m < infinityBits := by
    rw [h52]
    omega
  induction k generalizing m with
  | zero => exact ⟨_, hlow hm hk, fun negative => magnitude_ofParts_add negative hm.le (.inl rfl) (hlow hm hk)⟩
  | succ k ih =>
    by_cases hbig : m < pow2 52
    · -- one more bit is free, so the power can be smaller
      obtain ⟨low, hlt, hmagnitude⟩ := ih (m := m * 2) (by omega) (by omega)
      refine ⟨low, hlt, fun negative => (hmagnitude negative).trans ?_⟩
      rw [Nat.mul_assoc, Nat.mul_comm 2, ← pow2_succ]
    · -- the first of all 53 bits is the hidden one
      exact ⟨_, hlow hm hk, fun negative =>
        magnitude_ofParts_add negative hm.le (.inr (Nat.le_of_not_lt hbig)) (hlow hm hk)⟩

/-- Up to 53 bits times a power of two are, with either sign, the units of a finite word. -/
theorem exists_units_eq (negative : Bool) (hm : m < pow2 53) (hk : k ≤ 2045) :
    ∃ v : Binary64, v.isFinite = true ∧ v.units = if negative then -((m * pow2 k : Nat) : ℤ) else (m * pow2 k : Nat) := by
  obtain ⟨low, hlow, hmagnitude⟩ := exists_magnitude_eq hm hk
  refine ⟨ofParts negative low, isFinite_ofParts negative hlow, ?_⟩
  rw [units, (fields_ofParts negative hlow).1, hmagnitude]

/-! ## Cutting a word in two -/

/-- What a power of two leaves of a multiple of another one, above and below, are multiples of that one. -/
theorem exists_div_mod_pow2 (a j n : Nat) : ∃ b c, b ≤ a ∧ c ≤ a ∧ a * pow2 j / pow2 n * pow2 n = b * pow2 j ∧
    a * pow2 j % pow2 n = c * pow2 j := by
  rcases Nat.le_total n j with h | h
  · have hdvd : pow2 n ∣ a * pow2 j := Dvd.dvd.mul_left (Nat.pow_dvd_pow 2 h) a
    refine ⟨a, 0, Nat.le_refl a, Nat.zero_le a, Nat.div_mul_cancel hdvd, ?_⟩
    rw [Nat.mod_eq_zero_of_dvd hdvd, Nat.zero_mul]
  · have hn : pow2 n = pow2 (n - j) * pow2 j := (Nat.pow_sub_mul_pow 2 h).symm
    refine ⟨a / pow2 (n - j) * pow2 (n - j), a % pow2 (n - j), Nat.div_mul_le_self .., Nat.mod_le .., ?_, ?_⟩
    · rw [hn, Nat.mul_div_mul_right _ _ (pow2_pos j), Nat.mul_assoc]
    · rw [hn, Nat.mul_mod_mul_right]

theorem significand_lt (w : Binary64) : w.significand < pow2 53 := by
  have hfraction : w.fraction < pow2 52 := Nat.mod_lt _ (pow2_pos 52)
  have h52 : pow2 52 = 4503599627370496 := rfl
  have h53 : pow2 53 = 9007199254740992 := rfl
  unfold significand
  split <;> omega

theorem field_sub_one_le (h : w.isFinite = true) : w.field - 1 ≤ 2045 := by
  have hfield : w.field < pow2 11 := Nat.mod_lt _ (pow2_pos 11)
  have h11 : pow2 11 = 2048 := rfl
  have hne : w.field ≠ 2047 := bne_iff_ne.mp h
  omega

/-- The whole part of a finite word and what it has beyond it are the units of finite words. -/
theorem exists_whole_rest (h : w.isFinite = true) : ∃ t r : Binary64, t.isFinite = true ∧ r.isFinite = true ∧
    t.units = w.units.tdiv (pow2 1074) * pow2 1074 ∧ r.units = w.units.tmod (pow2 1074) := by
  obtain ⟨b, c, hb, hc, hdiv, hmod⟩ := exists_div_mod_pow2 w.significand (w.field - 1) 1074
  have hlt := significand_lt w
  have hfield := field_sub_one_le h
  obtain ⟨t, htfinite, ht⟩ := exists_units_eq w.isNegative (Nat.lt_of_le_of_lt hb hlt) hfield
  obtain ⟨r, hrfinite, hr⟩ := exists_units_eq w.isNegative (Nat.lt_of_le_of_lt hc hlt) hfield
  refine ⟨t, r, htfinite, hrfinite, ?_, ?_⟩
  · rw [ht, ← hdiv]
    unfold units magnitude
    split
    · rw [Int.neg_tdiv, Int.neg_mul]
      rfl
    · rfl
  · rw [hr, ← hmod]
    unfold units magnitude
    split
    · rw [Int.neg_tmod]
      rfl
    · rfl

/-- The whole part of a finite word is the next integer towards zero. -/
theorem tdiv_units (w : Binary64) :
    w.units.tdiv (pow2 1074) = if w.isNegative then ⌈w.toRat⌉ else ⌊w.toRat⌋ := by
  have hfloor : ⌊w.absRat⌋ = ((w.magnitude / pow2 1074 : Nat) : ℤ) := by
    rw [← magnitude_div_eq_absRat, ← cast_pow2, Rat.floor_natCast_div_natCast]
    rfl
  unfold units toRat
  split
  · rw [Int.ceil_neg, hfloor, Int.neg_tdiv]
    rfl
  · rw [hfloor]
    rfl

/-- A finite word is cut into a whole number and a rest that are words themselves. -/
theorem exists_toRat_eq (h : w.isFinite = true) : ∃ t r : Binary64, t.isFinite = true ∧ r.isFinite = true ∧
    t.toRat = ((if w.isNegative then ⌈w.toRat⌉ else ⌊w.toRat⌋ : ℤ) : ℚ) ∧ r.toRat = w.toRat - t.toRat := by
  obtain ⟨t, r, htfinite, hrfinite, ht, hr⟩ := exists_whole_rest h
  have hsum : r.units = w.units - t.units := by
    rw [hr, ht]
    have := Int.tdiv_mul_add_tmod w.units (pow2 1074)
    omega
  refine ⟨t, r, htfinite, hrfinite, ?_, ?_⟩
  · rw [← tdiv_units, ← units_div_eq_toRat, ht, Int.cast_mul, Int.cast_natCast, cast_pow2,
      mul_div_cancel_right₀ _ (pow_ne_zero 1074 two_ne_zero)]
  · rw [← units_div_eq_toRat, ← units_div_eq_toRat, ← units_div_eq_toRat, hsum, Int.cast_sub, sub_div]

end DocStore.Binary64
