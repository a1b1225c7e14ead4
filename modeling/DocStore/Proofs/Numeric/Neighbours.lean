import DocStore.Proofs.Numeric.Whole
import Mathlib.Algebra.Group.Nat.Even

/-!
# Neighbouring words

The exponent field and the fraction of a word, read as one number (`lowBits`), put the finite words of one sign in order:
the word of the next number is the next word away from zero, one unit in the last place further
(`magnitude_ofParts_succ`), so absolute values grow with that number (`magnitude_ofParts_lt`). Two words of even
fractions are therefore never neighbours (`exists_toRat_between`), and every value but zero belongs to one word
(`eq_of_toRat_eq`).
-/

namespace DocStore.Binary64

variable {v w : Binary64} {m n : Nat}

/-! ## A word without its sign -/

/-- The exponent field and the fraction of a word as one number. -/
def lowBits (w : Binary64) : Nat := w.field * pow2 52 + w.fraction

theorem fraction_lt (w : Binary64) : w.fraction < pow2 52 := Nat.mod_lt _ (pow2_pos 52)

theorem lowBits_div (w : Binary64) : w.lowBits / pow2 52 = w.field := by
  rw [lowBits, Nat.mul_comm, Nat.mul_add_div (pow2_pos 52), Nat.div_eq_of_lt w.fraction_lt, Nat.add_zero]

theorem lowBits_mod (w : Binary64) : w.lowBits % pow2 52 = w.fraction := by
  rw [lowBits, Nat.mul_comm, Nat.mul_add_mod, Nat.mod_eq_of_lt w.fraction_lt]

theorem lowBits_lt (h : w.isFinite = true) : w.lowBits < infinityBits := by
  have hfield := field_sub_one_le h
  have hfraction := w.fraction_lt
  have h52 : pow2 52 = 4503599627370496 := rfl
  have hinfinity : infinityBits = 9218868437227405312 := rfl
  rw [lowBits]
  rw [h52] at hfraction ⊢
  omega

theorem even_lowBits_iff (w : Binary64) : Even w.lowBits ↔ Even w.fraction := by
  have h52 : pow2 52 = 4503599627370496 := rfl
  rw [← lowBits_mod, Nat.even_iff, Nat.even_iff, h52]
  omega

/-- A word is its sign and the number of its other bits. -/
theorem ofParts_lowBits (w : Binary64) : ofParts w.isNegative w.lowBits = w := by
  have h52 : pow2 52 = 4503599627370496 := rfl
  have h63 : pow2 63 = 9223372036854775808 := rfl
  have h11 : pow2 11 = 2048 := rfl
  obtain ⟨bits⟩ := w
  have hbits : bits.toNat < 18446744073709551616 := bits.toNat_lt
  unfold ofParts lowBits isNegative field fraction
  rw [h52, h63, h11]
  congr 1
  apply UInt64.toNat_inj.mp
  by_cases hs : 9223372036854775808 ≤ bits.toNat
  · simp [hs]
    omega
  · simp [hs]
    omega

theorem magnitude_ofParts_lowBits (negative : Bool) (h : w.isFinite = true) :
    (ofParts negative w.lowBits).magnitude = w.magnitude := by
  rw [magnitude_ofParts negative (lowBits_lt h), lowBits_div, lowBits_mod, magnitude, significand]

/-! ## The next word -/

/-- The next word away from zero lies one unit in the last place further. -/
theorem magnitude_ofParts_succ (negative : Bool) (h : n + 1 < infinityBits) :
    (ofParts negative (n + 1)).magnitude = (ofParts negative n).magnitude + pow2 (n / pow2 52 - 1) := by
  have h52 : pow2 52 = 4503599627370496 := rfl
  rw [magnitude_ofParts negative h, magnitude_ofParts negative (by omega), h52]
  by_cases hcarry : n % 4503599627370496 = 4503599627370495
  · -- the fraction is full, so the exponent field takes the carry
    have hfield : (n + 1) / 4503599627370496 = n / 4503599627370496 + 1 := by omega
    have hfraction : (n + 1) % 4503599627370496 = 0 := by omega
    rw [hfield, hfraction, hcarry, if_neg (Nat.succ_ne_zero _), Nat.add_sub_cancel]
    cases n / 4503599627370496 with
    | zero => rfl
    | succ e =>
      rw [if_neg e.succ_ne_zero, Nat.add_sub_cancel, pow2_succ]
      omega
  · have hfield : (n + 1) / 4503599627370496 = n / 4503599627370496 := by omega
    have hfraction : (n + 1) % 4503599627370496 = n % 4503599627370496 + 1 := by omega
    rw [hfield, hfraction]
    split
    · rw [Nat.succ_mul]
    · rw [← Nat.add_assoc, Nat.succ_mul]

theorem magnitude_ofParts_lt (negative : Bool) (h : m < n) (hn : n < infinityBits) :
    (ofParts negative m).magnitude < (ofParts negative n).magnitude := by
  induction h with
  | refl =>
    rw [magnitude_ofParts_succ negative hn]
    exact Nat.lt_add_of_pos_right (pow2_pos _)
  | step _ ih =>
    rw [magnitude_ofParts_succ negative hn]
    exact Nat.lt_add_right _ (ih (by omega))

theorem lowBits_le_of_magnitude_le (hv : v.isFinite = true) (hw : w.isFinite = true) (h : v.magnitude ≤ w.magnitude) :
    v.lowBits ≤ w.lowBits := by
  rw [← magnitude_ofParts_lowBits false hv, ← magnitude_ofParts_lowBits false hw] at h
  by_contra hgt
  exact absurd h (Nat.not_le_of_lt (magnitude_ofParts_lt false (Nat.lt_of_not_le hgt) (lowBits_lt hv)))

/-! ## Words of one value -/

theorem toRat_lt_iff : v.toRat < w.toRat ↔ v.units < w.units := by
  rw [← units_div_eq_toRat, ← units_div_eq_toRat, div_lt_div_iff_of_pos_right (pow_pos two_pos 1074), Int.cast_lt]

theorem toRat_inj : v.toRat = w.toRat ↔ v.units = w.units := by
  rw [← units_div_eq_toRat, ← units_div_eq_toRat, div_left_inj' (pow_ne_zero 1074 two_ne_zero), Int.cast_inj]

theorem units_eq_magnitude (h : 0 ≤ w.units) : w.units = w.magnitude := by
  unfold units at h ⊢
  split at h
  · rw [if_pos ‹_›]
    omega
  · rw [if_neg ‹_›]

theorem units_eq_neg_magnitude (h : w.units ≤ 0) : w.units = -w.magnitude := by
  unfold units at h ⊢
  split at h
  · rw [if_pos ‹_›]
  · rw [if_neg ‹_›]
    omega

theorem isNegative_of_units_ne_zero (h : w.units ≠ 0) : w.isNegative = decide (w.units < 0) := by
  unfold units at h ⊢
  cases w.isNegative with
  | true =>
    simp at h ⊢
    omega
  | false => simp

/-- Finite words of one value that is not zero are one word. -/
theorem eq_of_toRat_eq (hv : v.isFinite = true) (hw : w.isFinite = true) (h : v.toRat = w.toRat) (h0 : w.units ≠ 0) :
    v = w := by
  rw [toRat_inj] at h
  have hmagnitude : v.magnitude = w.magnitude := by
    rcases Int.le_total 0 w.units with hle | hle
    · have := units_eq_magnitude hle
      have := units_eq_magnitude (h ▸ hle)
      omega
    · have := units_eq_neg_magnitude hle
      have := units_eq_neg_magnitude (h ▸ hle)
      omega
  have hlow : v.lowBits = w.lowBits := Nat.le_antisymm (lowBits_le_of_magnitude_le hv hw (Nat.le_of_eq hmagnitude))
    (lowBits_le_of_magnitude_le hw hv (Nat.le_of_eq hmagnitude.symm))
  rw [← ofParts_lowBits v, ← ofParts_lowBits w, hlow, isNegative_of_units_ne_zero h0,
    isNegative_of_units_ne_zero (h ▸ h0), h]

/-! ## Words between words -/

/-- Between the absolute values of two words of even fractions lies that of another word, of either sign. -/
theorem exists_magnitude_between (negative : Bool) (hv : v.isFinite = true) (hw : w.isFinite = true)
    (hveven : Even v.fraction) (hweven : Even w.fraction) (h : v.magnitude < w.magnitude) :
    ∃ u : Binary64, u.isFinite = true ∧ u.isNegative = negative ∧ v.magnitude < u.magnitude ∧
      u.magnitude < w.magnitude := by
  have hwlt := lowBits_lt hw
  have hlt : v.lowBits < w.lowBits := by
    refine Nat.lt_of_le_of_ne (lowBits_le_of_magnitude_le hv hw (Nat.le_of_lt h)) fun heq => ?_
    rw [← magnitude_ofParts_lowBits false hv, ← magnitude_ofParts_lowBits false hw, heq] at h
    exact absurd h (Nat.lt_irrefl _)
  -- two even numbers do not follow each other
  rw [← even_lowBits_iff, Nat.even_iff] at hveven hweven
  have hnext : v.lowBits + 1 < w.lowBits := by omega
  refine ⟨ofParts negative (v.lowBits + 1), isFinite_ofParts negative (hnext.trans hwlt),
    (fields_ofParts negative (hnext.trans hwlt)).1, ?_, ?_⟩
  · rw [← magnitude_ofParts_lowBits negative hv]
    exact magnitude_ofParts_lt negative (Nat.lt_succ_self _) (hnext.trans hwlt)
  · rw [← magnitude_ofParts_lowBits negative hw]
    exact magnitude_ofParts_lt negative hnext hwlt

/-- Between two words of even fractions lies another word. -/
theorem exists_toRat_between (hv : v.isFinite = true) (hw : w.isFinite = true) (hveven : Even v.fraction)
    (hweven : Even w.fraction) (h : v.toRat < w.toRat) :
    ∃ u : Binary64, u.isFinite = true ∧ v.toRat < u.toRat ∧ u.toRat < w.toRat := by
  simp only [toRat_lt_iff] at h ⊢
  by_cases hvpos : 0 ≤ v.units
  · have hvunits := units_eq_magnitude hvpos
    have hwunits := units_eq_magnitude (Int.le_of_lt (Int.lt_of_le_of_lt hvpos h))
    obtain ⟨u, hu, hsign, hlo, hhi⟩ := exists_magnitude_between false hv hw hveven hweven (by omega)
    have huunits : u.units = u.magnitude := by simp [units, hsign]
    exact ⟨u, hu, by omega, by omega⟩
  by_cases hwneg : w.units ≤ 0
  · have hvunits := units_eq_neg_magnitude (Int.le_of_lt (Int.lt_of_lt_of_le h hwneg))
    have hwunits := units_eq_neg_magnitude hwneg
    obtain ⟨u, hu, hsign, hlo, hhi⟩ := exists_magnitude_between true hw hv hweven hveven (by omega)
    have huunits : u.units = -u.magnitude := by simp [units, hsign]
    exact ⟨u, hu, by omega, by omega⟩
  · -- the two words stand on both sides of zero
    have hzero : (⟨0⟩ : Binary64).units = 0 := rfl
    exact ⟨⟨0⟩, rfl, by omega, by omega⟩

end DocStore.Binary64
