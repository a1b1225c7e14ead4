import DocStore.Numeric.Rounding
import DocStore.Proofs.Numeric.Nearest

/-!
# Rounding gives the nearest word

`ofUnits` cuts a quotient to a multiple of the power of two that leaves 53 bits, by rounding to the nearest integer
(`roundHalfEven_nearest`). A finite word is another such multiple, or it has fewer bits and lies below every
quotient that is cut there (`units_eq_mul_or_abs_lt`, `shift_eq_zero_or_le`). So no word lies closer than the rounded one
(`rounded_nearest`), which is the nearest word whenever it is finite (`isNearest_ofUnits`).
-/

namespace DocStore

/-! ## The nearest integer -/

theorem roundHalfEven_cases (n d : Nat) :
    roundHalfEven n d = n / d ∧ (2 * (n % d) < d ∨ 2 * (n % d) = d ∧ Even (n / d)) ∨
      roundHalfEven n d = n / d + 1 ∧ (d < 2 * (n % d) ∨ 2 * (n % d) = d ∧ Even (n / d + 1)) := by
  unfold roundHalfEven
  rw [Nat.even_iff, Nat.even_iff]
  split
  · omega
  · split <;> omega

/-- Rounding to an integer moves a quotient by at most a half, and by a half only to an even integer. -/
theorem abs_sub_roundHalfEven {n d : Nat} (hd : 0 < d) : 2 * |(n : ℤ) - roundHalfEven n d * d| < d ∨
    2 * |(n : ℤ) - roundHalfEven n d * d| = d ∧ Even (roundHalfEven n d) := by
  have hn : (n : ℤ) = (n / d : Nat) * (d : ℤ) + (n % d : Nat) := by
    rw [Int.mul_comm]
    exact_mod_cast (Nat.div_add_mod n d).symm
  have hlt := Nat.mod_lt n hd
  rcases roundHalfEven_cases n d with ⟨hr, hrest⟩ | ⟨hr, hrest⟩
  · have hdiff : (n : ℤ) - roundHalfEven n d * d = (n % d : Nat) := by
      rw [hr]
      linarith only [hn]
    rw [hdiff, Nat.abs_cast, hr]
    rcases hrest with hlow | ⟨htie, heven⟩
    · exact .inl (by omega)
    · exact .inr ⟨by omega, heven⟩
  · have hdiff : (n : ℤ) - roundHalfEven n d * d = -((d - n % d : Nat) : ℤ) := by
      rw [hr, Int.natCast_succ, Int.add_mul, Int.one_mul, Int.natCast_sub hlt.le]
      linarith only [hn]
    rw [hdiff, abs_neg, Nat.abs_cast, hr]
    rcases hrest with hhigh | ⟨htie, heven⟩
    · exact .inl (by omega)
    · exact .inr ⟨by omega, heven⟩

/-- No number lies within less than a half of two multiples of `d`. -/
theorem le_abs_sub_add_abs_sub {n d r t : ℤ} (h : t ≠ r) (hd : 0 ≤ d) : d ≤ |n - r * d| + |n - t * d| := by
  have hone : 1 ≤ |t - r| := Int.one_le_abs (sub_ne_zero.mpr h)
  calc d = 1 * d := (one_mul d).symm
    _ ≤ |t - r| * d := Int.mul_le_mul_of_nonneg_right hone hd
    _ = |(n - r * d) - (n - t * d)| := by
      rw [← abs_of_nonneg hd, ← abs_mul, abs_of_nonneg hd]
      congr 1
      ring
    _ ≤ |n - r * d| + |n - t * d| := abs_sub _ _

/-- Every other integer lies farther from a quotient than the rounded one, or as far, and then the rounded one is even. -/
theorem roundHalfEven_nearest {n d : Nat} (hd : 0 < d) {t : ℤ} (ht : t ≠ roundHalfEven n d) :
    |(n : ℤ) - roundHalfEven n d * d| < |n - t * d| ∨
      |(n : ℤ) - roundHalfEven n d * d| = |n - t * d| ∧ Even (roundHalfEven n d) := by
  have hsum := le_abs_sub_add_abs_sub (n := n) ht (Int.natCast_nonneg d)
  rcases abs_sub_roundHalfEven (n := n) hd with hlt | ⟨htie, heven⟩
  · exact .inl (by omega)
  · rcases Int.lt_or_eq_of_le (show |(n : ℤ) - roundHalfEven n d * d| ≤ |n - t * d| by omega) with hlt | heq
    · exact .inl hlt
    · exact .inr ⟨heq, heven⟩

namespace Binary64

variable {v w : Binary64} {n d : Nat}

/-! ## Significands of 53 bits -/

/-- The significand that `n / d` units are rounded to, in front of the power of two that is cut off. -/
def rounded (n d : Nat) : Nat := roundHalfEven n (d * pow2 (shift (n / d)))

/-- A quotient that is cut keeps 53 bits. -/
theorem shift_eq_zero_or_le (n d : Nat) : shift (n / d) = 0 ∨ pow2 52 * (d * pow2 (shift (n / d))) ≤ n := by
  by_cases hzero : shift (n / d) = 0
  · exact .inl hzero
  · right
    have hlog : (n / d).log2 = 52 + shift (n / d) := by
      unfold shift at hzero ⊢
      omega
    have hne : n / d ≠ 0 := by
      intro h
      rw [h, Nat.log2_zero] at hlog
      omega
    have hle : pow2 (52 + shift (n / d)) ≤ n / d := hlog ▸ Nat.log2_self_le hne
    calc pow2 52 * (d * pow2 (shift (n / d))) = d * pow2 (52 + shift (n / d)) := by
          rw [pow2_add, Nat.mul_left_comm]
      _ ≤ d * (n / d) := Nat.mul_le_mul_left d hle
      _ ≤ n := Nat.mul_div_le n d

theorem div_shift_lt (n d : Nat) : n / (d * pow2 (shift (n / d))) < pow2 53 := by
  rw [← Nat.div_div_eq_div_mul, Nat.div_lt_iff_lt_mul (pow2_pos _), ← pow2_add]
  have hlog : (n / d).log2 + 1 ≤ 53 + shift (n / d) := by
    unfold shift
    omega
  exact Nat.lt_of_lt_of_le Nat.lt_log2_self (pow2_le_pow2 hlog)

theorem rounded_le (n d : Nat) : rounded n d ≤ pow2 53 := by
  have hlt := div_shift_lt n d
  rcases roundHalfEven_cases n (d * pow2 (shift (n / d))) with ⟨hr, -⟩ | ⟨hr, -⟩ <;> rw [rounded, hr] <;> omega

theorem shift_eq_zero_or_le_rounded (hd : 0 < d) : shift (n / d) = 0 ∨ pow2 52 ≤ rounded n d := by
  rcases shift_eq_zero_or_le n d with hzero | hle
  · exact .inl hzero
  · right
    have hquotient : pow2 52 ≤ n / (d * pow2 (shift (n / d))) :=
      (Nat.le_div_iff_mul_le (Nat.mul_pos hd (pow2_pos _))).mpr hle
    rcases roundHalfEven_cases n (d * pow2 (shift (n / d))) with ⟨hr, -⟩ | ⟨hr, -⟩ <;> rw [rounded, hr] <;> omega

/-! ## The rounded word -/

section Rounded

variable {negative : Bool}

theorem rounded_lt_of_isFinite (h : (ofUnits negative n d).isFinite = true) :
    shift (n / d) * pow2 52 + rounded n d < infinityBits := by
  by_contra hge
  have hmin : ofUnits negative n d = ofParts negative infinityBits :=
    congrArg (ofParts negative) (Nat.min_eq_right (Nat.le_of_not_lt hge))
  rw [hmin] at h
  cases negative <;> cases h

theorem ofUnits_of_lt (h : shift (n / d) * pow2 52 + rounded n d < infinityBits) :
    ofUnits negative n d = ofParts negative (shift (n / d) * pow2 52 + rounded n d) :=
  congrArg (ofParts negative) (Nat.min_eq_left h.le)

/-- No quotient below `2 ^ 2097` units is rounded to an infinity. -/
theorem isFinite_ofUnits {e : Nat} (he : e ≤ 2097) (h : n / d < pow2 e) : (ofUnits negative n d).isFinite = true := by
  have hlog : (n / d).log2 ≤ 2096 := by
    rcases Nat.eq_zero_or_pos (n / d) with hzero | hpos
    · rw [hzero, Nat.log2_zero]
      decide
    · have hlt : (n / d).log2 < e := (Nat.log2_lt hpos.ne').mpr h
      omega
  have hshift : shift (n / d) ≤ 2044 := by
    unfold shift
    omega
  have hrounded := rounded_le n d
  have h52 : pow2 52 = 4503599627370496 := rfl
  have h53 : pow2 53 = 9007199254740992 := rfl
  have hinfinity : infinityBits = 9218868437227405312 := rfl
  have hlt : shift (n / d) * pow2 52 + rounded n d < infinityBits := by
    rw [h52]
    omega
  rw [ofUnits_of_lt hlt]
  exact isFinite_ofParts negative hlt

theorem units_ofUnits (hd : 0 < d) (h : (ofUnits negative n d).isFinite = true) :
    (ofUnits negative n d).units =
      if negative then -((rounded n d * pow2 (shift (n / d)) : Nat) : ℤ) else (rounded n d * pow2 (shift (n / d)) : Nat) := by
  have hlt := rounded_lt_of_isFinite h
  rw [ofUnits_of_lt hlt, units, (fields_ofParts negative hlt).1,
    magnitude_ofParts_add negative (rounded_le n d) (shift_eq_zero_or_le_rounded hd) hlt]

theorem even_fraction_ofUnits (h : (ofUnits negative n d).isFinite = true) (heven : Even (rounded n d)) :
    Even (ofUnits negative n d).fraction := by
  have hlt := rounded_lt_of_isFinite h
  have h52 : pow2 52 = 4503599627370496 := rfl
  rw [Nat.even_iff] at heven ⊢
  rw [ofUnits_of_lt hlt, (fields_ofParts negative hlt).2.2, h52]
  omega

end Rounded

/-! ## Distances in units -/

/-- A finite word has a multiple of a given power of two as its units, or fewer units than `2 ^ 52` times that power. -/
theorem units_eq_mul_or_abs_lt (w : Binary64) (k : Nat) :
    (∃ t : ℤ, w.units = t * pow2 k) ∨ |w.units| < pow2 52 * pow2 k := by
  have habs : |w.units| = w.magnitude := by
    unfold units
    split
    · rw [abs_neg, Nat.abs_cast]
    · rw [Nat.abs_cast]
  rcases Nat.lt_or_ge (w.field - 1) k with hlt | hge
  · right
    rw [habs]
    have hmagnitude : w.magnitude < pow2 52 * pow2 k :=
      calc w.significand * pow2 (w.field - 1) < pow2 53 * pow2 (w.field - 1) :=
            Nat.mul_lt_mul_of_pos_right w.significand_lt (pow2_pos _)
        _ = pow2 52 * pow2 (w.field - 1 + 1) := by
          rw [pow2_succ, pow2_succ (w.field - 1), Nat.mul_assoc, Nat.mul_comm 2]
        _ ≤ pow2 52 * pow2 k := Nat.mul_le_mul_left _ (pow2_le_pow2 hlt)
    exact_mod_cast hmagnitude
  · left
    have hmagnitude : (w.magnitude : ℤ) = (w.significand * pow2 (w.field - 1 - k) : Nat) * (pow2 k : Nat) := by
      rw [← Int.natCast_mul, Nat.mul_assoc, ← pow2_add, Nat.sub_add_cancel hge]
      rfl
    unfold units
    split
    · exact ⟨-(w.significand * pow2 (w.field - 1 - k) : Nat), by rw [hmagnitude, Int.neg_mul]⟩
    · exact ⟨_, hmagnitude⟩

/-- The other words lie farther from a quotient than the rounded one, or as far, and then its significand is even. -/
theorem rounded_nearest (hd : 0 < d) {u : ℤ} (hu : u ≠ (rounded n d * pow2 (shift (n / d)) : Nat))
    (hword : (∃ t : ℤ, u = t * pow2 (shift (n / d))) ∨ |u| < pow2 52 * pow2 (shift (n / d))) :
    |(n : ℤ) - (rounded n d * pow2 (shift (n / d)) : Nat) * d| < |n - u * d| ∨
      |(n : ℤ) - (rounded n d * pow2 (shift (n / d)) : Nat) * d| = |n - u * d| ∧ Even (rounded n d) := by
  have hstep : 0 < d * pow2 (shift (n / d)) := Nat.mul_pos hd (pow2_pos _)
  have hmul (t : ℤ) : t * pow2 (shift (n / d)) * d = t * (d * pow2 (shift (n / d)) : Nat) := by
    rw [Int.natCast_mul, Int.mul_assoc, Int.mul_comm (pow2 _ : ℤ)]
  rw [Int.natCast_mul, hmul]
  -- a word of few bits is a multiple too where nothing is cut off
  have hcases : (∃ t : ℤ, u = t * pow2 (shift (n / d))) ∨
      |u| < pow2 52 * pow2 (shift (n / d)) ∧ pow2 52 * (d * pow2 (shift (n / d))) ≤ n := by
    rcases hword with hmultiple | hsmall
    · exact .inl hmultiple
    · rcases shift_eq_zero_or_le n d with hzero | hle
      · exact .inl ⟨u, by rw [hzero]; exact (Int.mul_one u).symm⟩
      · exact .inr ⟨hsmall, hle⟩
  rcases hcases with ⟨t, rfl⟩ | ⟨hsmall, hle⟩
  · have ht : t ≠ rounded n d := by
      intro h
      rw [h, ← Int.natCast_mul] at hu
      exact hu rfl
    rw [hmul]
    exact roundHalfEven_nearest hstep ht
  · left
    have hbelow : u * d < pow2 52 * (d * pow2 (shift (n / d)) : Nat) := by
      rw [← hmul]
      exact Int.mul_lt_mul_of_pos_right ((le_abs_self u).trans_lt hsmall) (Int.natCast_pos.mpr hd)
    have hfar : |(n : ℤ) - pow2 52 * (d * pow2 (shift (n / d)) : Nat)| < |n - u * d| := by
      have hle' : (pow2 52 * (d * pow2 (shift (n / d)) : Nat) : ℤ) ≤ n := by exact_mod_cast hle
      rw [abs_of_nonneg (by omega), abs_of_nonneg (by omega)]
      omega
    by_cases h52 : (pow2 52 : ℤ) = rounded n d
    · exact h52 ▸ hfar
    · rcases roundHalfEven_nearest hstep h52 with hlt | ⟨heq, -⟩
      · exact hlt.trans hfar
      · exact heq.trans_lt hfar

/-! ## Rounding -/

/-- The distance of a word from a quotient of units. -/
theorem abs_sub_toRat (hd : 0 < d) (m : ℤ) (w : Binary64) :
    |(m / d / 2 ^ 1074 : ℚ) - w.toRat| = (|m - w.units * d| : ℤ) / (d * 2 ^ 1074) := by
  have hd' : (0 : ℚ) < d := Nat.cast_pos.mpr hd
  have hscale : (0 : ℚ) < 2 ^ 1074 := pow_pos two_pos 1074
  rw [← units_div_eq_toRat, Int.cast_abs, Int.cast_sub, Int.cast_mul, Int.cast_natCast]
  generalize (2 : ℚ) ^ 1074 = s at hscale ⊢
  rw [← abs_of_pos (mul_pos hd' hscale), ← abs_div, sub_div, div_div, mul_comm (d : ℚ) s,
    mul_div_mul_right _ _ hd'.ne']

/-- The other finite words lie farther from a quotient than the rounded one, or as far, and then its fraction is even. -/
theorem ofUnits_nearest {negative : Bool} (hd : 0 < d) (h : (ofUnits negative n d).isFinite = true)
    (hne : v.units ≠ (ofUnits negative n d).units) {m : ℤ} (hm : m = if negative then -(n : ℤ) else n) :
    |m - (ofUnits negative n d).units * d| < |m - v.units * d| ∨
      |m - (ofUnits negative n d).units * d| = |m - v.units * d| ∧ Even (ofUnits negative n d).fraction := by
  have hword := units_eq_mul_or_abs_lt v (shift (n / d))
  have heven := even_fraction_ofUnits h
  rw [units_ofUnits hd h] at hne ⊢
  subst hm
  cases negative with
  | false =>
    rcases rounded_nearest hd hne hword with hlt | ⟨heq, hr⟩
    · exact .inl hlt
    · exact .inr ⟨heq, heven hr⟩
  | true =>
    -- the opposite words are as far from the opposite quotient
    have hopposite (u : ℤ) : |-(n : ℤ) - u * d| = |n - -u * d| := by
      rw [← abs_neg, Int.neg_mul]
      congr 1
      ring
    have hword' : (∃ t : ℤ, -v.units = t * pow2 (shift (n / d))) ∨ |-v.units| < pow2 52 * pow2 (shift (n / d)) := by
      rw [abs_neg]
      exact hword.imp_left fun ⟨t, ht⟩ => ⟨-t, by rw [ht, Int.neg_mul]⟩
    have hne' : -v.units ≠ (rounded n d * pow2 (shift (n / d)) : Nat) := by
      simp at hne ⊢
      omega
    simp only [if_true, hopposite, Int.neg_neg]
    rcases rounded_nearest hd hne' hword' with hlt | ⟨heq, hr⟩
    · exact .inl hlt
    · exact .inr ⟨heq, heven hr⟩

/-- **Rounding gives the nearest word.** -/
theorem isNearest_ofUnits {negative : Bool} (hd : 0 < d) (h : (ofUnits negative n d).isFinite = true) :
    (ofUnits negative n d).IsNearest ((if negative then -(n : ℤ) else n : ℤ) / d / 2 ^ 1074) := by
  have hscale : (0 : ℚ) < d * 2 ^ 1074 := mul_pos (Nat.cast_pos.mpr hd) (pow_pos two_pos 1074)
  refine ⟨h, fun v hv => ?_, fun v hv hne heq => ?_⟩
  · rw [abs_sub_toRat hd, abs_sub_toRat hd, div_le_div_iff_of_pos_right hscale, Int.cast_le]
    by_cases heq : v.units = (ofUnits negative n d).units
    · rw [heq]
    · rcases ofUnits_nearest hd h heq rfl with hlt | ⟨htie, -⟩
      · exact hlt.le
      · exact htie.le
  · rw [abs_sub_toRat hd, abs_sub_toRat hd, div_left_inj' hscale.ne', Int.cast_inj] at heq
    rcases ofUnits_nearest hd h (mt toRat_inj.mpr hne) rfl with hlt | ⟨-, heven⟩
    · exact absurd heq hlt.ne'
    · exact heven

/-- An integer is rounded to the nearest word. -/
theorem isNearest_ofInt {n : ℤ} (h : (ofInt n).isFinite = true) : (ofInt n).IsNearest n := by
  have hnearest := isNearest_ofUnits Nat.one_pos h
  have hvalue : (if decide (n < 0) then -((n.natAbs * pow2 1074 : Nat) : ℤ) else (n.natAbs * pow2 1074 : Nat)) =
      n * pow2 1074 := by
    rcases lt_or_ge n 0 with hneg | hpos
    · rw [if_pos (decide_eq_true hneg), Int.natCast_mul, Int.ofNat_natAbs_of_nonpos hneg.le, Int.neg_mul, Int.neg_neg]
    · rw [if_neg (by simpa using hpos), Int.natCast_mul, Int.natAbs_of_nonneg hpos]
  rw [hvalue, Nat.cast_one, div_one, Int.cast_mul, Int.cast_natCast, cast_pow2,
    mul_div_cancel_right₀ _ (pow_ne_zero 1074 two_ne_zero)] at hnearest
  exact hnearest

/-- No integer of fewer than 1024 bits is rounded to an infinity. -/
theorem isFinite_ofInt {n : ℤ} {e : Nat} (he : e ≤ 1023) (h : n.natAbs < pow2 e) : (ofInt n).isFinite = true := by
  refine isFinite_ofUnits (e := e + 1074) (by omega) ?_
  rw [Nat.div_one, pow2_add]
  exact Nat.mul_lt_mul_of_pos_right h (pow2_pos 1074)

end Binary64
end DocStore
