import DocStore.Proofs.Numeric.Neighbours
import Mathlib.Tactic.Linarith

/-!
# Nearest words

A word is nearest to a rational number when no finite word lies closer, and its fraction is even when another value lies
as close (`IsNearest`). All words nearest to one number have one value, since a word lies between two that are tied
(`IsNearest.toRat_eq`), and nearest words stand in the order of their numbers (`IsNearest.toRat_le`).
-/

namespace DocStore.Binary64

variable {v w : Binary64} {x y : ℚ}

/-- A word is nearest to a rational number when it is finite, no finite word lies closer, and its fraction is even when
another value lies as close. -/
structure IsNearest (w : Binary64) (x : ℚ) : Prop where
  isFinite : w.isFinite = true
  abs_sub_le : ∀ v : Binary64, v.isFinite = true → |x - w.toRat| ≤ |x - v.toRat|
  even : ∀ v : Binary64, v.isFinite = true → v.toRat ≠ w.toRat → |x - v.toRat| = |x - w.toRat| → Even w.fraction

/-- A number lies at most halfway from its nearest word up to a higher one. -/
theorem IsNearest.two_mul_le (hw : w.IsNearest x) (hv : v.isFinite = true) (h : w.toRat < v.toRat) :
    2 * x ≤ w.toRat + v.toRat := by
  by_contra hlt
  have hfar : x - w.toRat ≤ |x - w.toRat| := le_abs_self _
  have hnear : |x - v.toRat| < x - w.toRat := abs_lt.mpr ⟨by linarith, by linarith⟩
  linarith [hw.abs_sub_le v hv]

/-- A number lies at least halfway from a lower word up to its nearest one. -/
theorem IsNearest.le_two_mul (hw : w.IsNearest x) (hv : v.isFinite = true) (h : v.toRat < w.toRat) :
    w.toRat + v.toRat ≤ 2 * x := by
  by_contra hlt
  have hfar : w.toRat - x ≤ |x - w.toRat| := abs_sub_comm x w.toRat ▸ le_abs_self _
  have hnear : |x - v.toRat| < w.toRat - x := abs_lt.mpr ⟨by linarith, by linarith⟩
  linarith [hw.abs_sub_le v hv]

theorem IsNearest.not_toRat_lt (hv : v.IsNearest x) (hw : w.IsNearest x) : ¬v.toRat < w.toRat := by
  intro hlt
  have hupper := hv.two_mul_le hw.isFinite hlt
  have hlower := hw.le_two_mul hv.isFinite hlt
  -- both lie as close, so both fractions are even, and a word between them lies closer
  have htie : |x - w.toRat| = |x - v.toRat| := le_antisymm (hw.abs_sub_le v hv.isFinite) (hv.abs_sub_le w hw.isFinite)
  obtain ⟨u, hu, hvu, huw⟩ := exists_toRat_between hv.isFinite hw.isFinite (hv.even w hw.isFinite hlt.ne' htie)
    (hw.even v hv.isFinite hlt.ne htie.symm) hlt
  have hcloser := hv.two_mul_le hu hvu
  linarith

/-- Words that are nearest to one number have one value. -/
theorem IsNearest.toRat_eq (hv : v.IsNearest x) (hw : w.IsNearest x) : v.toRat = w.toRat :=
  le_antisymm (not_lt.mp (hw.not_toRat_lt hv)) (not_lt.mp (hv.not_toRat_lt hw))

/-- Rounding keeps order. -/
theorem IsNearest.toRat_le (hv : v.IsNearest x) (hw : w.IsNearest y) (h : x ≤ y) : v.toRat ≤ w.toRat := by
  by_contra hgt
  have hlower := hv.le_two_mul hw.isFinite (not_le.mp hgt)
  have hupper := hw.two_mul_le hv.isFinite (not_le.mp hgt)
  have heq : x = y := by linarith
  subst heq
  exact hgt (hv.toRat_eq hw).le

/-- A finite word is nearest to its value. -/
theorem isNearest_toRat (h : w.isFinite = true) : w.IsNearest w.toRat where
  isFinite := h
  abs_sub_le v _ := by
    rw [sub_self, abs_zero]
    exact abs_nonneg _
  even v _ hne heq := by
    rw [sub_self, abs_zero, abs_eq_zero, sub_eq_zero] at heq
    exact absurd heq.symm hne

/-- One word alone is nearest to a number that is not rounded to zero. -/
theorem IsNearest.iff_eq (hw : w.IsNearest x) (h0 : w.toRat ≠ 0) : v.IsNearest x ↔ v = w := by
  constructor
  · intro hv
    refine eq_of_toRat_eq hv.isFinite hw.isFinite (hv.toRat_eq hw) fun hzero => h0 ?_
    rw [← units_div_eq_toRat, hzero, Int.cast_zero, zero_div]
  · rintro rfl
    exact hw

end DocStore.Binary64
