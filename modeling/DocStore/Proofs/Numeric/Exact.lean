import DocStore.Proofs.Numeric.Order
import Mathlib.Algebra.Order.Field.Basic
import Mathlib.Algebra.Order.Field.Rat
import Mathlib.Data.Rat.Cast.Order
import Mathlib.Order.Compare
import Mathlib.Order.WithBot

/-!
# Exact values of numbers

A finite word denotes the rational number that its fields spell (`Binary64.toRat`), and its units are that number counted
in `2 ^ -1074` (`Binary64.units_div_eq_toRat`). So the number line on which numbers are compared is that of the rational
numbers between two infinities (`ExtendedNumber.compare_eq_cmp_value`), with integers and words at their exact values
(`Number.value_point_int`, `Number.value_point_float`).
-/

namespace DocStore

namespace Binary64

/-! ## Values of words -/

/-- The absolute value that the fields of a finite word spell: a fraction of 52 bits, behind a one unless the exponent
field is zero, times a power of two. -/
def absRat (w : Binary64) : ℚ :=
  if w.field = 0 then w.fraction / 2 ^ 52 * 2 ^ (-1022 : ℤ)
  else (1 + w.fraction / 2 ^ 52) * 2 ^ ((w.field : ℤ) - 1023)

/-- The rational number that a finite word denotes. -/
def toRat (w : Binary64) : ℚ := if w.isNegative then -w.absRat else w.absRat

/-- The value of a word that denotes a number or an infinity. -/
def value (w : Binary64) : WithBot (WithTop ℚ) :=
  if w.isFinite then ((w.toRat : WithTop ℚ) : WithBot (WithTop ℚ)) else if w.isNegative then ⊥ else ⊤

theorem cast_pow2 (n : Nat) : ((pow2 n : Nat) : ℚ) = 2 ^ n := by
  show ((2 ^ n : Nat) : ℚ) = 2 ^ n
  rw [Nat.cast_pow, Nat.cast_ofNat]

theorem magnitude_div_eq_absRat (w : Binary64) : (w.magnitude : ℚ) / 2 ^ 1074 = w.absRat := by
  have hscale : (2 : ℚ) ^ 1074 = 2 ^ 52 * 2 ^ 1022 := by rw [← pow_add]
  have hone : (2 : ℚ) ^ 52 ≠ 0 := pow_ne_zero 52 two_ne_zero
  unfold magnitude significand absRat
  rw [hscale]
  -- the powers are kept as letters, so that nothing computes them
  cases w.field with
  | zero =>
    rw [if_pos rfl, if_pos rfl, zpow_neg, zpow_ofNat, Nat.zero_sub]
    generalize (2 : ℚ) ^ 1022 = s
    generalize (2 : ℚ) ^ 52 = u
    simp only [pow2, Nat.pow_eq, pow_zero, mul_one]
    rw [div_mul_eq_div_div, div_eq_mul_inv _ s]
  | succ e =>
    have hexponent : ((e + 1 : Nat) : ℤ) - 1023 = (e : ℤ) - 1022 := by omega
    rw [if_neg e.succ_ne_zero, if_neg e.succ_ne_zero, hexponent, zpow_sub₀ two_ne_zero, zpow_natCast, zpow_ofNat,
      Nat.cast_mul, Nat.cast_add, cast_pow2, cast_pow2, Nat.add_sub_cancel]
    generalize (2 : ℚ) ^ 1022 = s
    generalize (2 : ℚ) ^ 52 = u at hone ⊢
    rw [mul_div_mul_comm, add_div, div_self hone]

/-- The units of a finite word are its value counted in `2 ^ -1074`. -/
theorem units_div_eq_toRat (w : Binary64) : (w.units : ℚ) / 2 ^ 1074 = w.toRat := by
  unfold units toRat
  split
  · rw [← magnitude_div_eq_absRat, Int.cast_neg, Int.cast_natCast, neg_div]
  · rw [← magnitude_div_eq_absRat, Int.cast_natCast]

end Binary64

/-! ## The number line -/

namespace ExtendedNumber

variable {a b : ExtendedNumber}

/-- The value of a point, which is not looked at for the point of no number. -/
def value : ExtendedNumber → WithBot (WithTop ℚ)
  | negInfinity => ⊥
  | finite units => ((units / 2 ^ 1074 : ℚ) : WithTop ℚ)
  | posInfinity => ⊤
  | notANumber => ⊤

theorem value_finite_lt {m n : ℤ} (hmn : m < n) : (finite m).value < (finite n).value := by
  refine WithBot.coe_lt_coe.mpr (WithTop.coe_lt_coe.mpr ?_)
  exact div_lt_div_of_pos_right (Int.cast_lt.mpr hmn) (pow_pos two_pos 1074)

/-- Points of numbers and infinities are ordered by their values. -/
theorem compare_eq_cmp_value (ha : a ≠ notANumber) (hb : b ≠ notANumber) : compare a b = cmp a.value b.value := by
  have hbot (u : ℤ) : ⊥ < (finite u).value := WithBot.bot_lt_coe _
  have htop (u : ℤ) : (finite u).value < ⊤ := WithBot.coe_lt_coe.mpr (WithTop.coe_lt_top _)
  cases a with
  | notANumber => exact absurd rfl ha
  | negInfinity =>
    cases b with
    | notANumber => exact absurd rfl hb
    | negInfinity => exact (cmp_self_eq_eq _).symm
    | finite v => exact ((cmp_eq_lt_iff _ _).mpr (hbot v)).symm
    | posInfinity => exact ((cmp_eq_lt_iff _ _).mpr bot_lt_top).symm
  | posInfinity =>
    cases b with
    | notANumber => exact absurd rfl hb
    | negInfinity => exact ((cmp_eq_gt_iff _ _).mpr bot_lt_top).symm
    | finite v => exact ((cmp_eq_gt_iff _ _).mpr (htop v)).symm
    | posInfinity => exact (cmp_self_eq_eq _).symm
  | finite u =>
    cases b with
    | notANumber => exact absurd rfl hb
    | negInfinity => exact ((cmp_eq_gt_iff _ _).mpr (hbot u)).symm
    | posInfinity => exact ((cmp_eq_lt_iff _ _).mpr (htop u)).symm
    | finite v =>
      have hmono : StrictMono fun units : ℤ => (finite units).value := fun m n => value_finite_lt
      exact (cmp_eq_compare u v).symm.trans (hmono.cmp_map_eq u v).symm

end ExtendedNumber

namespace Number

theorem value_point_int (i : Int64) : (int i).point.value = (((i.toInt : ℚ) : WithTop ℚ) : WithBot (WithTop ℚ)) := by
  have hscale : (((i.toInt * (pow2 1074 : ℕ) : ℤ) : ℚ) / 2 ^ 1074) = i.toInt := by
    rw [Int.cast_mul, Int.cast_natCast, Binary64.cast_pow2, mul_div_assoc, div_self (pow_ne_zero 1074 two_ne_zero), mul_one]
  show (((_ : ℚ) : WithTop ℚ) : WithBot (WithTop ℚ)) = _
  rw [hscale]

theorem value_point_float {w : Binary64} (h : w.isNaN = false) : (float w).point.value = w.value := by
  show w.extended.value = w.value
  unfold Binary64.extended Binary64.value
  by_cases hf : w.isFinite = true
  · rw [if_pos hf, if_pos hf, ← Binary64.units_div_eq_toRat]
    rfl
  · rw [if_neg hf, if_neg hf, h, if_neg Bool.false_ne_true]
    split <;> rfl

end Number

end DocStore
