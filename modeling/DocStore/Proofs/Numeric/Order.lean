import DocStore.Numeric.Number

/-!
# The order of numbers

Numbers are compared in four ways, by how the two are stored. All four are the one order of the extended number line
(`order_eq_compare_point`), so the order of numbers is total. The case with an argument is an integer against a word:
comparing with the whole part and then with the rest is comparing with the word (`compare_mul_eq_tdiv_then_tmod`), and
an integer of 64 bits does not see that the whole part is kept within 128 bits (`compare_clamp`).
-/

namespace DocStore

/-! ## The number line -/

namespace ExtendedNumber

/-- The order of the number line is total. -/
instance : Std.TransOrd ExtendedNumber :=
  inferInstanceAs (Std.TransCmp (compareLex (compareOn rank) (compareOn position)))

theorem compare_of_rank_ne {a b : ExtendedNumber} (h : a.rank ≠ b.rank) : compare a b = compare a.rank b.rank := by
  show (compare a.rank b.rank).then (compare a.position b.position) = compare a.rank b.rank
  cases hc : compare a.rank b.rank with
  | eq => exact absurd (Nat.compare_eq_eq.mp hc) h
  | lt => rfl
  | gt => rfl

end ExtendedNumber

/-! ## Powers of two -/

theorem pow2_pos (n : Nat) : 0 < pow2 n := Nat.pow_pos (by decide)

theorem pow2_succ (n : Nat) : pow2 (n + 1) = pow2 n * 2 := rfl

theorem pow2_add (m n : Nat) : pow2 (m + n) = pow2 m * pow2 n := Nat.pow_add 2 m n

theorem pow2_le_pow2 {m n : Nat} (h : m ≤ n) : pow2 m ≤ pow2 n := Nat.pow_le_pow_right Nat.two_pos h

/-! ## Whole parts -/

/-- Two pairs of integers that stand in the same relations compare alike. -/
theorem compare_eq_of_iff {a b c d : Int} (hlt : a < b ↔ c < d) (hgt : b < a ↔ d < c) : compare a b = compare c d := by
  simp only [Int.compare_eq_ite_lt, hlt, hgt]

theorem compare_mul_right {d : Int} (hd : 0 < d) (m n : Int) : compare (m * d) (n * d) = compare m n :=
  compare_eq_of_iff (Int.mul_lt_mul_right hd) (Int.mul_lt_mul_right hd)

/-- A multiple of `d` is compared with `u` by the quotient of `u` and, where that is equal, by the remainder. -/
theorem compare_mul_eq_tdiv_then_tmod {d : Int} (hd : 0 < d) (n u : Int) :
    compare (n * d) u = (compare n (u.tdiv d)).then (compare 0 (u.tmod d)) := by
  have hu : u = u.tdiv d * d + u.tmod d := (Int.tdiv_mul_add_tmod u d).symm
  have hr : u.tmod d < d := Int.tmod_lt_of_pos u hd
  have hr' : -d < u.tmod d := Int.lt_tmod_of_pos u hd
  generalize u.tdiv d = q at hu ⊢
  generalize u.tmod d = r at hu hr hr' ⊢
  subst hu
  cases hc : compare n q with
  | lt =>
    have h : (n + 1) * d ≤ q * d := Int.mul_le_mul_of_nonneg_right (Int.compare_eq_lt.mp hc) (Int.le_of_lt hd)
    rw [Int.add_mul, Int.one_mul] at h
    rw [Int.compare_eq_lt.mpr (by omega)]; rfl
  | gt =>
    have h : (q + 1) * d ≤ n * d := Int.mul_le_mul_of_nonneg_right (Int.compare_eq_gt.mp hc) (Int.le_of_lt hd)
    rw [Int.add_mul, Int.one_mul] at h
    rw [Int.compare_eq_gt.mpr (by omega)]; rfl
  | eq =>
    rw [Int.compare_eq_eq.mp hc, Ordering.eq_then]
    exact compare_eq_of_iff (by omega) (by omega)

/-- An integer inside a range does not see another one being kept within the range. -/
theorem compare_clamp {lo hi n q : Int} (hlo : lo < n) (hhi : n < hi) : compare n (max lo (min q hi)) = compare n q :=
  compare_eq_of_iff (by omega) (by omega)

/-! ## Words -/

namespace Binary64

theorem isNaN_eq_true_iff {w : Binary64} : w.isNaN = true ↔ w.extended = .notANumber := by
  unfold extended isFinite isNaN
  cases hf : w.field == 2047 <;> cases hs : w.fraction != 0 <;> cases hn : w.isNegative <;> simp_all

/-- The point of a word that denotes a number or an infinity lies below that of no number. -/
theorem rank_lt_of_isNaN_eq_false {w : Binary64} (h : w.isNaN = false) : w.extended.rank < 3 := by
  have hne : w.extended ≠ .notANumber := fun he => by rw [isNaN_eq_true_iff.mpr he] at h; cases h
  cases hw : w.extended with
  | notANumber => exact absurd hw hne
  | negInfinity | finite | posInfinity => simp [ExtendedNumber.rank]

end Binary64

/-! ## Numbers -/

namespace Number

/-- Integers stand in the range of 128 bits with sign, with room on both sides. -/
theorem toInt_mem_range (i : Int64) : -(pow2 127 : Int) < i.toInt ∧ i.toInt < pow2 127 - 1 := by
  have h1 := Int64.le_toInt i
  have h2 := Int64.toInt_lt i
  have h3 : (pow2 127 : Int) = 2 ^ 127 := rfl
  omega

theorem compare_toInt (i j : Int64) : compare i j = compare i.toInt j.toInt := by
  show compareOfLessAndEq i j = compareOfLessAndEq i.toInt j.toInt
  simp only [compareOfLessAndEq, Int64.lt_iff_toInt_lt, ← Int64.toInt_inj]

theorem orderFloats_eq (v w : Binary64) : orderFloats v w = compare v.extended w.extended := by
  unfold orderFloats
  cases hv : v.isNaN <;> cases hw : w.isNaN
  · rfl
  · have hr := Binary64.rank_lt_of_isNaN_eq_false hv
    rw [Binary64.isNaN_eq_true_iff.mp hw, ExtendedNumber.compare_of_rank_ne (Nat.ne_of_lt hr)]
    exact (Nat.compare_eq_lt.mpr hr).symm
  · have hr := Binary64.rank_lt_of_isNaN_eq_false hw
    rw [Binary64.isNaN_eq_true_iff.mp hv, ExtendedNumber.compare_of_rank_ne (Nat.ne_of_gt hr)]
    exact (Nat.compare_eq_gt.mpr hr).symm
  · rw [Binary64.isNaN_eq_true_iff.mp hv, Binary64.isNaN_eq_true_iff.mp hw]
    rfl

theorem orderIntFloat_eq (i : Int64) (w : Binary64) : orderIntFloat i w = compare (int i).point w.extended := by
  obtain ⟨hlo, hhi⟩ := toInt_mem_range i
  unfold orderIntFloat
  by_cases hn : w.isNaN = true
  · rw [if_pos hn, Binary64.isNaN_eq_true_iff.mp hn]
    rfl
  · rw [if_neg hn]
    unfold Binary64.whole Binary64.rest Binary64.extended
    by_cases hf : w.isFinite = true
    · rw [if_pos hf, if_pos hf, if_pos hf, compare_clamp hlo hhi]
      exact (compare_mul_eq_tdiv_then_tmod (Int.natCast_pos.mpr (pow2_pos 1074)) i.toInt w.units).symm
    · rw [if_neg hf, if_neg hf, if_neg hf, if_neg hn]
      by_cases hs : w.isNegative = true
      · rw [if_pos hs, if_pos hs, Int.compare_eq_gt.mpr hlo]
        rfl
      · rw [if_neg hs, if_neg hs, Int.compare_eq_lt.mpr hhi]
        rfl

/-- Numbers are ordered as points, however they are stored. -/
theorem order_eq_compare_point (x y : Number) : compare x y = compare x.point y.point := by
  cases x with
  | int i =>
    cases y with
    | int j => exact (compare_toInt i j).trans (compare_mul_right (Int.natCast_pos.mpr (pow2_pos 1074)) _ _).symm
    | float w => exact orderIntFloat_eq i w
  | float v =>
    cases y with
    | int j => exact (congrArg Ordering.swap (orderIntFloat_eq j v)).trans Std.OrientedOrd.eq_swap.symm
    | float w => exact orderFloats_eq v w

/-- The order of numbers is total. -/
instance : Std.TransOrd Number where
  eq_swap {x y} := by
    rw [order_eq_compare_point, order_eq_compare_point]
    exact Std.OrientedOrd.eq_swap
  isLE_trans {x y z} hxy hyz := by
    rw [order_eq_compare_point] at hxy hyz ⊢
    exact Std.TransOrd.isLE_trans hxy hyz

end Number
end DocStore
