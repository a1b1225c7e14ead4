import DocStore.Proofs.Numeric.Whole
import DocStore.Value.Order

/-!
# Comparing numbers exactly

Values that are numbers are compared as points of the number line, and points are ordered by the rational numbers that
they stand for. The word of no number stands above all of them. Main statement: `compare_numbers_exact`.
-/

namespace DocStore

/-- The point of no number stands above all others. -/
theorem ExtendedNumber.compare_notANumber {a : ExtendedNumber} (h : a ≠ notANumber) :
    compare notANumber a = .gt ∧ compare a notANumber = .lt := by
  cases a with
  | notANumber => exact absurd rfl h
  | negInfinity | finite | posInfinity => exact ⟨rfl, rfl⟩

namespace Value

theorem compare_number (x y : Number) : compare (number x) (number y) = compare x.point y.point :=
  Number.order_eq_compare_point x y

theorem extended_ne_notANumber {w : Binary64} (h : w.isNaN = false) : w.extended ≠ .notANumber := fun he => by
  rw [Binary64.isNaN_eq_true_iff.mpr he] at h
  cases h

/-- **Numbers are compared by their exact values.** An integer and a word that denotes a number or an infinity are
compared as the integer and the rational number that the fields of the word spell, either way round, and so are two such
words; the negative zero is equal to both other zeros. Words of no number are equal to one another and above all other
numbers. The whole part of a finite word, and what the word has beyond it, are words themselves, so no step rounds. -/
theorem compare_numbers_exact :
    (∀ (i : Int64) (w : Binary64), w.isNaN = false →
      compare (int i) (float w) = cmp (((i.toInt : ℚ) : WithTop ℚ) : WithBot (WithTop ℚ)) w.value ∧
      compare (float w) (int i) = (compare (int i) (float w)).swap) ∧
    (∀ v w : Binary64, v.isNaN = false → w.isNaN = false → compare (float v) (float w) = cmp v.value w.value) ∧
    (compare (float ⟨0x8000000000000000⟩) (int 0) = .eq ∧ compare (float ⟨0x8000000000000000⟩) (float ⟨0⟩) = .eq) ∧
    (∀ v : Binary64, v.isNaN = true →
      (∀ w : Binary64, w.isNaN = true → compare (float v) (float w) = .eq) ∧
      (∀ w : Binary64, w.isNaN = false → compare (float v) (float w) = .gt ∧ compare (float w) (float v) = .lt) ∧
      ∀ i : Int64, compare (float v) (int i) = .gt ∧ compare (int i) (float v) = .lt) ∧
    ∀ w : Binary64, w.isFinite = true → ∃ t r : Binary64, t.isFinite = true ∧ r.isFinite = true ∧
      t.toRat = ((if w.isNegative then ⌈w.toRat⌉ else ⌊w.toRat⌋ : ℤ) : ℚ) ∧ r.toRat = w.toRat - t.toRat := by
  have hint (i : Int64) : (Number.int i).point ≠ .notANumber := nofun
  refine ⟨fun i w hw => ?_, fun v w hv hw => ?_, by decide +kernel, fun v hv => ?_, fun w => Binary64.exists_toRat_eq⟩
  · have hpoints := ExtendedNumber.compare_eq_cmp_value (hint i) (extended_ne_notANumber hw)
    have hword : w.extended.value = w.value := Number.value_point_float hw
    rw [Number.value_point_int, hword] at hpoints
    refine ⟨(compare_number _ _).trans hpoints, ?_⟩
    rw [int, float, compare_number, compare_number]
    exact Std.OrientedOrd.eq_swap
  · have hpoints := ExtendedNumber.compare_eq_cmp_value (extended_ne_notANumber hv) (extended_ne_notANumber hw)
    have hfirst : v.extended.value = v.value := Number.value_point_float hv
    have hsecond : w.extended.value = w.value := Number.value_point_float hw
    rw [hfirst, hsecond] at hpoints
    exact (compare_number _ _).trans hpoints
  · have hpoint : (Number.float v).point = .notANumber := Binary64.isNaN_eq_true_iff.mp hv
    refine ⟨fun w hw => ?_, fun w hw => ?_, fun i => ?_⟩
    · have hother : (Number.float w).point = .notANumber := Binary64.isNaN_eq_true_iff.mp hw
      rw [float, float, compare_number, hpoint, hother]
      rfl
    · rw [float, float, compare_number, compare_number, hpoint]
      exact ExtendedNumber.compare_notANumber (extended_ne_notANumber hw)
    · rw [float, int, compare_number, compare_number, hpoint]
      exact ExtendedNumber.compare_notANumber (hint i)

/-- The greatest integer lies below `2 ^ 63`, which is the nearest word to it, an infinity lies above it, and the word of no
number above the infinity; a half below zero has a whole part of zero. -/
theorem compare_numbers_exact_edges :
    let power : Binary64 := ⟨0x43E0000000000000⟩
    let infinity : Binary64 := ⟨0x7FF0000000000000⟩
    let half : Binary64 := ⟨0xBFE0000000000000⟩
    power.toRat = 2 ^ 63 ∧ half.toRat = -1 / 2 ∧
    compare (int Int64.maxValue) (float power) =
      cmp (((Int64.maxValue.toInt : ℚ) : WithTop ℚ) : WithBot (WithTop ℚ)) power.value ∧
    compare (int Int64.maxValue) (float power) = .lt ∧
    compare (float half) (float infinity) = cmp half.value infinity.value ∧
    compare (float .nan) (float infinity) = .gt ∧
    ∃ t r : Binary64, t.toRat = 0 ∧ r.toRat = half.toRat - t.toRat := by
  intro power infinity half
  obtain ⟨hint, hfloat, -, hnan, hwhole⟩ := compare_numbers_exact
  have hhalf : half.toRat = -1 / 2 := by decide +kernel
  obtain ⟨t, r, -, -, ht, hr⟩ := hwhole half (by decide)
  have hzero : (if half.isNegative then ⌈half.toRat⌉ else ⌊half.toRat⌋) = 0 := by decide +kernel
  rw [hzero, Int.cast_zero] at ht
  exact ⟨by decide +kernel, hhalf, (hint _ power (by decide)).1, by decide +kernel, hfloat half infinity (by decide) (by decide),
    ((hnan .nan (by decide)).2.1 infinity (by decide)).1, t, r, ht, hr⟩

end Value
end DocStore
