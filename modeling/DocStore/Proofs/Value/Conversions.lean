import DocStore.Proofs.Numeric.Rounding
import DocStore.Proofs.Value.Numbers

/-!
# Conversions of unsigned integers keep order

A natural number becomes an integer as long as it fits one, and the nearest word above that. Integers are ordered as what
they are, words of natural numbers because rounding keeps order, and between the two stands `2 ^ 63`, a word itself: no
greater number is rounded to less (`two_pow_le_toRat`). Main statement: `unsigned_exact`.
-/

namespace DocStore

/-! ## Numbers with a rational value -/

namespace Number

variable {x y : Number} {p q : ℚ}

/-- A number denotes a rational number when its point stands for it. -/
def Denotes (x : Number) (q : ℚ) : Prop := x.point.value = ((q : WithTop ℚ) : WithBot (WithTop ℚ))

theorem denotes_int (i : Int64) : (int i).Denotes i.toInt := value_point_int i

theorem denotes_float {w : Binary64} (h : w.isFinite = true) : (float w).Denotes w.toRat := by
  have hnan : w.isNaN = false := by
    unfold Binary64.isFinite at h
    unfold Binary64.isNaN
    simp_all
  rw [Denotes, value_point_float hnan, Binary64.value, if_pos h]

theorem Denotes.ne_notANumber (h : x.Denotes q) : x.point ≠ .notANumber := by
  intro hpoint
  rw [Denotes, hpoint] at h
  exact WithTop.coe_ne_top (WithBot.coe_injective h).symm

/-- Numbers that denote rational numbers are ordered as those. -/
theorem Denotes.compare_eq (hx : x.Denotes p) (hy : y.Denotes q) : compare x y = cmp p q := by
  have hmono : StrictMono fun r : ℚ => ((r : WithTop ℚ) : WithBot (WithTop ℚ)) :=
    WithBot.coe_strictMono.comp WithTop.coe_strictMono
  rw [order_eq_compare_point, ExtendedNumber.compare_eq_cmp_value hx.ne_notANumber hy.ne_notANumber, hx, hy]
  exact hmono.cmp_map_eq p q

/-- A natural number that fits a signed integer is stored as one. -/
theorem exists_ofNat_eq_int {n : Nat} (h : n ≤ Int64.maxValue.toInt) : ∃ i : Int64, i.toInt = n ∧ ofNat n = int i := by
  have hlo : Int64.minValue.toInt ≤ n := Int.le_trans (by decide) (Int.natCast_nonneg n)
  have hhi := Int64.toInt_maxValue ▸ h
  exact ⟨Int64.ofInt n, Int64.toInt_ofInt_of_le (by omega) (by omega), if_pos ⟨hlo, h⟩⟩

/-- A greater natural number is stored as a word. -/
theorem ofNat_eq_float {n : Nat} (h : Int64.maxValue.toInt < n) : ofNat n = float (.ofInt n) :=
  if_neg fun hrange => Int.not_le.mpr h hrange.2

end Number

/-! ## Words of natural numbers -/

namespace Binary64

variable {n : Nat}

theorem isNearest_ofNat (h : n < UInt64.size) : (ofInt n).IsNearest n := by
  have hfinite : (ofInt n).isFinite = true := isFinite_ofInt (e := 64) (by decide) h
  exact_mod_cast isNearest_ofInt hfinite

/-- No number above the greatest signed integer is rounded to less than `2 ^ 63`. -/
theorem two_pow_le_toRat {w : Binary64} (hw : w.IsNearest n) (h : Int64.maxValue.toInt < n) : 2 ^ 63 ≤ w.toRat := by
  have hpower : (⟨0x43E0000000000000⟩ : Binary64).toRat = 2 ^ 63 := by decide +kernel
  have hself := isNearest_toRat (w := ⟨0x43E0000000000000⟩) (by decide)
  rw [hpower] at hself
  have hn : 2 ^ 63 ≤ n := by
    rw [Int64.toInt_maxValue] at h
    omega
  rw [← hpower]
  exact hself.toRat_le hw (by exact_mod_cast hn)

end Binary64

namespace Value

/-! ## Order of numeric values -/

section Order

variable {x y : Number} {p q : ℚ}

theorem number_lt_number (hx : x.Denotes p) (hy : y.Denotes q) : number x < number y ↔ p < q := by
  show compare x y = .lt ↔ p < q
  rw [hx.compare_eq hy, cmp_eq_lt_iff]

theorem number_le_number (hx : x.Denotes p) (hy : y.Denotes q) : number x ≤ number y ↔ p ≤ q := by
  show (compare x y).isLE ↔ p ≤ q
  rw [hx.compare_eq hy, Ordering.isLE_iff_ne_gt, cmp_eq_gt_iff, not_lt]

end Order

/-! ## Values of natural numbers -/

section Represents

variable {v w : Value} {m n : Nat}

/-- A value represents a natural number when it is the integer of that number, or, above the greatest integer, the one
word nearest to it, and then greater than every integer. -/
structure Represents (v : Value) (n : Nat) : Prop where
  exists_int : n ≤ Int64.maxValue.toInt → ∃ i : Int64, i.toInt = n ∧ v = int i
  exists_float : Int64.maxValue.toInt < n →
    ∃ w : Binary64, v = float w ∧ (∀ u : Binary64, u.IsNearest n ↔ u = w) ∧ ∀ i : Int64, int i < float w

theorem represents_ofNat (hn : n < UInt64.size) : (ofNat n).Represents n where
  exists_int hsmall := by
    obtain ⟨i, hi, hni⟩ := Number.exists_ofNat_eq_int hsmall
    exact ⟨i, hi, congrArg number hni⟩
  exists_float hlarge := by
    have hw := Binary64.isNearest_ofNat hn
    have hle := Binary64.two_pow_le_toRat hw hlarge
    refine ⟨.ofInt n, congrArg number (Number.ofNat_eq_float hlarge), fun u => ?_, fun i => ?_⟩
    · exact hw.iff_eq (lt_of_lt_of_le (pow_pos two_pos 63) hle).ne'
    · rw [int, float, number_lt_number (Number.denotes_int i) (Number.denotes_float hw.isFinite)]
      refine lt_of_lt_of_le ?_ hle
      exact_mod_cast i.toInt_lt

/-- Values stand in the order of the natural numbers that they represent. -/
theorem Represents.le (hv : v.Represents m) (hw : w.Represents n) (h : m ≤ n) : v ≤ w := by
  rcases le_or_gt (n : ℤ) Int64.maxValue.toInt with hnsmall | hnlarge
  · obtain ⟨i, hi, rfl⟩ := hv.exists_int (by omega)
    obtain ⟨j, hj, rfl⟩ := hw.exists_int hnsmall
    rw [int, int, number_le_number (Number.denotes_int i) (Number.denotes_int j), hi, hj]
    exact_mod_cast h
  obtain ⟨y, rfl, hy, hint⟩ := hw.exists_float hnlarge
  rcases le_or_gt (m : ℤ) Int64.maxValue.toInt with hmsmall | hmlarge
  · obtain ⟨i, -, rfl⟩ := hv.exists_int hmsmall
    exact Ordering.isLE_of_eq_lt (hint i)
  · obtain ⟨x, rfl, hx, -⟩ := hv.exists_float hmlarge
    have hxnearest := (hx x).mpr rfl
    have hynearest := (hy y).mpr rfl
    rw [float, float, number_le_number (Number.denotes_float hxnearest.isFinite)
      (Number.denotes_float hynearest.isFinite)]
    exact hxnearest.toRat_le hynearest (by exact_mod_cast h)

theorem Represents.lt (hv : v.Represents m) (hw : w.Represents n) (hn : n ≤ Int64.maxValue.toInt) (h : m < n) :
    v < w := by
  obtain ⟨i, hi, rfl⟩ := hv.exists_int (by omega)
  obtain ⟨j, hj, rfl⟩ := hw.exists_int hn
  rw [int, int, number_lt_number (Number.denotes_int i) (Number.denotes_int j), hi, hj]
  exact_mod_cast h

end Represents

/-! ## Unsigned integers -/

theorem represents_ofUInt64 (a : UInt64) : (ofUInt64 a).Represents a.toNat := represents_ofNat a.toNat_lt_size

theorem represents_ofUSize (a : USize) : (ofUSize a).Represents a.toNat := by
  rw [← USize.toNat_toUInt64]
  exact represents_ofUInt64 a.toUInt64

/-- **Converting unsigned integers keeps their order.** Of two integers of 64 bits or of the machine's width, the greater
one never becomes a smaller value, and stays strictly greater up to the greatest signed integer. Up to there each becomes
the integer of the same number; each one above becomes the word nearest to it, a tie going to the even fraction, which is
greater than every integer. -/
theorem unsigned_exact :
    (∀ a b : UInt64, a ≤ b → ofUInt64 a ≤ ofUInt64 b) ∧ (∀ a b : USize, a ≤ b → ofUSize a ≤ ofUSize b) ∧
    (∀ a b : UInt64, a < b → b.toNat ≤ Int64.maxValue.toInt → ofUInt64 a < ofUInt64 b) ∧
    (∀ a b : USize, a < b → b.toNat ≤ Int64.maxValue.toInt → ofUSize a < ofUSize b) ∧
    (∀ a : UInt64, (ofUInt64 a).Represents a.toNat) ∧ ∀ a : USize, (ofUSize a).Represents a.toNat := by
  refine ⟨fun a b h => ?_, fun a b h => ?_, fun a b h hb => ?_, fun a b h hb => ?_, represents_ofUInt64,
    represents_ofUSize⟩
  · exact (represents_ofUInt64 a).le (represents_ofUInt64 b) (UInt64.le_iff_toNat_le.mp h)
  · exact (represents_ofUSize a).le (represents_ofUSize b) (USize.le_iff_toNat_le.mp h)
  · exact (represents_ofUInt64 a).lt (represents_ofUInt64 b) hb (UInt64.lt_iff_toNat_lt.mp h)
  · exact (represents_ofUSize a).lt (represents_ofUSize b) hb (USize.lt_iff_toNat_lt.mp h)

/-- Order is kept up to the greatest signed integer and past it. The number halfway from `2 ^ 63` to the next word becomes
the word of `2 ^ 63`, whose fraction is even, and the number after it goes up. -/
theorem unsigned_exact_seam :
    let power : Binary64 := ⟨0x43E0000000000000⟩
    ofUInt64 9223372036854775806 < ofUInt64 9223372036854775807 ∧
    ofUInt64 9223372036854775807 ≤ ofUInt64 9223372036854775808 ∧
    (power.IsNearest (9223372036854776832 : UInt64).toNat ∧ int Int64.maxValue < float power) ∧
    ofUInt64 9223372036854776832 ≤ ofUInt64 9223372036854776833 := by
  intro power
  obtain ⟨hle, -, hlt, -, hrepresents, -⟩ := unsigned_exact
  obtain ⟨w, hw, hnearest, hint⟩ := (hrepresents 9223372036854776832).exists_float (by decide)
  have hpower : Number.ofNat (9223372036854776832 : UInt64).toNat = .float power := by decide +kernel
  have hvalue : float power = float w := (congrArg number hpower).symm.trans hw
  have heq : power = w := by
    injection hvalue with hnumber
    injection hnumber
  subst heq
  exact ⟨hlt _ _ (by decide) (by decide), hle _ _ (by decide), ⟨(hnearest power).mpr rfl, hint _⟩, hle _ _ (by decide)⟩

end Value
end DocStore
