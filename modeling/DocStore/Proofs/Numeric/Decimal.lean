import DocStore.Numeric.Number
import Mathlib.Data.List.Basic

/-!
# Decimal digits

The decimal digits of a natural number are digits, and only zero has a zero at the front (`head?_toDigits_ne`). The decimal
text of an integer starts with a sign or a digit (`Number.exists_decimal_eq_cons`).
-/

namespace DocStore

variable {c : Char} {n : Nat}

theorem isDigit_of_mem_toDigits (h : c ∈ Nat.toDigits 10 n) : c.isDigit = true :=
  Nat.isDigit_of_mem_toDigits (by decide) (by decide) h

theorem exists_toDigits_eq_cons (n : Nat) : ∃ c cs, Nat.toDigits 10 n = c :: cs ∧ c.isDigit = true := by
  obtain ⟨c, cs, hcs⟩ := List.exists_cons_of_ne_nil (Nat.toDigits_ne_nil (n := n) (b := 10))
  exact ⟨c, cs, hcs, isDigit_of_mem_toDigits (hcs ▸ List.mem_cons_self ..)⟩

/-- Only the digits of zero start with a zero. -/
theorem head?_toDigits_ne (h : 0 < n) : (Nat.toDigits 10 n).head? ≠ some '0' := by
  induction n using Nat.strongRecOn with
  | ind n ih =>
    rw [Nat.toDigits_eq_if (by decide)]
    split
    · next hn =>
      have hdigits : ∀ k < 10, 0 < k → k.digitChar ≠ '0' := by decide
      exact fun he => hdigits n hn h (Option.some.inj he)
    · next hn =>
      rw [List.head?_append_of_ne_nil _ Nat.toDigits_ne_nil]
      exact ih (n / 10) (by omega) (by omega)

theorem Number.exists_decimal_eq_cons (i : Int) : ∃ c cs, decimal i = c :: cs ∧ (c = '-' ∨ c.isDigit = true) := by
  rw [decimal]
  split
  · exact ⟨'-', _, rfl, .inl rfl⟩
  · obtain ⟨c, cs, hcs, hdigit⟩ := exists_toDigits_eq_cons i.natAbs
    exact ⟨c, cs, hcs, .inr hdigit⟩

/-- A stored integer is the number of its value. -/
theorem Number.ofInt_toInt (i : Int64) : Number.ofInt i.toInt = .int i := by
  rw [Number.ofInt, if_pos ⟨Int64.minValue_le_toInt i, Int64.toInt_le i⟩, Int64.ofInt_toInt]

end DocStore
