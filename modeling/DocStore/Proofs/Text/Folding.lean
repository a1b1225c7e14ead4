import DocStore.Text.Folding
import Mathlib.Tactic.ByContra

/-!
# Characters that fold alone

Whatever the folding moves below `128` is a capital letter, and whatever it moves there becomes a small letter
(`foldRanges_ascii`). So an ASCII character that is no letter folds with itself alone (`foldCase_eq_iff_of_ascii`).
-/

namespace DocStore.Text

variable {c x : Char}

/-- The last of the characters that the members of a range fold to. -/
def FoldRange.lastTarget (r : FoldRange) : Nat := r.target + (r.last - r.first)

/-- Ranges lead to characters, and inside ASCII from capital letters to small ones. -/
theorem foldRanges_ascii : ∀ r ∈ foldRanges,
    (r.lastTarget < 0xD800 ∨ 0xDFFF < r.target ∧ r.lastTarget < 0x110000) ∧
      (128 ≤ r.first ∨ 0x41 ≤ r.first ∧ r.last ≤ 0x5A) ∧ (128 ≤ r.target ∨ 0x61 ≤ r.target ∧ r.lastTarget ≤ 0x7A) := by
  decide +kernel

/-- A character that moves is in a range, and moves where the range says. -/
theorem exists_range_of_foldCase_ne (h : foldCase c ≠ c) : ∃ r ∈ foldRanges, r.first ≤ c.toNat ∧ c.toNat ≤ r.last ∧
    r.target ≤ (foldCase c).toNat ∧ (foldCase c).toNat ≤ r.lastTarget := by
  unfold foldCase at h ⊢
  cases hr : foldRanges.find? (·.contains c.toNat) with
  | none => simp [hr] at h
  | some r =>
    have hmem := List.mem_of_find?_eq_some hr
    have hcontains := List.find?_some hr
    simp only [FoldRange.contains, Bool.and_eq_true, decide_eq_true_eq] at hcontains
    obtain ⟨⟨hfirst, hlast⟩, -⟩ := hcontains
    obtain ⟨hvalid, -⟩ := foldRanges_ascii r hmem
    unfold FoldRange.lastTarget at hvalid ⊢
    have happly : (Char.ofNat (r.apply c.toNat)).toNat = r.target + (c.toNat - r.first) := by
      have hchar : (r.apply c.toNat).isValidChar := by
        unfold FoldRange.apply Nat.isValidChar
        omega
      rw [Char.ofNat, dif_pos hchar]
      rfl
    refine ⟨r, hmem, hfirst, hlast, ?_⟩
    simp only [happly]
    omega

/-- A character of ASCII other than a letter folds with itself alone. -/
theorem foldCase_eq_iff_of_ascii (hascii : c.toNat < 128) (hletter : c.isAlpha = false) :
    foldCase x = foldCase c ↔ x = c := by
  have hcase : ¬ (0x41 ≤ c.toNat ∧ c.toNat ≤ 0x5A) ∧ ¬ (0x61 ≤ c.toNat ∧ c.toNat ≤ 0x7A) := by
    change (decide (0x41 ≤ c.val ∧ c.val ≤ 0x5A) || (decide (0x61 ≤ c.val) && decide (c.val ≤ 0x7A))) = false at hletter
    simp only [Bool.or_eq_false_iff, Bool.and_eq_false_imp, decide_eq_true_eq, decide_eq_false_iff_not,
      UInt32.le_iff_toNat_le] at hletter
    exact ⟨hletter.1, fun h => hletter.2 h.1 h.2⟩
  have hself : foldCase c = c := by
    by_contra hne
    obtain ⟨r, hr, hfirst, hlast, -⟩ := exists_range_of_foldCase_ne hne
    have hrange := (foldRanges_ascii r hr).2.1
    omega
  constructor
  · intro h
    rw [hself] at h
    by_contra hne
    obtain ⟨r, hr, -, -, htarget, hlast⟩ := exists_range_of_foldCase_ne (c := x) (h ▸ Ne.symm hne)
    have hrange := (foldRanges_ascii r hr).2.2
    rw [h] at htarget hlast
    omega
  · rintro rfl
    rfl

end DocStore.Text
