import Mathlib.Data.List.Nodup
import Mathlib.Data.List.Perm.Basic

/-!
# Stable sorts

A stable sort of a list has the same items in order, and those that the order does not tell apart stand as they did
(`IsStableSort`). A list has exactly one (`IsStableSort.unique`), and merge sort gives it (`isStableSort_mergeSort`). Sorting
by different numbers leaves no choice at all (`mergeSort_eq_of_perm`). Two sorted lists of the same items differ only in the
order of items that are not told apart (`forall₂_of_perm`).
-/

namespace DocStore

variable {α : Type} {cmp : α → α → Ordering} {xs ys zs : List α}

/-- The items of the first list in order, items that are not told apart in the order of the first list. -/
structure IsStableSort (cmp : α → α → Ordering) (xs ys : List α) : Prop where
  perm : ys.Perm xs
  sorted : ys.Pairwise fun a b => (cmp a b).isLE
  stable : ∀ a, (ys.filter fun b => cmp a b = .eq) = xs.filter fun b => cmp a b = .eq

/-- Sorting items by their numbers gives the rearrangement in which the numbers increase. -/
theorem mergeSort_eq_of_perm {f : α → Nat} (h : xs.Perm ys) (hys : ys.Pairwise fun a b => f a < f b) :
    (xs.mergeSort fun a b => f a ≤ f b) = ys := by
  have hnd : (ys.map f).Nodup := List.pairwise_map.mpr (hys.imp fun hlt => Nat.ne_of_lt hlt)
  have hperm : (xs.mergeSort fun a b => f a ≤ f b).Perm ys := (List.mergeSort_perm xs _).trans h
  have hsorted : (xs.mergeSort fun a b => f a ≤ f b).Pairwise fun a b => f a ≤ f b := by
    have hm : (xs.mergeSort fun a b => f a ≤ f b).Pairwise fun a b => decide (f a ≤ f b) = true :=
      List.pairwise_mergeSort (by intro a b c; simp only [decide_eq_true_eq]; omega) (by intro a b; simp; omega) xs
    simp only [decide_eq_true_eq] at hm
    exact hm
  refine hperm.eq_of_pairwise ?_ hsorted (hys.imp Nat.le_of_lt)
  intro a b ha hb hab hba
  exact List.inj_on_of_nodup_map hnd (hperm.mem_iff.mp ha) hb (Nat.le_antisymm hab hba)

/-! ## Items that are not told apart -/

/-- A list without repetition that is its own reverse has one item at most. -/
theorem eq_of_reverse_eq_self (hnd : xs.Nodup) (h : xs.reverse = xs) {a b : α} (ha : a ∈ xs) (hb : b ∈ xs) :
    a = b := by
  cases xs with
  | nil => cases ha
  | cons x xs =>
    rw [List.nodup_cons] at hnd
    cases hr : xs.reverse with
    | nil =>
      rw [List.reverse_eq_nil_iff.mp hr, List.mem_singleton] at ha hb
      rw [ha, hb]
    | cons y zs =>
      rw [List.reverse_cons, hr, List.cons_append, List.cons.injEq] at h
      have hy : y ∈ xs := List.mem_reverse.mp (hr ▸ List.mem_cons_self)
      exact absurd (h.1 ▸ hy) hnd.1

/-- Sorting the other way is not the reverse where two items are not told apart: they stand as they did in both. -/
theorem IsStableSort.ne_reverse (h : IsStableSort cmp xs ys) (h' : IsStableSort (fun a b => (cmp a b).swap) xs zs)
    (hnd : xs.Nodup) {a b : α} (ha : a ∈ xs) (hb : b ∈ xs) (hne : a ≠ b) (hself : cmp a a = .eq)
    (hab : cmp a b = .eq) : zs ≠ ys.reverse := by
  rintro rfl
  have hclass := h'.stable a
  simp only [Ordering.swap_eq_eq] at hclass
  rw [List.filter_reverse, h.stable a] at hclass
  have hmem {d : α} (hd : d ∈ xs) (had : cmp a d = .eq) : d ∈ xs.filter fun d => cmp a d = .eq :=
    List.mem_filter.mpr ⟨hd, decide_eq_true had⟩
  exact hne (eq_of_reverse_eq_self (hnd.filter _) hclass (hmem ha hself) (hmem hb hab))

/-! ## Merge sort -/

variable [Std.TransCmp cmp]

theorem isStableSort_mergeSort (xs : List α) : IsStableSort cmp xs (xs.mergeSort fun a b => (cmp a b).isLE) := by
  have htrans : ∀ a b c, (cmp a b).isLE → (cmp b c).isLE → (cmp a c).isLE := fun _ _ _ => Std.TransCmp.isLE_trans
  have htotal : ∀ a b, (cmp a b).isLE || (cmp b a).isLE := by
    intro a b
    have hswap : cmp b a = (cmp a b).swap := Std.OrientedCmp.eq_swap
    rw [hswap]
    cases cmp a b <;> rfl
  have hperm := List.mergeSort_perm xs fun a b => (cmp a b).isLE
  refine ⟨hperm, List.pairwise_mergeSort htrans htotal xs, fun a => ?_⟩
  -- the items not told apart from `a` are in order already, so sorting keeps them as a sublist
  have hclass : (xs.filter fun b => cmp a b = .eq).Pairwise fun b c => (cmp b c).isLE := by
    refine List.pairwise_of_forall_mem_list fun b hb c hc => ?_
    simp only [List.mem_filter, decide_eq_true_eq] at hb hc
    rw [← Std.TransCmp.congr_left (c := c) hb.2, hc.2]
    rfl
  have hsub := List.sublist_mergeSort htrans htotal hclass List.filter_sublist
  have hsub' := hsub.filter fun b => cmp a b = .eq
  rw [List.filter_filter] at hsub'
  simp only [Bool.and_self] at hsub'
  exact (hsub'.eq_of_length (hperm.filter _).length_eq.symm).symm

/-- A list has one stable sort. -/
theorem IsStableSort.unique (h : IsStableSort cmp xs ys) (h' : IsStableSort cmp xs zs) : ys = zs := by
  have hperm : ys.Perm zs := h.perm.trans h'.perm.symm
  have hstable : ∀ a, (ys.filter fun b => cmp a b = .eq) = zs.filter fun b => cmp a b = .eq :=
    fun a => (h.stable a).trans (h'.stable a).symm
  have hy := h.sorted
  have hz := h'.sorted
  clear h h'
  induction ys generalizing zs with
  | nil => exact hperm.nil_eq
  | cons y ys ih =>
    cases zs with
    | nil => exact hperm.eq_nil
    | cons z zs =>
      obtain ⟨hyl, hys⟩ := List.pairwise_cons.mp hy
      obtain ⟨hzl, hzs⟩ := List.pairwise_cons.mp hz
      have hself : ∀ a, cmp a a = .eq := fun _ => Std.ReflCmp.compare_self
      have hyz : (cmp y z).isLE := by
        rcases List.mem_cons.mp (hperm.mem_iff.mpr List.mem_cons_self) with he | hm
        · rw [he, hself]; rfl
        · exact hyl z hm
      have hzy : (cmp z y).isLE := by
        rcases List.mem_cons.mp (hperm.mem_iff.mp List.mem_cons_self) with he | hm
        · rw [he, hself]; rfl
        · exact hzl y hm
      -- so the first items are not told apart, and both come first among their equals
      have heq : cmp y z = .eq := Std.OrientedCmp.isLE_antisymm hyz hzy
      have hhead := hstable y
      rw [List.filter_cons_of_pos (by simp [hself]), List.filter_cons_of_pos (by simp [heq])] at hhead
      obtain ⟨rfl, -⟩ := List.cons.inj hhead
      rw [ih hperm.cons_inv (fun a => ?_) hys hzs]
      have ha := hstable a
      rw [List.filter_cons, List.filter_cons] at ha
      split at ha
      · exact (List.cons.inj ha).2
      · exact ha

/-! ## Two lists in order -/

/-- Two lists in order, with as many items of every class, have items of one class at every place. -/
theorem forall₂_of_countP_eq (hcount : ∀ a, xs.countP (fun b => cmp a b = .eq) = ys.countP fun b => cmp a b = .eq)
    (hx : xs.Pairwise fun a b => (cmp a b).isLE) (hy : ys.Pairwise fun a b => (cmp a b).isLE) :
    List.Forall₂ (fun a b => cmp a b = .eq) xs ys := by
  have hself : ∀ a, cmp a a = .eq := fun _ => Std.ReflCmp.compare_self
  -- a list with an item of some class has one of that class in it
  have hfind {as bs : List α} (hab : ∀ a, as.countP (fun b => cmp a b = .eq) = bs.countP fun b => cmp a b = .eq)
      {a : α} (ha : a ∈ as) : ∃ b ∈ bs, cmp a b = .eq := by
    have hpos : 0 < bs.countP fun b => cmp a b = .eq := hab a ▸ List.countP_pos_iff.mpr ⟨a, ha, by simp [hself]⟩
    simpa using List.countP_pos_iff.mp hpos
  have hfirst {a : α} {as : List α} (has : (a :: as).Pairwise fun a b => (cmp a b).isLE) {b : α} (hb : b ∈ a :: as) :
      (cmp a b).isLE := by
    rcases List.mem_cons.mp hb with rfl | hb
    · rw [hself]; rfl
    · exact (List.pairwise_cons.mp has).1 b hb
  induction xs generalizing ys with
  | nil =>
    cases ys with
    | nil => exact .nil
    | cons y ys =>
      obtain ⟨b, hb, -⟩ := hfind (fun a => (hcount a).symm) List.mem_cons_self
      cases hb
  | cons x xs ih =>
    cases ys with
    | nil =>
      obtain ⟨b, hb, -⟩ := hfind hcount List.mem_cons_self
      cases hb
    | cons y ys =>
      obtain ⟨b, hb, hxb⟩ := hfind hcount (List.mem_cons_self (a := x))
      obtain ⟨a, ha, hya⟩ := hfind (fun a => (hcount a).symm) (List.mem_cons_self (a := y))
      have hyx : (cmp y x).isLE := by
        rw [Std.TransCmp.congr_right (a := y) hxb]
        exact hfirst hy hb
      have hxy : (cmp x y).isLE := by
        rw [Std.TransCmp.congr_right (a := x) hya]
        exact hfirst hx ha
      have heq : cmp x y = .eq := Std.OrientedCmp.isLE_antisymm hxy hyx
      refine .cons heq (ih (fun a => ?_) (List.pairwise_cons.mp hx).2 (List.pairwise_cons.mp hy).2)
      have ha := hcount a
      rw [List.countP_cons, List.countP_cons, Std.TransCmp.congr_right (a := a) heq] at ha
      omega

/-- Rearranged lists in order differ only in the order of items that are not told apart. -/
theorem forall₂_of_perm (h : xs.Perm ys) (hx : xs.Pairwise fun a b => (cmp a b).isLE)
    (hy : ys.Pairwise fun a b => (cmp a b).isLE) : List.Forall₂ (fun a b => cmp a b = .eq) xs ys :=
  forall₂_of_countP_eq (fun _ => h.countP_eq _) hx hy

end DocStore
