/-!
# Comparisons in a chain

Transitivity of a comparison as one equation between three results (`Chain`), in a form that an induction can carry for
a single element: where the first is at most the second and the second at most the third, the outer result is the two
inner ones composed. Composition (`Chain.then`) and lists (`chain_compareLex`) keep it, a
transitive order has it (`chain_of_transOrd`), and a comparison that is oriented and has it everywhere is transitive
(`transCmp_of_chain`).
-/

namespace DocStore

/-- The outer result `q` of three elements compared in a row with results `o` and `p`. -/
def Chain (o p q : Ordering) : Prop := o.isLE → p.isLE → q = o.then p

/-- Results composed of chains form a chain, when the second ones do wherever the first ones leave it open. -/
theorem Chain.then {o p q o' p' q' : Ordering} (h : Chain o p q) (h' : o = .eq → p = .eq → Chain o' p' q') :
    Chain (o.then o') (p.then p') (q.then q') := by
  intro ho hp
  have hq := h (Ordering.isLE_left_of_isLE_then ho) (Ordering.isLE_left_of_isLE_then hp)
  rcases Ordering.isLE_then_iff_or.mp ho with rfl | ⟨rfl, ho'⟩
  · rw [hq]; rfl
  · rcases Ordering.isLE_then_iff_or.mp hp with rfl | ⟨rfl, hp'⟩
    · rw [hq]; cases o' <;> trivial
    · rw [hq]; exact h' rfl rfl ho' hp'

variable {α : Type} {cmp : α → α → Ordering}

theorem chain_of_transOrd [Ord α] [Std.TransOrd α] (a b c : α) :
    Chain (compare a b) (compare b c) (compare a c) := by
  intro hab hbc
  cases h : compare a b with
  | lt => exact Std.TransCmp.lt_of_lt_of_isLE h hbc
  | eq => exact Std.TransCmp.congr_left h
  | gt => rw [h] at hab; cases hab

/-- An oriented comparison that gives chains is transitive. -/
theorem transCmp_of_chain (swap : ∀ a b, cmp b a = (cmp a b).swap)
    (chain : ∀ a b c, Chain (cmp a b) (cmp b c) (cmp a c)) : Std.TransCmp cmp where
  eq_swap := swap _ _
  isLE_trans {a b c} hab hbc := by
    rw [chain a b c hab hbc]
    cases h : cmp a b with
    | lt => rfl
    | eq => exact hbc
    | gt => rw [h] at hab; cases hab

/-! ## Lists -/

/-- Comparing lists item by item is oriented where the items of one list are. -/
theorem swap_compareLex : ∀ {xs : List α}, (∀ x ∈ xs, ∀ y, cmp y x = (cmp x y).swap) → ∀ ys : List α,
    ys.compareLex cmp xs = (xs.compareLex cmp ys).swap
  | [], _, [] => rfl
  | [], _, _ :: _ => rfl
  | _ :: _, _, [] => rfl
  | x :: xs, h, y :: ys => by
    rw [List.compareLex_cons_cons, List.compareLex_cons_cons, Ordering.swap_then, h x List.mem_cons_self,
      swap_compareLex (fun z hz => h z (List.mem_cons_of_mem x hz)) ys]

/-- Comparing lists item by item gives a chain where the items of the first list do. -/
theorem chain_compareLex : ∀ {xs : List α}, (∀ x ∈ xs, ∀ y z, Chain (cmp x y) (cmp y z) (cmp x z)) →
    ∀ ys zs : List α, Chain (xs.compareLex cmp ys) (ys.compareLex cmp zs) (xs.compareLex cmp zs)
  | [], _, [], zs => fun _ _ => by rw [List.compareLex_nil_nil, Ordering.eq_then]
  | [], _, _ :: _, [] => fun _ h => by cases h
  | [], _, _ :: _, _ :: _ => fun _ _ => rfl
  | _ :: _, _, [], _ => fun h => by cases h
  | _ :: _, _, _ :: _, [] => fun _ h => by cases h
  | x :: xs, h, y :: ys, z :: zs => by
    simp only [List.compareLex_cons_cons]
    exact (h x List.mem_cons_self y z).then fun _ _ =>
      chain_compareLex (fun w hw => h w (List.mem_cons_of_mem x hw)) ys zs

theorem compareLex_of_prefix [Std.ReflCmp cmp] : ∀ {xs ys : List α}, xs <+: ys → xs ≠ ys → xs.compareLex cmp ys = .lt
  | [], [], _, h => absurd rfl h
  | [], _ :: _, _, _ => rfl
  | _ :: _, [], h, _ => by cases List.prefix_nil.mp h
  | x :: xs, y :: ys, h, hne => by
    obtain ⟨rfl, hp⟩ := List.cons_prefix_cons.mp h
    have hx : cmp x x = .eq := Std.ReflCmp.compare_self
    rw [List.compareLex_cons_cons, hx, Ordering.eq_then]
    exact compareLex_of_prefix hp fun he => hne (by rw [he])

end DocStore
