import Mathlib.Data.List.Basic

/-!
# The first item that fails

Items are gone through in order, each accepted or failing with an error, and the first that fails gives the error of the
whole (`FirstFailing`). Item by item this says what the definitions do that recurse on such a list (`firstFailing_cons`,
`firstFailing_append`), and where every item is accepted or fails there is such an item unless all are accepted
(`accepted_or_firstFailing`). Then it is enough to show that the definition has the results and the errors that are said of
it (`eq_ok_iff_of_total`, `eq_error_iff_of_total`).
-/

namespace DocStore

variable {α ε : Type} {accepted : α → Prop} {fails : α → ε → Prop} {x : α} {xs ys : List α} {e : ε}

/-- The first of some items that is not accepted fails with this error. -/
def FirstFailing (accepted : α → Prop) (fails : α → ε → Prop) (xs : List α) (e : ε) : Prop :=
  ∃ before x after, xs = before ++ x :: after ∧ (∀ y ∈ before, accepted y) ∧ fails x e

theorem firstFailing_cons :
    FirstFailing accepted fails (x :: xs) e ↔ fails x e ∨ accepted x ∧ FirstFailing accepted fails xs e := by
  constructor
  · rintro ⟨before, y, after, heq, hbefore, hy⟩
    rcases List.cons_eq_append_iff.mp heq with ⟨rfl, hcons⟩ | ⟨before', rfl, rfl⟩
    · cases hcons
      exact Or.inl hy
    · obtain ⟨hx, hbefore⟩ := List.forall_mem_cons.mp hbefore
      exact Or.inr ⟨hx, before', y, after, rfl, hbefore, hy⟩
  · rintro (hx | ⟨hx, before, y, after, rfl, hbefore, hy⟩)
    · exact ⟨[], x, xs, rfl, List.forall_mem_nil _, hx⟩
    · exact ⟨x :: before, y, after, rfl, List.forall_mem_cons.mpr ⟨hx, hbefore⟩, hy⟩

theorem not_firstFailing_nil : ¬FirstFailing accepted fails [] e := by
  rintro ⟨before, x, after, heq, -⟩
  exact List.append_ne_nil_of_right_ne_nil before (List.cons_ne_nil x after) heq.symm

theorem firstFailing_append : FirstFailing accepted fails (xs ++ ys) e ↔
    FirstFailing accepted fails xs e ∨ (∀ x ∈ xs, accepted x) ∧ FirstFailing accepted fails ys e := by
  induction xs with
  | nil =>
    constructor
    · exact fun h => Or.inr ⟨List.forall_mem_nil _, h⟩
    · exact fun h => h.elim (fun h => absurd h not_firstFailing_nil) And.right
  | cons x xs ih =>
    rw [List.cons_append, firstFailing_cons, firstFailing_cons, ih, List.forall_mem_cons]
    tauto

/-- All items are accepted, or there is a first one that fails. -/
theorem accepted_or_firstFailing (h : ∀ x, accepted x ∨ ∃ e, fails x e) (xs : List α) :
    (∀ x ∈ xs, accepted x) ∨ ∃ e, FirstFailing accepted fails xs e := by
  induction xs with
  | nil => exact Or.inl (List.forall_mem_nil _)
  | cons x xs ih =>
    rcases h x with hx | ⟨e, hx⟩
    · rcases ih with hxs | ⟨e, he⟩
      · exact Or.inl (List.forall_mem_cons.mpr ⟨hx, hxs⟩)
      · exact Or.inr ⟨e, firstFailing_cons.mpr (Or.inr ⟨hx, he⟩)⟩
    · exact Or.inr ⟨e, firstFailing_cons.mpr (Or.inl hx)⟩

section Total

variable {β : Type} {outcome : Except ε β} {result : β → Prop} {error : ε → Prop} {b : β}

/-- There is a result or an error that is said of an outcome, and what is said of it is so: then it is only that. -/
theorem eq_ok_iff_of_total (hok : ∀ b, result b → outcome = .ok b) (herror : ∀ e, error e → outcome = .error e)
    (htotal : (∃ b, result b) ∨ ∃ e, error e) : outcome = .ok b ↔ result b := by
  refine ⟨fun h => ?_, hok b⟩
  rcases htotal with ⟨b', hb⟩ | ⟨e, he⟩
  · cases (hok b' hb).symm.trans h
    exact hb
  · cases (herror e he).symm.trans h

theorem eq_error_iff_of_total (hok : ∀ b, result b → outcome = .ok b) (herror : ∀ e, error e → outcome = .error e)
    (htotal : (∃ b, result b) ∨ ∃ e, error e) : outcome = .error e ↔ error e := by
  refine ⟨fun h => ?_, herror e⟩
  rcases htotal with ⟨b, hb⟩ | ⟨e', he⟩
  · cases (hok b hb).symm.trans h
  · cases (herror e' he).symm.trans h
    exact he

end Total

end DocStore
