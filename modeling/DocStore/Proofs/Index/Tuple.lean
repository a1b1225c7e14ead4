import DocStore.Index.Tuple
import DocStore.Proofs.Value.Order
import Mathlib.Data.List.Forall2

/-!
# Equal tuples

Tuples are ordered component by component, so their order is total and their equality an equivalence. Two tuples are
equal exactly when they have equal components (`beq_iff_forall₂`); the tuple of some values is equal to that of a
document exactly when the document has an equal value in every field, so never when one is missing
(`ofValues_beq_ofDocument_iff`).
-/

namespace DocStore

theorem compareLex_eq_iff_forall₂ {α : Type} {cmp : α → α → Ordering} : ∀ {xs ys : List α},
    xs.compareLex cmp ys = .eq ↔ List.Forall₂ (fun x y => cmp x y = .eq) xs ys
  | [], [] => by simp [List.compareLex_nil_nil]
  | [], _ :: _ => by simp [List.compareLex_nil_cons]
  | _ :: _, [] => by simp [List.compareLex_cons_nil]
  | x :: xs, y :: ys => by
    rw [List.compareLex_cons_cons, Ordering.then_eq_eq, List.forall₂_cons, compareLex_eq_iff_forall₂]

namespace Index.Tuple

/-- The order of tuples is total. -/
instance : Std.TransOrd Tuple := inferInstanceAs (Std.TransCmp (compareOn components))

/-- Equality of tuples is that of their order. -/
instance : Std.LawfulBEqOrd Tuple where
  compare_eq_iff_beq {s t} := by
    show compare s t = .eq ↔ (compare s t).isEq
    exact Ordering.isEq_iff_eq_eq.symm

theorem beq_iff_forall₂ {s t : Tuple} :
    (s == t) = true ↔ List.Forall₂ (fun a b => compare a b = .eq) s.components t.components := by
  rw [← Std.LawfulBEqOrd.compare_eq_iff_beq]
  exact compareLex_eq_iff_forall₂

/-- A component is equal to a value when it is there with an equal value. -/
theorem compare_some_eq_iff {v : Value} {c : Option Value} :
    compare (some v) c = .eq ↔ ∃ w, c = some w ∧ (w == v) = true := by
  cases c with
  | none => simp
  | some w =>
    simp only [Option.some.injEq, exists_eq_left', BEq.comm (a := w)]
    exact Std.LawfulBEqOrd.compare_eq_iff_beq

/-- Values are the tuple of a document that has an equal value in each of the fields. -/
theorem ofValues_beq_ofDocument_iff {vs : List Value} {separator : String} {fields : FieldList} {d : Document} :
    (ofValues vs == ofDocument separator fields d) = true ↔
      List.Forall₂ (fun path v => ∃ w, d.getPath path separator = some w ∧ (w == v) = true) fields.names vs := by
  rw [beq_iff_forall₂]
  show List.Forall₂ _ (vs.map some) (fields.names.map _) ↔ _
  rw [List.forall₂_map_left_iff, List.forall₂_map_right_iff]
  simp only [compare_some_eq_iff]
  exact ⟨List.Forall₂.flip, List.Forall₂.flip⟩

end Index.Tuple
end DocStore
