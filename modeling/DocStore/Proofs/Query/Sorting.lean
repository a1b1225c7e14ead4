import DocStore.Index.Tuple
import DocStore.Proofs.Order.Stable
import DocStore.Proofs.Value.Order
import DocStore.Query.Matching

/-!
# Sorting by sort keys

Every sort key orders documents totally (`keyOrder`), so sort keys one after the other do (`sortOrder`), and entries are
sorted stably by them (`isStableSort_sortEntries`). The first key that tells two documents apart decides
(`sortOrder_decided`, `sortOrder_eq_iff`), and keys in one direction compare the tuples of values (`sortOrder_map`).
-/

namespace DocStore

/-- A direction is taken by every part of a comparison. -/
theorem SortOrder.apply_then (order : SortOrder) (o p : Ordering) :
    order.apply (o.then p) = (order.apply o).then (order.apply p) := by
  cases order with
  | ascending => rfl
  | descending => exact Ordering.swap_then o p

theorem SortOrder.apply_eq_iff {order : SortOrder} {o : Ordering} : order.apply o = .eq ↔ o = .eq := by
  cases order with
  | ascending => rfl
  | descending => exact Ordering.swap_eq_eq

namespace Query

variable {separator : String}

/-! ## Total preorders -/

/-- One sort key orders documents totally, in either direction. -/
instance (k : SortKey) : Std.TransCmp (keyOrder separator k) := by
  obtain ⟨field, order⟩ := k
  cases order with
  | ascending => exact inferInstanceAs (Std.TransCmp (compareOn fun d : Document => d.getPath field separator))
  | descending =>
    have hswap : keyOrder separator ⟨field, .descending⟩ =
        fun a b => compareOn (fun d : Document => d.getPath field separator) b a := by
      funext a b
      show (compareOn (fun d : Document => d.getPath field separator) a b).swap = _
      exact Std.OrientedCmp.eq_swap.symm
    rw [hswap]
    exact Std.TransCmp.opposite

/-- Sort keys one after the other order documents totally. -/
instance (ks : List SortKey) : Std.TransCmp (sortOrder separator ks) := by
  induction ks with
  | nil => exact { eq_swap := rfl, isLE_trans := fun _ _ => rfl }
  | cons k ks ih => exact inferInstanceAs (Std.TransCmp (compareLex (keyOrder separator k) (sortOrder separator ks)))

/-- Sort keys order entries totally by their documents. -/
instance (ks : List SortKey) : Std.TransCmp fun e f : String × Document => sortOrder separator ks e.2 f.2 where
  eq_swap := Std.OrientedCmp.eq_swap
  isLE_trans := Std.TransCmp.isLE_trans

theorem isStableSort_sortEntries (separator : String) (ks : List SortKey) (es : List (String × Document)) :
    IsStableSort (fun e f => sortOrder separator ks e.2 f.2) es (sortEntries separator ks es) :=
  isStableSort_mergeSort es

/-! ## Sort keys and values -/

section Values

variable {a b : Document} {ks ks' : List SortKey}

theorem sortOrder_append :
    sortOrder separator (ks ++ ks') a b = (sortOrder separator ks a b).then (sortOrder separator ks' a b) := by
  induction ks with
  | nil => rfl
  | cons k ks ih => rw [List.cons_append, sortOrder, sortOrder, ih, Ordering.then_assoc]

/-- Documents are told apart when one of the sort keys does. -/
theorem sortOrder_eq_iff : sortOrder separator ks a b = .eq ↔
    ∀ k ∈ ks, compare (a.getPath k.field separator) (b.getPath k.field separator) = .eq := by
  induction ks with
  | nil => simp [sortOrder]
  | cons k ks ih => rw [sortOrder, Ordering.then_eq_eq, keyOrder, SortOrder.apply_eq_iff, ih, List.forall_mem_cons]

/-- The first sort key that tells two documents apart decides, in its direction. -/
theorem sortOrder_decided {field : String} {order : SortOrder} (hks : sortOrder separator ks a b = .eq)
    (hne : compare (a.getPath field separator) (b.getPath field separator) ≠ .eq) :
    sortOrder separator (ks ++ ⟨field, order⟩ :: ks') a b =
      order.apply (compare (a.getPath field separator) (b.getPath field separator)) := by
  have hkey : keyOrder separator ⟨field, order⟩ a b ≠ .eq := fun he => hne (SortOrder.apply_eq_iff.mp he)
  rw [sortOrder_append, hks, Ordering.eq_then, sortOrder]
  show (keyOrder separator ⟨field, order⟩ a b).then _ = keyOrder separator ⟨field, order⟩ a b
  cases hk : keyOrder separator ⟨field, order⟩ a b with
  | eq => exact absurd hk hkey
  | lt | gt => rfl

/-- A missing field comes before every value when ascending and after it when descending. -/
theorem sortOrder_missing {field : String} {v : Value} (hks : sortOrder separator ks a b = .eq)
    (ha : a.getPath field separator = none) (hb : b.getPath field separator = some v) :
    sortOrder separator (ks ++ ⟨field, .ascending⟩ :: ks') a b = .lt ∧
      sortOrder separator (ks ++ ⟨field, .descending⟩ :: ks') a b = .gt := by
  have hlt : compare (a.getPath field separator) (b.getPath field separator) = .lt := by
    rw [ha, hb]
    rfl
  have hne : compare (a.getPath field separator) (b.getPath field separator) ≠ .eq := by simp [hlt]
  constructor
  · rw [sortOrder_decided hks hne, hlt]
    rfl
  · rw [sortOrder_decided hks hne, hlt]
    rfl

/-- The values of a document at the fields that it is sorted by, none where a field is missing. -/
def sortTuple (separator : String) (fields : List String) (d : Document) : Index.Tuple :=
  ⟨fields.map fun path => d.getPath path separator⟩

/-- Sort keys in one direction compare the values at their fields. -/
theorem sortOrder_map (order : SortOrder) (fields : List String) (a b : Document) :
    sortOrder separator (fields.map (⟨·, order⟩)) a b =
      order.apply (compare (sortTuple separator fields a) (sortTuple separator fields b)) := by
  induction fields with
  | nil => cases order <;> rfl
  | cons field fields ih =>
    rw [List.map_cons, sortOrder, ih, keyOrder, ← SortOrder.apply_then]
    exact congrArg order.apply List.compareLex_cons_cons.symm

/-- The values at some fields order documents totally, in either direction. -/
instance (order : SortOrder) (fields : List String) :
    Std.TransCmp fun a b => order.apply (compare (sortTuple separator fields a) (sortTuple separator fields b)) := by
  have hkeys : sortOrder separator (fields.map (⟨·, order⟩)) = fun a b =>
      order.apply (compare (sortTuple separator fields a) (sortTuple separator fields b)) := by
    funext a b
    exact sortOrder_map order fields a b
  rw [← hkeys]
  infer_instance

end Values

end Query
end DocStore
