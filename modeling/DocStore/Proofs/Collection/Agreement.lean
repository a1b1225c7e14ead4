import DocStore.Proofs.Collection.Paging
import DocStore.Proofs.Collection.Queries

/-!
# Predicates as queries

A bound query asks for a predicate when it has one equality condition for each of its pairs and sorts by fields in one
direction (`Query.Bound.Asks`). A condition takes a missing field for null, which a predicate never does, so the query
selects in addition the documents that lack fields which the predicate wants to be null (`Document.LacksNull`,
`Query.Bound.Asks.holds_iff`) and no others. Without nulls the sorted searches and the query sort the same documents, which
only an index can bring in another order before (`Consistent.sorted_agree`). Main statement: `Reachable.query_agrees`.
-/

namespace DocStore

open Query (Bound)

variable {separator : String} {predicate d : Document} {order : SortOrder} {fields : List String}

/-! ## Conditions of a predicate -/

/-- A document lacks some of the fields that are null in a predicate and has an equal value at every other path. -/
def Document.LacksNull (separator : String) (predicate d : Document) : Prop :=
  (∃ path, predicate.get? path = some .null ∧ d.getPath path separator = none) ∧
    ∀ path v, predicate.get? path = some v → ¬ (v = .null ∧ d.getPath path separator = none) →
      ∃ w, d.getPath path separator = some w ∧ (w == v) = true

namespace Query

/-- A query asks for a predicate, sorted by the values at some fields in one direction. -/
structure Bound.Asks (q : Bound) (predicate : Document) (order : SortOrder) (fields : List String) : Prop where
  conditions : q.conditions.Perm (predicate.entries.map fun (path, v) => ⟨path, .eq, v⟩)
  sort : q.sort = Collection.sortKeys order fields

/-- An equality condition is met by an equal value, and by a missing field when its own value is null. -/
theorem BoundCondition.holds_eq_iff {path : String} {v : Value} :
    (⟨path, .eq, v⟩ : BoundCondition).holds separator d = true ↔
      (v = .null ∧ d.getPath path separator = none) ∨ ∃ w, d.getPath path separator = some w ∧ (w == v) = true := by
  have htest : (⟨path, .eq, v⟩ : BoundCondition).holds separator d = true ↔
      compare (Value.ofOption (d.getPath path separator)) v = .eq := Ordering.isEq_iff_eq_eq
  rw [htest]
  cases d.getPath path separator with
  | some w =>
    simp only [reduceCtorEq, and_false, false_or, Option.some.injEq, exists_eq_left']
    exact Std.LawfulBEqOrd.compare_eq_iff_beq
  | none =>
    simp only [and_true, reduceCtorEq, false_and, exists_false, or_false]
    constructor
    · intro h
      cases v with
      | null => rfl
      | _ => cases h
    · rintro rfl
      rfl

/-- The documents that meet all conditions satisfy the predicate or lack fields that are null in it. -/
theorem Bound.Asks.holds_iff {q : Bound} (hq : q.Asks predicate order fields) :
    (q.conditions.all fun cond => cond.holds separator d) = true ↔
      predicate.satisfies separator d = true ∨ predicate.LacksNull separator d := by
  have hconditions : (q.conditions.all fun cond => cond.holds separator d) = true ↔
      ∀ path v, predicate.get? path = some v →
        (v = .null ∧ d.getPath path separator = none) ∨ ∃ w, d.getPath path separator = some w ∧ (w == v) = true := by
    simp only [List.all_eq_true, hq.conditions.mem_iff, List.forall_mem_map, Prod.forall, BoundCondition.holds_eq_iff,
      Document.get?_eq_some_iff]
  rw [hconditions, Document.satisfies_iff, Document.LacksNull]
  constructor
  · intro h
    by_cases hlacks : ∃ path, predicate.get? path = some .null ∧ d.getPath path separator = none
    · exact Or.inr ⟨hlacks, fun path v hv hno => (h path v hv).resolve_left hno⟩
    · refine Or.inl fun path v hv => (h path v hv).resolve_left ?_
      rintro ⟨rfl, hnone⟩
      exact hlacks ⟨path, hv, hnone⟩
  · rintro (h | ⟨-, h⟩) path v hv
    · exact Or.inr (h path v hv)
    · exact or_iff_not_imp_left.mpr (h path v hv)

/-- Without nulls the conditions say the same as the predicate. -/
theorem Bound.Asks.all_holds_eq {q : Bound} (hq : q.Asks predicate order fields)
    (hnull : ∀ path, predicate.get? path ≠ some .null) :
    (q.conditions.all fun cond => cond.holds separator d) = predicate.satisfies separator d := by
  rw [Bool.eq_iff_iff, hq.holds_iff, or_iff_left]
  rintro ⟨⟨path, hpath, -⟩, -⟩
  exact hnull path hpath

end Query

/-- A query without its limit. -/
def Query.Bound.whole (q : Bound) : Bound := { q with offset := 0, count := none }

namespace Collection

variable {c : Collection} {q : Bound} {xs ys xs' ys' : List Document}

/-! ## Answers before they are cut -/

/-- Without their limit the answers of a query that asks for a predicate are a sorted list, which the limit cuts. -/
theorem Consistent.evaluate_asks (h : c.Consistent) (hq : q.Asks predicate order fields) :
    (c.evaluate q).map (·.2) = window q ((c.evaluate q.whole).map (·.2)) ∧
      c.IsSorted order fields
        (c.scan.filter fun d => q.conditions.all fun cond => cond.holds c.separator d)
        ((c.evaluate q.whole).map (·.2)) := by
  have hwhole : c.evaluate q.whole = c.sorted order fields
      (c.documents.filter fun e => q.conditions.all fun cond => cond.holds c.separator e.2) := by
    rw [h.evaluate_eq, sorted, ← hq.sort]
    rfl
  rw [hwhole]
  constructor
  · rw [h.evaluate_eq, map_window, hq.sort]
    rfl
  · rw [scan, List.filter_map]
    exact isSorted_sorted order fields _

/-- Sorted lists of the same documents differ only in the order of documents with equal values. -/
theorem perm_of_isSorted (h : c.IsSorted order fields xs ys) (h' : c.IsSorted order fields xs' ys') (hperm : xs.Perm xs') :
    ys.Perm ys' ∧ List.Forall₂ (fun d e =>
      compare (Query.sortTuple c.separator fields d) (Query.sortTuple c.separator fields e) = .eq) ys ys' := by
  have hys : ys.Perm ys' := h.perm.trans (hperm.trans h'.perm.symm)
  exact ⟨hys, (forall₂_of_perm hys h.sorted h'.sorted).imp fun _ _ => SortOrder.apply_eq_iff.mp⟩

/-- **A query and a search by equality agree.** In a reachable collection without a result window take a query that asks
for a predicate. Without nulls in the predicate and without an index over exactly its fields the answers are those of the
sorted search; with such an index both are cut out of lists that differ only in the order of documents with equal values at
the sort fields. In any case the query selects, each once, the documents that satisfy the predicate and those that lack
fields which are null in it and match every other pair. -/
theorem Reachable.query_agrees [Like.Engine] (h : c.Reachable) (hwindow : c.config.resultWindow = none)
    (hq : q.Asks predicate order fields) :
    let answers := (c.evaluate q.whole).map (·.2)
    (c.evaluate q).map (·.2) = window q answers ∧
    ((∀ path, predicate.get? path ≠ some .null) → (∀ ix ∈ c.indexes, ¬ ix.names.Perm predicate.names) →
      ∀ n : Nat, q.count = some n →
        (c.evaluate q).map (·.2) = c.findEqualSorted predicate order fields q.offset n) ∧
    ((∀ path, predicate.get? path ≠ some .null) → ∃ found,
      (∀ offset limit, c.findEqualSorted predicate order fields offset limit = page offset limit found) ∧
      answers.Perm found ∧ List.Forall₂ (fun d e =>
        compare (Query.sortTuple c.separator fields d) (Query.sortTuple c.separator fields e) = .eq) answers found) ∧
    answers.Nodup ∧
    ∀ d, d ∈ answers ↔
      d ∈ c.scan ∧ (predicate.satisfies c.separator d = true ∨ predicate.LacksNull c.separator d) := by
  intro answers
  have hc := h.consistent
  obtain ⟨hcut, hanswers⟩ := hc.evaluate_asks hq
  have hpage := sortedPage_eq hwindow (c.equalMatches predicate) order fields
  have hfound := isSorted_sorted (c := c) order fields (c.equalMatches predicate)
  refine ⟨hcut, fun hnull hno n hn => ?_, fun hnull => ⟨_, hpage, ?_⟩, ?_, fun d => ?_⟩
  · have heq : answers = (c.sorted order fields (c.equalMatches predicate)).map (·.2) := by
      simp only [hq.all_holds_eq hnull] at hanswers
      rw [equalMatches_eq_filter hno] at hfound ⊢
      rw [scan, List.filter_map] at hanswers
      exact hanswers.unique hfound
    rw [hcut, findEqualSorted, hpage, ← heq, window, hn]
    rfl
  · simp only [hq.all_holds_eq hnull] at hanswers
    exact perm_of_isSorted hanswers hfound (hc.map_equalMatches_perm predicate).symm
  · exact hanswers.perm.nodup_iff.mpr (hc.nodup_scan.filter _)
  · rw [hanswers.perm.mem_iff, List.mem_filter, hq.holds_iff]

open Like.Sized

/-- A query finds the second of two documents just as the sorted search does, and one for null finds every document that
lacks the field, while the predicate finds none. -/
theorem query_agrees_sample :
    let wide : Bound := ⟨"sample", [⟨"size.w", .eq, .int 1⟩], [⟨"n", .descending⟩], 1, some 1⟩
    let bare : Bound := ⟨"sample", [⟨"color", .eq, .null⟩], [], 0, none⟩
    sample.countEqual (.ofList [("size.w", .int 1)]) = 2 ∧
    (sample.evaluate wide).map (·.2) = sample.findEqualSorted (.ofList [("size.w", .int 1)]) .descending ["n"] 1 1 ∧
    sample.countEqual (.ofList [("color", .null)]) = 0 ∧
    ∀ d ∈ sample.scan, d ∈ (sample.evaluate bare).map (·.2) := by
  intro wide bare
  have hwide : wide.Asks (.ofList [("size.w", .int 1)]) .descending ["n"] := ⟨.refl _, rfl⟩
  have hbare : bare.Asks (.ofList [("color", .null)]) .ascending [] := ⟨.refl _, rfl⟩
  have hno : ∀ ix ∈ sample.indexes, ¬ ix.names.Perm (Document.ofList [("size.w", .int 1)]).names := by decide +kernel
  have hnull : ∀ path, (Document.ofList [("size.w", .int 1)]).get? path ≠ some .null := by
    intro path hpath
    rw [Document.get?_eq_some_iff] at hpath
    cases List.mem_singleton.mp hpath
  obtain ⟨-, hsearch, -⟩ := reachable_sample.query_agrees rfl hwide
  obtain ⟨hcut, -, -, -, hmem⟩ := reachable_sample.query_agrees rfl hbare
  refine ⟨by decide +kernel, hsearch hnull hno 1 rfl, by decide +kernel, fun d hd => ?_⟩
  have hlacks : ∀ d ∈ sample.scan, (d.getPath "color" sample.separator).isNone = true := by decide +kernel
  have hnone : d.getPath "color" sample.separator = none := Option.isNone_iff_eq_none.mp (hlacks d hd)
  rw [hcut]
  refine (hmem d).mpr ⟨hd, Or.inr ⟨⟨"color", rfl, hnone⟩, fun path v hv hmiss => ?_⟩⟩
  rw [Document.get?_eq_some_iff] at hv
  cases List.mem_singleton.mp hv
  exact absurd ⟨rfl, hnone⟩ hmiss

end Collection
end DocStore
