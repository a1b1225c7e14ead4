import DocStore.Collection.Finding
import DocStore.Proofs.Collection.Consistency
import DocStore.Proofs.Query.Sorting

/-!
# Queries with and without indexes

The candidates that an index gives, brought into scan order, are the stored documents with its keys (`inScanOrder_eq`),
and these are all that can meet the condition served by the index (`Consistent.mem_keysFor?`). So it does not matter for
the answers which condition is served, if any is (`Consistent.filter_inScanOrder`, `Consistent.filter_candidates`), and
the answers are those of a plain scan (`IsScanAnswer`, `Consistent.eq_evaluate_iff`). Two collections that differ in
nothing but their indexes (`SameData`) therefore give the same answers (`SameData.evaluate_eq`).
-/

namespace DocStore

theorem Value.isNull_of_compare_null {v : Value} (h : compare Value.null v = .eq) : v.isNull = true := by
  cases v with
  | null => rfl
  | _ => cases h

namespace Collection

variable {c c' : Collection} {ks : List String} {q : Query.Bound}

/-! ## Scan order -/

/-- In a list without repetition the positions of the items increase. -/
theorem pairwise_idxOf {l : List String} (h : l.Nodup) : l.Pairwise fun a b => l.idxOf a < l.idxOf b := by
  rw [List.pairwise_iff_getElem]
  intro i j hi hj hij
  rw [h.idxOf_getElem, h.idxOf_getElem]
  exact hij

theorem findIdx_key (k : String) : c.documents.findIdx (·.1 == k) = (c.documents.map (·.1)).idxOf k := by
  rw [List.idxOf, List.findIdx_map]
  rfl

theorem inScanOrder_eq (hnd : (c.documents.map (·.1)).Nodup) (hks : ks.Nodup) :
    c.inScanOrder ks = c.documents.filter fun e => e.1 ∈ ks := by
  let position : Entry → Nat × Entry := fun e => (c.documents.findIdx (·.1 == e.1), e)
  have hpositioned : ks.filterMap c.positioned? = (ks.filterMap c.stored?).map position := by
    rw [List.map_filterMap]
    refine List.filterMap_congr fun k _ => ?_
    unfold positioned?
    cases hk : c.stored? k with
    | none => rfl
    | some e =>
      rw [← ((stored?_eq_some_iff hnd).mp hk).1]
      rfl
  have hperm := (filterMap_stored?_perm hnd hks).map position
  have hincreasing : c.documents.Pairwise fun e f => (position e).1 < (position f).1 := by
    have hkeys := List.pairwise_map.mp (pairwise_idxOf hnd)
    simp only [position, findIdx_key]
    exact hkeys
  have hsorted : ((c.documents.filter fun e => e.1 ∈ ks).map position).Pairwise fun a b => a.1 < b.1 :=
    List.pairwise_map.mpr (hincreasing.sublist List.filter_sublist)
  unfold inScanOrder
  rw [hpositioned, mergeSort_eq_of_perm (f := Prod.fst) hperm hsorted, List.map_map]
  exact List.map_id _

/-! ## Candidates -/

/-- An index that serves a condition has each key once, and the key of every document that meets the condition. -/
theorem Consistent.mem_keysFor? (h : c.Consistent) {cond : Query.BoundCondition} (hk : c.keysFor? cond = some ks) :
    ks.Nodup ∧ ∀ e ∈ c.documents, cond.holds c.separator e.2 = true → e.1 ∈ ks := by
  unfold keysFor? at hk
  split at hk
  · next hcond =>
    obtain ⟨hop, hnull⟩ := hcond
    obtain ⟨ix, hs, rfl⟩ := Option.map_eq_some_iff.mp hk
    obtain ⟨hix, hp⟩ := Index.perm_of_select? hs
    have hnames : ix.names = [cond.field] := List.perm_singleton.mp hp
    have ht := h.tracks ix hix
    refine ⟨Index.nodup_keysIn ht.ordered _, fun e he hholds => ?_⟩
    rw [ht.mem_keysAt_ofValues]
    refine ⟨e.2, (get?_eq_some_iff h.keys_nodup).mpr he, ?_⟩
    have heq : compare (Value.ofOption (e.2.getPath cond.field c.separator)) cond.value = .eq := by
      unfold Query.BoundCondition.holds at hholds
      rw [hop] at hholds
      exact Ordering.isEq_iff_eq_eq.mp hholds
    rw [hnames, List.forall₂_cons]
    refine ⟨?_, .nil⟩
    -- a missing field would compare as null, which no index serves
    cases hg : e.2.getPath cond.field c.separator with
    | none =>
      rw [hg] at heq
      rw [Value.isNull_of_compare_null heq] at hnull
      cases hnull
    | some w =>
      rw [hg] at heq
      exact ⟨w, rfl, Std.LawfulBEqOrd.compare_eq_iff_beq.mp heq⟩
  · cases hk

/-- Whichever of the conditions of a query is served by an index, the same documents meet all of them. -/
theorem Consistent.filter_inScanOrder (h : c.Consistent) {cond : Query.BoundCondition} (hcond : cond ∈ q.conditions)
    (hk : c.keysFor? cond = some ks) :
    ((c.inScanOrder ks).filter fun e => q.conditions.all fun cond => cond.holds c.separator e.2) =
      c.documents.filter fun e => q.conditions.all fun cond => cond.holds c.separator e.2 := by
  obtain ⟨hnd, hmem⟩ := h.mem_keysFor? hk
  rw [inScanOrder_eq h.keys_nodup hnd, List.filter_filter]
  refine List.filter_congr fun e he => ?_
  cases hall : q.conditions.all fun cond => cond.holds c.separator e.2 with
  | false => rfl
  | true =>
    have hin : e.1 ∈ ks := hmem e he (List.all_eq_true.mp hall cond hcond)
    rw [Bool.true_and, decide_eq_true hin]

/-- The candidates of a query miss no document that meets all of its conditions. -/
theorem Consistent.filter_candidates (h : c.Consistent) (q : Query.Bound) :
    ((c.candidates q).filter fun e => q.conditions.all fun cond => cond.holds c.separator e.2) =
      c.documents.filter fun e => q.conditions.all fun cond => cond.holds c.separator e.2 := by
  unfold candidates
  split
  · next ks hk =>
    obtain ⟨cond, hcond, hk⟩ := List.exists_of_findSome?_eq_some hk
    exact h.filter_inScanOrder hcond hk
  · rfl

/-! ## Answers -/

/-- The stretch of a list that a query wants: without the skipped items, as many as are wanted. -/
def window {α : Type} (q : Query.Bound) (es : List α) : List α :=
  match q.count with
  | some n => (es.drop q.offset).take n
  | none => es.drop q.offset

theorem window_sublist {α : Type} (q : Query.Bound) (es : List α) : (window q es).Sublist es := by
  unfold window
  split
  · exact (List.take_sublist ..).trans (List.drop_sublist ..)
  · exact List.drop_sublist ..

theorem map_window {α β : Type} (f : α → β) (q : Query.Bound) (xs : List α) : (window q xs).map f = window q (xs.map f) := by
  unfold window
  split
  · rw [List.map_take, List.map_drop]
  · rw [List.map_drop]

/-- What a plain scan answers: the stored documents that meet every condition, where a missing field compares as null,
stably sorted by the sort keys, and of these the stretch that is wanted. -/
def IsScanAnswer (c : Collection) (q : Query.Bound) (answers : List Entry) : Prop :=
  ∃ sorted, IsStableSort (fun e f => Query.sortOrder c.separator q.sort e.2 f.2)
      (c.documents.filter fun e => q.conditions.all fun cond =>
        cond.op.test (compare (Value.ofOption (e.2.getPath cond.field c.separator)) cond.value)) sorted ∧
    answers = window q sorted

theorem Consistent.evaluate_eq (h : c.Consistent) (q : Query.Bound) :
    c.evaluate q = window q (Query.sortEntries c.separator q.sort
      (c.documents.filter fun e => q.conditions.all fun cond => cond.holds c.separator e.2)) := by
  unfold evaluate
  rw [h.filter_candidates]
  rfl

/-- The answers of a query are some of the stored entries, each once. -/
theorem Consistent.evaluate_subperm (h : c.Consistent) (q : Query.Bound) : (c.evaluate q).Subperm c.documents := by
  rw [h.evaluate_eq]
  have hsorted := (Query.isStableSort_sortEntries c.separator q.sort
    (c.documents.filter fun e => q.conditions.all fun cond => cond.holds c.separator e.2)).perm
  exact (window_sublist q _).subperm.trans (hsorted.subperm.trans List.filter_sublist.subperm)

/-- The answers of a query are what a plain scan answers, and nothing else is. -/
theorem Consistent.eq_evaluate_iff (h : c.Consistent) {answers : List Entry} :
    answers = c.evaluate q ↔ c.IsScanAnswer q answers := by
  rw [h.evaluate_eq]
  have hsort := Query.isStableSort_sortEntries c.separator q.sort
    (c.documents.filter fun e => q.conditions.all fun cond => cond.holds c.separator e.2)
  constructor
  · intro he
    exact ⟨_, hsort, he⟩
  · rintro ⟨sorted, hs, rfl⟩
    rw [hs.unique hsort]

/-! ## Collections that differ in their indexes -/

/-- The collections have the same documents under one name and configuration; their indexes may differ. -/
structure SameData (c c' : Collection) : Prop where
  name : c.name = c'.name
  config : c.config = c'.config
  documents : c.documents = c'.documents

theorem SameData.refl (c : Collection) : SameData c c := ⟨rfl, rfl, rfl⟩

instance : Std.Refl SameData := ⟨SameData.refl⟩

/-- Creating an index, or failing to, changes nothing else. -/
theorem sameData_addIndex (c : Collection) (names : List String) (unique : Bool) :
    SameData c (c.addIndex names unique).2 := by
  rcases c.addIndex_cases names unique with ⟨e, -, heq⟩ | ⟨fields, ixs, -, -, heq⟩
  · rw [heq]
    exact .refl c
  · rw [heq]
    exact ⟨rfl, rfl, rfl⟩

theorem sameData_removeIndex (c : Collection) (names : List String) : SameData c (c.removeIndex names).2 := by
  rcases c.removeIndex_cases names with ⟨e, -, heq⟩ | ⟨fields, ixs, -, -, heq⟩
  · rw [heq]
    exact .refl c
  · rw [heq]
    exact ⟨rfl, rfl, rfl⟩

theorem SameData.separator (hs : SameData c c') : c.separator = c'.separator := congrArg Config.separator hs.config

theorem SameData.evaluate_eq (hs : SameData c c') (h : c.Consistent) (h' : c'.Consistent) :
    c.evaluate = c'.evaluate := by
  funext q
  rw [h.evaluate_eq, h'.evaluate_eq, hs.separator, hs.documents]

theorem SameData.bindQuery_eq (hs : SameData c c') : c.bindQuery = c'.bindQuery := by
  funext text params
  unfold bindQuery
  rw [hs.separator, hs.name]

theorem SameData.find_eq (hs : SameData c c') (h : c.Consistent) (h' : c'.Consistent) : c.find = c'.find := by
  funext text params
  unfold find
  rw [hs.bindQuery_eq, hs.evaluate_eq h h', hs.config]

theorem SameData.findOne_eq (hs : SameData c c') (h : c.Consistent) (h' : c'.Consistent) :
    c.findOne = c'.findOne := by
  funext text params
  unfold findOne
  rw [hs.bindQuery_eq, hs.evaluate_eq h h', hs.name]

theorem SameData.countQuery_eq (hs : SameData c c') (h : c.Consistent) (h' : c'.Consistent) :
    c.countQuery = c'.countQuery := by
  funext text params
  unfold countQuery
  rw [hs.bindQuery_eq, hs.evaluate_eq h h']

end Collection
end DocStore
