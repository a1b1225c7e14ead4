import DocStore.Collection.Action
import DocStore.Proofs.Collection.Queries
import DocStore.Proofs.Index.Equality
import DocStore.Proofs.Query.Equality

/-!
# Collections with equal documents

Collections are alike when they have equal documents under the same keys in the same order and alike indexes (`Alike`).
Whatever is read from alike collections is equal: documents by key (`Alike.rel_get?`), the matches of equal predicates,
with an index or without (`Alike.rel_equalMatches`, `Alike.outcome_likeMatches`), and the answers of queries with equal
values (`Alike.rel_evaluate`).
-/

namespace DocStore.Collection

variable {c c' : Collection} {d e p p' : Document} {key : String}

/-- Collections with equal documents under the same keys in one order, and with alike indexes. -/
structure Alike (c c' : Collection) : Prop where
  name : c.name = c'.name
  config : c.config = c'.config
  documents : List.Forall₂ (Named Same) c.documents c'.documents
  indexes : List.Forall₂ Index.Alike c.indexes c'.indexes
  lastStamp : c.lastStamp = c'.lastStamp

namespace Alike

theorem separator (h : c.Alike c') : c.separator = c'.separator := congrArg Config.separator h.config

/-! ## Reading by key -/

theorem rel_get? (h : c.Alike c') (key : String) : Option.Rel Same (c.get? key) (c'.get? key) :=
  rel_lookup h.documents key

theorem outcome_get (h : c.Alike c') (key : String) : Outcome Same (c.get key) (c'.get key) := by
  have hget := h.rel_get? key
  unfold get
  generalize c.get? key = a at hget ⊢
  generalize c'.get? key = b at hget ⊢
  cases hget with
  | none => exact .error rfl
  | some hde => exact .ok hde

theorem contains_eq (h : c.Alike c') (key : String) : c.contains key = c'.contains key := by
  have hget := h.rel_get? key
  unfold contains
  generalize c.get? key = a at hget ⊢
  generalize c'.get? key = b at hget ⊢
  cases hget <;> rfl

theorem count_eq (h : c.Alike c') : c.count = c'.count := h.documents.length_eq

theorem rel_scan (h : c.Alike c') : List.Forall₂ Same c.scan c'.scan :=
  List.rel_map (fun _ _ hef => hef.2) h.documents

/-! ## Indexes -/

theorem listIndexes_eq (h : c.Alike c') : c.listIndexes = c'.listIndexes :=
  map_eq_map_of_forall₂ (fun _ _ hij => hij.descriptor) h.indexes

theorem hasIndex_eq (h : c.Alike c') (names : List String) : c.hasIndex names = c'.hasIndex names := by
  unfold hasIndex
  cases FieldList.ofNames names with
  | error e => rfl
  | ok fields =>
    have hfind := Index.rel_find?_fields fields h.indexes
    dsimp only
    generalize Index.find? fields c.indexes = a at hfind ⊢
    generalize Index.find? fields c'.indexes = b at hfind ⊢
    cases hfind <;> rfl

theorem outcome_lookupEqual (h : c.Alike c') (names : List String) {vs ws : List Value}
    (hvs : List.Forall₂ Same vs ws) : Outcome Eq (c.lookupEqual names vs) (c'.lookupEqual names ws) := by
  unfold lookupEqual
  cases FieldList.ofNames names with
  | error e => exact .error rfl
  | ok fields => exact Index.outcome_lookup fields hvs h.indexes

/-! ## Matches -/

theorem rel_stored? (h : c.Alike c') (key : String) : Option.Rel (Named Same) (c.stored? key) (c'.stored? key) :=
  rel_map (fun _ _ hde => ⟨rfl, hde⟩) (h.rel_get? key)

/-- Equal predicates are served by indexes alike. -/
theorem indexedKeys?_eq (h : c.Alike c') (hp : Same p p') : c.indexedKeys? p = c'.indexedKeys? p' := by
  have hselect := Index.rel_select? p'.names h.indexes
  unfold indexedKeys?
  rw [Document.names_eq_of_same hp]
  generalize Index.select? p'.names c.indexes = a at hselect ⊢
  generalize Index.select? p'.names c'.indexes = b at hselect ⊢
  cases hselect with
  | none => rfl
  | @some ix jx hij =>
    have hvs : List.Forall₂ Same (jx.names.filterMap p.get?) (jx.names.filterMap p'.get?) :=
      rel_filterMap_same (Document.rel_get? hp) jx.names
    dsimp only [Option.bind_some]
    rw [hij.names_eq, hvs.length_eq, hij.keysAt_eq (Index.Tuple.same_ofValues hvs)]

theorem rel_filter_satisfies (h : c.Alike c') (hp : Same p p') :
    List.Forall₂ (Named Same) (c.documents.filter fun e => p.satisfies c.separator e.2)
      (c'.documents.filter fun e => p'.satisfies c'.separator e.2) := by
  rw [h.separator]
  exact rel_filter (fun _ _ hef => Document.satisfies_eq_of_same c'.separator hp hef.2) h.documents

/-- Equal predicates have equal matches in one order. -/
theorem rel_equalMatches (h : c.Alike c') (hp : Same p p') :
    List.Forall₂ (Named Same) (c.equalMatches p) (c'.equalMatches p') := by
  unfold equalMatches
  rw [h.indexedKeys?_eq hp]
  cases c'.indexedKeys? p' with
  | none => exact h.rel_filter_satisfies hp
  | some keys => exact rel_filterMap_same h.rel_stored? keys

theorem equalKeys_eq (h : c.Alike c') (hp : Same p p') : c.equalKeys p = c'.equalKeys p' :=
  names_eq (h.rel_equalMatches hp)

theorem rel_firstEqual? (h : c.Alike c') (hp : Same p p') :
    Option.Rel (Named Same) (c.firstEqual? p) (c'.firstEqual? p') := by
  unfold firstEqual?
  rw [h.indexedKeys?_eq hp, h.separator]
  cases c'.indexedKeys? p' with
  | none => exact rel_find? (fun _ _ hef => Document.satisfies_eq_of_same c'.separator hp hef.2) h.documents
  | some keys => exact rel_findSome?_same h.rel_stored? keys

theorem countEqual_eq (h : c.Alike c') (hp : Same p p') : c.countEqual p = c'.countEqual p' := by
  unfold countEqual
  rw [h.indexedKeys?_eq hp]
  cases c'.indexedKeys? p' with
  | none =>
    dsimp only
    rw [List.countP_eq_length_filter, List.countP_eq_length_filter]
    exact (h.rel_filter_satisfies hp).length_eq
  | some keys => rfl

theorem countNotEqual_eq (h : c.Alike c') (hp : Same p p') : c.countNotEqual p = c'.countNotEqual p' := by
  unfold countNotEqual
  rw [h.count_eq, h.countEqual_eq hp]

theorem outcome_likeMatches [Like.Engine] (h : c.Alike c') (hp : Same p p') :
    Outcome (List.Forall₂ (Named Same)) (c.likeMatches p) (c'.likeMatches p') := by
  refine (Like.outcome_clauses hp).map fun cs cs' hcs => ?_
  rw [h.separator]
  exact rel_filter (fun _ _ hef => Like.matchesAny_eq_of_alike c'.separator hcs hef.2) h.documents

/-! ## Answers of queries -/

variable {q q' : Query.Bound}

theorem keysFor?_eq (h : c.Alike c') {cond cond' : Query.BoundCondition} (hcond : cond.Alike cond') :
    c.keysFor? cond = c'.keysFor? cond' := by
  have hselect := Index.rel_select? [cond'.field] h.indexes
  unfold keysFor?
  rw [hcond.op, Value.isNull_eq_of_same hcond.value, hcond.field]
  generalize Index.select? [cond'.field] c.indexes = a at hselect ⊢
  generalize Index.select? [cond'.field] c'.indexes = b at hselect ⊢
  cases hselect with
  | none => rfl
  | some hij =>
    have hvalue : Same (Index.Tuple.ofValues [cond.value]) (.ofValues [cond'.value]) :=
      Index.Tuple.same_ofValues (.cons hcond.value .nil)
    dsimp only [Option.map_some]
    rw [hij.keysAt_eq hvalue]

theorem rel_positioned? (h : c.Alike c') (key : String) :
    Option.Rel (fun a b => a.1 = b.1 ∧ Named Same a.2 b.2) (c.positioned? key) (c'.positioned? key) := by
  refine rel_map (fun a b hab => ⟨?_, hab⟩) (h.rel_stored? key)
  show c.documents.findIdx (·.1 == key) = c'.documents.findIdx (·.1 == key)
  rw [findIdx_key, findIdx_key, names_eq h.documents]

theorem rel_inScanOrder (h : c.Alike c') (keys : List String) :
    List.Forall₂ (Named Same) (c.inScanOrder keys) (c'.inScanOrder keys) := by
  have hpositioned : List.Forall₂ (fun a b => a.1 = b.1 ∧ Named Same a.2 b.2) (keys.filterMap c.positioned?)
      (keys.filterMap c'.positioned?) :=
    rel_filterMap_same h.rel_positioned? keys
  have hsorted := rel_mergeSort (p := fun a b => decide (a.1 ≤ b.1)) (q := fun a b => decide (a.1 ≤ b.1))
    (fun _ _ _ _ hab hcd => by rw [hab.1, hcd.1]) hpositioned
  exact List.rel_map (fun _ _ hab => hab.2) hsorted

theorem rel_candidates (h : c.Alike c') (hq : q.Alike q') :
    List.Forall₂ (Named Same) (c.candidates q) (c'.candidates q') := by
  have hkeys : q.conditions.findSome? c.keysFor? = q'.conditions.findSome? c'.keysFor? := by
    refine eq_of_rel_eq (rel_findSome? (fun cond cond' hcond => ?_) hq.conditions)
    rw [h.keysFor?_eq hcond]
    cases c'.keysFor? cond' with
    | none => exact .none
    | some keys => exact .some rfl
  unfold candidates
  rw [hkeys]
  cases q'.conditions.findSome? c'.keysFor? with
  | none => exact h.documents
  | some keys => exact h.rel_inScanOrder keys

/-- Alike queries have equal answers in one order. -/
theorem rel_evaluate (h : c.Alike c') (hq : q.Alike q') :
    List.Forall₂ (Named Same) (c.evaluate q) (c'.evaluate q') := by
  have hselected := rel_filter (p := fun e => q.conditions.all fun cond => cond.holds c.separator e.2)
    (q := fun e => q'.conditions.all fun cond => cond.holds c'.separator e.2)
    (fun a b hab => by
      rw [h.separator]
      exact all_eq_all_of_forall₂ (fun _ _ hcond => hcond.holds_eq c'.separator hab.2) hq.conditions)
    (h.rel_candidates hq)
  have hsorted := List.forall₂_drop q'.offset (Query.rel_sortEntries c'.separator q'.sort hselected)
  unfold evaluate
  rw [h.separator, hq.sort, hq.offset, hq.count] at *
  cases q'.count with
  | none => exact hsorted
  | some n => exact List.forall₂_take n hsorted

end Alike
end DocStore.Collection
