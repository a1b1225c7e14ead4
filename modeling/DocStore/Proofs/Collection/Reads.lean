import DocStore.Proofs.Collection.Paging
import DocStore.Proofs.Collection.Refusals

/-!
# Reads of the same matches

The searches for one document and the counts, each of which goes its own way, answer from the lists that the searches for
all documents answer. The first match is the head of the list (`givesFirst_findEqual`). An index that serves a predicate has
no key twice and none that is not stored, so the number of its keys is that of the matches
(`Consistent.length_findAllEqual`), and the stored documents are the matches and those that are counted as others
(`Consistent.exists_others`). The reads of a query have the answers of a bound query in common, or the error
(`query_reads`).
-/

namespace DocStore

/-- A search for one document gives the first of some documents, and finds none exactly when there are none. -/
structure GivesFirst (x : Except StoreError Document) (ds : List Document) : Prop where
  found : ∀ d, x = .ok d ↔ ds.head? = some d
  notFound : (∃ e, x = .error e ∧ e.kind = .notFound) ↔ ds = []

theorem givesFirst_cons (d : Document) (ds : List Document) : GivesFirst (.ok d) (d :: ds) where
  found := by simp
  notFound := by simp

theorem givesFirst_nil {e : StoreError} (he : e.kind = .notFound) : GivesFirst (.error e) [] where
  found := by simp
  notFound := by simp [he]

namespace Collection

variable {c : Collection} {predicate : Document}

/-! ## Matches of a predicate -/

/-- The search for one match gives the first of all matches, which no result window cuts. -/
theorem givesFirst_equalMatches (predicate : Document) :
    GivesFirst (c.findEqual predicate) ((c.equalMatches predicate).map (·.2)) := by
  rw [findEqual, firstEqual?_eq_head?]
  cases c.equalMatches predicate with
  | nil => exact givesFirst_nil rfl
  | cons e es => exact givesFirst_cons e.2 (es.map (·.2))

theorem givesFirst_findEqual (hwindow : c.config.resultWindow = none) (predicate : Document) :
    GivesFirst (c.findEqual predicate) (c.findAllEqual predicate) := by
  rw [findAllEqual_eq hwindow]
  exact givesFirst_equalMatches predicate

/-- Every key of an index that serves a predicate is stored, so none is lost on the way to the matches. -/
theorem Consistent.countEqual_eq (h : c.Consistent) (predicate : Document) :
    c.countEqual predicate = (c.equalMatches predicate).length := by
  unfold countEqual equalMatches
  cases hk : c.indexedKeys? predicate with
  | none => exact List.countP_eq_length_filter
  | some keys =>
    refine (length_filterMap_of_isSome fun k hmem => ?_).symm
    obtain ⟨d, hd, -⟩ := ((h.mem_indexedKeys? hk).2 k).mp hmem
    simp [stored?, hd]

theorem Consistent.length_findAllEqual (h : c.Consistent) (hwindow : c.config.resultWindow = none)
    (predicate : Document) : (c.findAllEqual predicate).length = c.countEqual predicate := by
  rw [findAllEqual_eq hwindow, h.countEqual_eq, List.length_map]

theorem Consistent.countEqual_le (h : c.Consistent) (predicate : Document) : c.countEqual predicate ≤ c.count := by
  rw [h.countEqual_eq, (h.equalMatches_perm predicate).length_eq]
  exact List.length_filter_le _ _

/-- The stored documents are the matches of a predicate and others. -/
theorem Consistent.exists_others (h : c.Consistent) (hwindow : c.config.resultWindow = none) (predicate : Document) :
    ∃ others, (c.findAllEqual predicate ++ others).Perm c.scan ∧ (∀ d ∈ others, d ∉ c.findAllEqual predicate) ∧
      c.countNotEqual predicate = others.length := by
  have hperm : (c.findAllEqual predicate ++ c.scan.filter fun d => !predicate.satisfies c.separator d).Perm c.scan := by
    rw [findAllEqual_eq hwindow]
    exact ((h.map_equalMatches_perm predicate).append_right _).trans (List.filter_append_perm _ _)
  refine ⟨_, hperm, fun d hd hmem => ?_, ?_⟩
  · exact (List.nodup_append.mp (hperm.nodup_iff.mpr h.nodup_scan)).2.2 d hmem d hd rfl
  · have hlen := hperm.length_eq
    have hcount : c.scan.length = c.count := List.length_map _
    rw [List.length_append, h.length_findAllEqual hwindow, hcount] at hlen
    rw [countNotEqual]
    omega

/-! ## Answers of a query -/

/-- A text that is a query of the collection has its answers in all reads, and any other text has the same error in all. -/
theorem query_reads (hwindow : c.config.resultWindow = none) (text : String) (params : Document) :
    (∃ q ds, c.Poses text params q ∧ c.find text params = .ok ds ∧ GivesFirst (c.findOne text params) ds ∧
      c.countQuery text params = .ok ds.length) ∨
    (∀ q, ¬ c.Poses text params q) ∧ ∃ e, c.find text params = .error e ∧ c.findOne text params = .error e ∧
      c.countQuery text params = .error e := by
  unfold find findOne countQuery
  cases hb : c.bindQuery text params with
  | error e =>
    refine Or.inr ⟨fun q hq => ?_, e, rfl, rfl, rfl⟩
    rw [bindQuery_eq_ok_iff.mpr hq] at hb
    cases hb
  | ok q =>
    refine Or.inl ⟨q, (c.evaluate q).map (·.2), bindQuery_eq_ok_iff.mp hb, ?_, ?_, ?_⟩
    · exact congrArg Except.ok (Config.cap_eq_self hwindow _)
    · simp only [bind, Except.bind]
      cases c.evaluate q with
      | nil => exact givesFirst_nil rfl
      | cons e es => exact givesFirst_cons e.2 (es.map (·.2))
    · rw [List.length_map]
      rfl

end Collection
end DocStore
