import DocStore.Proofs.Collection.Queries
import DocStore.Proofs.Collection.Reads
import DocStore.Proofs.Collection.Refusals
import DocStore.Proofs.Index.Rebuilding
import DocStore.Proofs.Query.Binding

/-!
# Collections with the same documents in another order

Two collections of one name and configuration may hold the same documents in different orders (`Rearranged`). They have
the same document under every key (`Rearranged.get?_eq`), indexes over the same fields have the same keys under the same
tuples (`Rearranged.forall₂_indexes`), all counts are equal (`Rearranged.sameCounts`), and what is neither cut nor sliced
answers the same documents up to order (`Rearranged.sameSearches`).
-/

namespace DocStore

/-- With keys that are different the order of entries does not matter for what is found under a key. -/
theorem lookup_eq_of_perm {es fs : List (String × Document)} (h : es.Perm fs) (hnd : (es.map (·.1)).Nodup) (k : String) :
    es.lookup k = fs.lookup k := by
  refine Option.ext fun d => ?_
  rw [lookup_eq_some_iff hnd, lookup_eq_some_iff ((h.map _).nodup_iff.mp hnd), h.mem_iff]

/-- Lists of indexes with the same descriptors that track the same documents have the same keys under the same tuples. -/
theorem Index.forall₂_of_tracks {separator : String} {docs : String → Option Document} {ixs jxs : List Index}
    (hdescriptors : ixs.map (·.descriptor) = jxs.map (·.descriptor)) (h : ∀ ix ∈ ixs, ix.Tracks separator docs)
    (h' : ∀ jx ∈ jxs, jx.Tracks separator docs) :
    List.Forall₂ (fun ix jx => ix.descriptor = jx.descriptor ∧ List.Forall₂ SameKeys ix.entries jx.entries) ixs jxs := by
  induction ixs generalizing jxs with
  | nil =>
    rw [List.map_nil, eq_comm, List.map_eq_nil_iff] at hdescriptors
    rw [hdescriptors]
    exact .nil
  | cons ix ixs ih =>
    cases jxs with
    | nil => cases hdescriptors
    | cons jx jxs =>
      obtain ⟨hdescriptor, hdescriptors⟩ := List.cons.inj hdescriptors
      obtain ⟨hix, hixs⟩ := List.forall_mem_cons.mp h
      obtain ⟨hjx, hjxs⟩ := List.forall_mem_cons.mp h'
      exact .cons ⟨hdescriptor, hix.forall₂_sameKeys hjx (congrArg _ hdescriptor)⟩ (ih hdescriptors hixs hjxs)

/-- Without a limit nothing of the answers is cut off. -/
theorem Query.window_bind {q : Query} {params : Document} {b : Bound} {α : Type} (hq : q.limit = none)
    (hb : q.bind params = .ok b) (xs : List α) : Collection.window b xs = xs := by
  obtain ⟨hoffset, hcount⟩ := (bind_eq_ok_iff.mp hb).limit
  rw [hq] at hoffset hcount
  have hzero : b.offset = 0 := hoffset
  have hnone : b.count = none := by
    generalize b.count = n? at hcount
    cases hcount
    rfl
  rw [Collection.window, hnone, hzero]
  rfl

namespace Collection

variable {c c' : Collection} {b : Query.Bound}

/-- The collections have the same documents under one name and configuration, in any order. -/
structure Rearranged (c c' : Collection) : Prop where
  name : c.name = c'.name
  config : c.config = c'.config
  documents : c.documents.Perm c'.documents

/-- Two searches fail alike or answer the same documents in any order. -/
inductive SameAnswers : Except StoreError (List Document) → Except StoreError (List Document) → Prop where
  | error (e : StoreError) : SameAnswers (.error e) (.error e)
  | ok {ds ds' : List Document} (h : ds.Perm ds') : SameAnswers (.ok ds) (.ok ds')

/-- The counts of two collections are equal, those of queries with limits too. -/
structure SameCounts [Like.Engine] (c c' : Collection) : Prop where
  countEqual : ∀ p, c.countEqual p = c'.countEqual p
  countNotEqual : ∀ p, c.countNotEqual p = c'.countNotEqual p
  countLike : ∀ p, c.countLike p = c'.countLike p
  countQuery : ∀ text params, c.countQuery text params = c'.countQuery text params

/-- The searches of two collections answer the same documents in any order: queries without a limit, matches, and pages
that have room for all documents. -/
structure SameSearches [Like.Engine] (c c' : Collection) : Prop where
  find : ∀ text params, (∀ q, Query.parse text c.separator = .ok q → q.limit = none) →
    SameAnswers (c.find text params) (c'.find text params)
  findAllEqual : ∀ p, (c.findAllEqual p).Perm (c'.findAllEqual p)
  findEqualSorted : ∀ p order fields (limit : Int), c.count ≤ limit →
    (c.findEqualSorted p order fields 0 limit).Perm (c'.findEqualSorted p order fields 0 limit)
  findLikeSorted : ∀ p order fields (limit : Int), c.count ≤ limit →
    SameAnswers (c.findLikeSorted p order fields 0 limit) (c'.findLikeSorted p order fields 0 limit)

namespace Rearranged

/-! ## Documents and indexes -/

theorem separator (h : c.Rearranged c') : c.separator = c'.separator := congrArg Config.separator h.config

theorem get?_eq (h : c.Rearranged c') (hc : c.Consistent) : c.get? = c'.get? :=
  funext fun k => lookup_eq_of_perm h.documents hc.keys_nodup k

/-- Indexes over the same fields have the same tuples up to equality, each with the same keys. -/
theorem forall₂_indexes (h : c.Rearranged c') (hc : c.Consistent) (hc' : c'.Consistent)
    (hindexes : c.listIndexes = c'.listIndexes) :
    List.Forall₂ (fun ix jx => ix.descriptor = jx.descriptor ∧ List.Forall₂ Index.SameKeys ix.entries jx.entries)
      c.indexes c'.indexes := by
  have htracks : ∀ jx ∈ c'.indexes, jx.Tracks c.separator c.get? := by
    rw [h.separator, h.get?_eq hc]
    exact hc'.tracks
  exact Index.forall₂_of_tracks hindexes hc.tracks htracks

/-! ## Matches -/

theorem filter_satisfies_perm (h : c.Rearranged c') (predicate : Document) :
    (c.documents.filter fun e => predicate.satisfies c.separator e.2).Perm
      (c'.documents.filter fun e => predicate.satisfies c'.separator e.2) := by
  rw [h.separator]
  exact h.documents.filter _

theorem equalMatches_perm (h : c.Rearranged c') (hc : c.Consistent) (hc' : c'.Consistent) (predicate : Document) :
    (c.equalMatches predicate).Perm (c'.equalMatches predicate) :=
  (hc.equalMatches_perm predicate).trans ((h.filter_satisfies_perm predicate).trans (hc'.equalMatches_perm predicate).symm)

theorem countEqual_eq (h : c.Rearranged c') (hc : c.Consistent) (hc' : c'.Consistent) (predicate : Document) :
    c.countEqual predicate = c'.countEqual predicate := by
  rw [hc.countEqual_eq, hc'.countEqual_eq, (h.equalMatches_perm hc hc' predicate).length_eq]

theorem countNotEqual_eq (h : c.Rearranged c') (hc : c.Consistent) (hc' : c'.Consistent) (predicate : Document) :
    c.countNotEqual predicate = c'.countNotEqual predicate := by
  rw [countNotEqual, countNotEqual, h.countEqual_eq hc hc', count, count, h.documents.length_eq]

/-- A predicate is refused in both collections, or the same documents meet an alternative of it. -/
theorem likeMatches_cases [Like.Engine] (h : c.Rearranged c') (predicate : Document) :
    (∃ e, c.likeMatches predicate = .error e ∧ c'.likeMatches predicate = .error e) ∨
      ∃ es es', es.Perm es' ∧ es.length ≤ c.count ∧ c.likeMatches predicate = .ok es ∧
        c'.likeMatches predicate = .ok es' := by
  rw [likeMatches, likeMatches, h.separator]
  cases Like.clauses predicate with
  | error e => exact .inl ⟨e, rfl, rfl⟩
  | ok cs => exact .inr ⟨_, _, h.documents.filter _, List.length_filter_le _ _, rfl, rfl⟩

theorem countLike_eq [Like.Engine] (h : c.Rearranged c') (predicate : Document) :
    c.countLike predicate = c'.countLike predicate := by
  rw [countLike, countLike]
  rcases h.likeMatches_cases predicate with ⟨e, hc, hc'⟩ | ⟨es, es', hperm, -, hc, hc'⟩
  · rw [hc, hc']
  · rw [hc, hc', Except.map, Except.map, hperm.length_eq]

/-- Without a window a search by equality answers the same documents. -/
theorem findAllEqual_perm (h : c.Rearranged c') (hc : c.Consistent) (hc' : c'.Consistent)
    (hwindow : c.config.resultWindow = none) (predicate : Document) :
    (c.findAllEqual predicate).Perm (c'.findAllEqual predicate) := by
  rw [findAllEqual, findAllEqual, ← h.config, Config.cap_eq_self hwindow, Config.cap_eq_self hwindow]
  exact (h.equalMatches_perm hc hc' predicate).map _

/-- Without a window a page that has room for all of them has the same documents. -/
theorem sortedPage_perm (h : c.Rearranged c') (hwindow : c.config.resultWindow = none) {es es' : List Entry}
    (hes : es.Perm es') (order : SortOrder) (fields : List String) {limit : Int} (hlimit : es.length ≤ limit) :
    (c.sortedPage es order fields 0 limit).Perm (c'.sortedPage es' order fields 0 limit) := by
  have hsort (es : List Entry) : (Query.sortEntries c.separator (sortKeys order fields) es).Perm es :=
    (Query.isStableSort_sortEntries c.separator (sortKeys order fields) es).perm
  have hwhole (es : List Entry) (hes : es.length ≤ limit) :
      page 0 limit (Query.sortEntries c.separator (sortKeys order fields) es) =
        Query.sortEntries c.separator (sortKeys order fields) es := by
    rw [page, List.drop_zero, List.take_of_length_le]
    rw [(hsort es).length_eq]
    omega
  rw [sortedPage, sortedPage, ← h.config, ← h.separator, Config.cap_eq_self hwindow, Config.cap_eq_self hwindow,
    hwhole es hlimit, hwhole es' (hes.length_eq ▸ hlimit)]
  exact ((hsort es).trans (hes.trans (hsort es').symm)).map _

theorem findLikeSorted_sameAnswers [Like.Engine] (h : c.Rearranged c') (hwindow : c.config.resultWindow = none)
    (predicate : Document) (order : SortOrder) (fields : List String) {limit : Int} (hlimit : c.count ≤ limit) :
    SameAnswers (c.findLikeSorted predicate order fields 0 limit) (c'.findLikeSorted predicate order fields 0 limit) := by
  rw [findLikeSorted, findLikeSorted]
  rcases h.likeMatches_cases predicate with ⟨e, hc, hc'⟩ | ⟨es, es', hperm, hle, hc, hc'⟩
  · rw [hc, hc']
    exact .error e
  · rw [hc, hc']
    exact .ok (h.sortedPage_perm hwindow hperm order fields (Int.le_trans (Int.ofNat_le.mpr hle) hlimit))

/-! ## Queries -/

theorem bindQuery_eq (h : c.Rearranged c') : c.bindQuery = c'.bindQuery := by
  funext text params
  rw [bindQuery, bindQuery, h.separator, h.name]

theorem sorted_perm (h : c.Rearranged c') (b : Query.Bound) :
    (Query.sortEntries c.separator b.sort
        (c.documents.filter fun e => b.conditions.all fun cond => cond.holds c.separator e.2)).Perm
      (Query.sortEntries c'.separator b.sort
        (c'.documents.filter fun e => b.conditions.all fun cond => cond.holds c'.separator e.2)) := by
  rw [h.separator]
  have hsort (es : List Entry) : (Query.sortEntries c'.separator b.sort es).Perm es :=
    (Query.isStableSort_sortEntries c'.separator b.sort es).perm
  exact (hsort _).trans ((h.documents.filter _).trans (hsort _).symm)

/-- A query has as many answers, with its limit too. -/
theorem length_evaluate (h : c.Rearranged c') (hc : c.Consistent) (hc' : c'.Consistent) (b : Query.Bound) :
    (c.evaluate b).length = (c'.evaluate b).length := by
  rw [hc.evaluate_eq, hc'.evaluate_eq]
  have hlength := (h.sorted_perm b).length_eq
  unfold window
  cases b.count with
  | none => rw [List.length_drop, List.length_drop, hlength]
  | some n => rw [List.length_take, List.length_take, List.length_drop, List.length_drop, hlength]

theorem countQuery_eq (h : c.Rearranged c') (hc : c.Consistent) (hc' : c'.Consistent) (text : String)
    (params : Document) : c.countQuery text params = c'.countQuery text params := by
  unfold countQuery
  rw [h.bindQuery_eq]
  simp only [h.length_evaluate hc hc']

/-- Without a window and without a limit a query answers the same documents. -/
theorem find_sameAnswers (h : c.Rearranged c') (hc : c.Consistent) (hc' : c'.Consistent)
    (hwindow : c.config.resultWindow = none) {text : String} (params : Document)
    (hlimit : ∀ q, Query.parse text c.separator = .ok q → q.limit = none) :
    SameAnswers (c.find text params) (c'.find text params) := by
  unfold find
  rw [← h.bindQuery_eq, ← h.config]
  cases hb : c.bindQuery text params with
  | error e => exact .error e
  | ok b =>
    obtain ⟨q, hq, -, hbound⟩ := bindQuery_eq_ok_iff.mp hb
    have hwhole (xs : List Entry) : window b xs = xs := Query.window_bind (hlimit q hq) hbound xs
    refine .ok ?_
    rw [Config.cap_eq_self hwindow, Config.cap_eq_self hwindow, hc.evaluate_eq, hc'.evaluate_eq, hwhole, hwhole]
    exact (h.sorted_perm b).map _

theorem sameCounts [Like.Engine] (h : c.Rearranged c') (hc : c.Consistent) (hc' : c'.Consistent) : c.SameCounts c' where
  countEqual := h.countEqual_eq hc hc'
  countNotEqual := h.countNotEqual_eq hc hc'
  countLike := h.countLike_eq
  countQuery := h.countQuery_eq hc hc'

theorem sameSearches [Like.Engine] (h : c.Rearranged c') (hc : c.Consistent) (hc' : c'.Consistent)
    (hwindow : c.config.resultWindow = none) : c.SameSearches c' where
  find _ params hlimit := h.find_sameAnswers hc hc' hwindow params hlimit
  findAllEqual := h.findAllEqual_perm hc hc' hwindow
  findEqualSorted p order fields limit hlimit := by
    refine h.sortedPage_perm hwindow (h.equalMatches_perm hc hc' p) order fields ?_
    exact Int.le_trans (Int.ofNat_le.mpr (hc.equalMatches_subperm p).length_le) hlimit
  findLikeSorted p order fields _ hlimit := h.findLikeSorted_sameAnswers hwindow p order fields hlimit

end Rearranged

end Collection
end DocStore
