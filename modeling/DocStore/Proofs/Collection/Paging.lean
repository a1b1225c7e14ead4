import DocStore.Collection.Finding
import DocStore.Proofs.Collection.Equality
import DocStore.Proofs.Like.Clauses
import DocStore.Proofs.Query.Sorting
import DocStore.Proofs.Related

/-!
# Sorted pages

A page is a stretch of a list (`getElem?_page`), and pages of one size, one after the other, are the list (`flatMap_page`).
Without a result window the sorted searches answer pages of their matches in a stable order by the values at the sort fields
(`IsSorted`, `SortedPages`). Both directions leave documents with equal values as they stand among the matches, so neither
is the reverse of the other. A search by alternatives fails when the engine refuses a text of its predicate
(`findLikeSorted_eq_error_iff`). Main statement: `Reachable.sorted_pages`.
-/

namespace DocStore

namespace Collection

variable {c : Collection}

/-! ## Pages -/

section Page

variable {α β : Type} {xs : List α} {offset : Nat} {limit : Int}

theorem getElem?_page (i : Nat) : (page offset limit xs)[i]? = if (i : Int) < limit then xs[offset + i]? else none := by
  rw [page, List.getElem?_take, List.getElem?_drop]
  exact if_congr (by omega) rfl rfl

theorem page_eq_nil (h : limit ≤ 0 ∨ xs.length ≤ offset) : page offset limit xs = [] := by
  rcases h with h | h
  · rw [page, Int.toNat_of_nonpos h, List.take_zero]
  · rw [page, List.drop_eq_nil_of_le h, List.take_nil]

theorem map_page (f : α → β) : (page offset limit xs).map f = page offset limit (xs.map f) := by
  rw [page, page, List.map_take, List.map_drop]

/-- Pages of one size, one after the other, are the list up to where the last one ends. -/
theorem flatMap_page (size n : Nat) (xs : List α) :
    ((List.range n).flatMap fun i => page (i * size) size xs) = xs.take (n * size) := by
  induction n with
  | zero => simp
  | succ n ih =>
    rw [List.range_succ, List.flatMap_append, ih, List.flatMap_singleton, Nat.succ_mul, List.take_add]
    rfl

end Page

/-- A search answers pages of a list. -/
structure Pages (ds : List Document) (answer : Nat → Int → List Document) : Prop where
  /-- A page has the documents from its offset on, as many as its limit says. -/
  documents : ∀ offset limit (i : Nat), (answer offset limit)[i]? = if (i : Int) < limit then ds[offset + i]? else none
  /-- Without a positive limit, and behind the end, a page has no documents. -/
  empty : ∀ offset limit, limit ≤ 0 ∨ ds.length ≤ offset → answer offset limit = []
  /-- Pages of one size, one after the other, are the list. -/
  tiles : ∀ size n : Nat, ds.length ≤ n * size → ((List.range n).flatMap fun i => answer (i * size) size) = ds

theorem pages_page (ds : List Document) : Pages ds fun offset limit => page offset limit ds where
  documents _ _ := getElem?_page
  empty _ _ := page_eq_nil
  tiles size n h := by rw [flatMap_page, List.take_of_length_le h]

/-- The first page is the whole list when its limit allows. -/
theorem Pages.whole {ds : List Document} {answer : Nat → Int → List Document} (h : Pages ds answer) {n : Nat}
    (hn : ds.length ≤ n) : answer 0 n = ds := by
  have htiles := h.tiles n 1 (by omega)
  simpa using htiles

/-! ## Sorted matches -/

/-- The second list is the first one stably sorted by the values at some fields, in one direction. -/
abbrev IsSorted (c : Collection) (order : SortOrder) (fields : List String) : List Document → List Document → Prop :=
  IsStableSort fun d e =>
    order.apply (compare (Query.sortTuple c.separator fields d) (Query.sortTuple c.separator fields e))

/-- The sorted entries of a collection. -/
def sorted (c : Collection) (order : SortOrder) (fields : List String) (es : List Entry) : List Entry :=
  Query.sortEntries c.separator (sortKeys order fields) es

theorem isSorted_sorted (order : SortOrder) (fields : List String) (es : List Entry) :
    c.IsSorted order fields (es.map (·.2)) ((c.sorted order fields es).map (·.2)) := by
  have hmap : (c.sorted order fields es).map (·.2) = (es.map (·.2)).mergeSort
      fun d e => (Query.sortOrder c.separator (sortKeys order fields) d e).isLE := List.map_mergeSort fun _ _ _ _ => rfl
  rw [hmap]
  simp only [sortKeys, Query.sortOrder_map]
  exact isStableSort_mergeSort _

theorem sortedPage_eq (hwindow : c.config.resultWindow = none) (es : List Entry) (order : SortOrder)
    (fields : List String) (offset : Nat) (limit : Int) :
    c.sortedPage es order fields offset limit = page offset limit ((c.sorted order fields es).map (·.2)) := by
  rw [sortedPage, Config.cap_eq_self hwindow, map_page]
  rfl

/-- A search answers pages of what it finds, sorted by the values at some fields in the wanted direction. Documents with
equal values stand as they were found in both directions, so these are not the reverse of each other. -/
structure SortedPages (c : Collection) (fields : List String) (found : List Document)
    (answer : SortOrder → Nat → Int → List Document) : Prop where
  pages : ∀ order, ∃ ds, c.IsSorted order fields found ds ∧ Pages ds (answer order)
  ties : ∀ d ∈ found, ∀ e ∈ found, d ≠ e →
    compare (Query.sortTuple c.separator fields d) (Query.sortTuple c.separator fields e) = .eq →
    ∀ n : Nat, found.length ≤ n → answer .descending 0 n ≠ (answer .ascending 0 n).reverse

theorem sortedPages_sortedPage (hwindow : c.config.resultWindow = none) (fields : List String) {es : List Entry}
    (hnd : (es.map (·.2)).Nodup) : c.SortedPages fields (es.map (·.2)) fun order => c.sortedPage es order fields := by
  have hpages (order : SortOrder) :
      Pages ((c.sorted order fields es).map (·.2)) (c.sortedPage es order fields) := by
    simpa only [← sortedPage_eq hwindow] using pages_page ((c.sorted order fields es).map (·.2))
  refine ⟨fun order => ⟨_, isSorted_sorted order fields es, hpages order⟩, fun d hd e he hne heq n hn => ?_⟩
  have hlen (order : SortOrder) : ((c.sorted order fields es).map (·.2)).length ≤ n := by
    rw [(isSorted_sorted order fields es).perm.length_eq]
    exact hn
  rw [(hpages .descending).whole (hlen .descending), (hpages .ascending).whole (hlen .ascending)]
  exact (isSorted_sorted .ascending fields es).ne_reverse (isSorted_sorted .descending fields es) hnd hd he hne
    Std.ReflOrd.compare_self heq

theorem findAllEqual_eq (hwindow : c.config.resultWindow = none) (predicate : Document) :
    c.findAllEqual predicate = (c.equalMatches predicate).map (·.2) :=
  Config.cap_eq_self hwindow _

/-! ## Alternatives -/

section Alternatives

variable {predicate : Document} {order : SortOrder} {fields : List String} {offset : Nat} {limit : Int}

theorem findLikeSorted_eq [Like.Engine] {cs : List Like.Clause} (hcs : Like.clauses predicate = .ok cs) :
    c.findLikeSorted predicate order fields offset limit = .ok
      (c.sortedPage (c.documents.filter fun e => Like.matchesAny c.separator cs e.2) order fields offset limit) := by
  rw [findLikeSorted, likeMatches, hcs]
  rfl

/-- The first text of a predicate that is refused gives the error of a search, whatever page is wanted. -/
theorem findLikeSorted_eq_error_iff [Like.Engine] {e : StoreError} :
    c.findLikeSorted predicate order fields offset limit = .error e ↔
      FirstFailing Like.Accepted Like.Refused predicate.entries e := by
  rw [← Like.clauses_eq_error_iff]
  exact map_eq_error_iff.trans map_eq_error_iff

end Alternatives

/-- **Sorting and paging.** Any sort keys order all documents totally, up to documents that have equal values at each of
them. The first key that tells two documents apart decides, in its direction, and a missing field comes before every value
when ascending and after it when descending. In a reachable collection without a result window the sorted equality searches
answer pages of all matches. The sorted searches by alternatives end with an error exactly when the engine refuses a text of
the predicate as a pattern, whatever the page, and otherwise answer pages of the documents of a scan that meet some. -/
theorem Reachable.sorted_pages [Like.Engine] (h : c.Reachable) (hwindow : c.config.resultWindow = none) :
    (∀ separator ks, Std.TransCmp (Query.sortOrder separator ks)) ∧
    (∀ separator ks a b, Query.sortOrder separator ks a b = .eq ↔
      ∀ k ∈ ks, compare (a.getPath k.field separator) (b.getPath k.field separator) = .eq) ∧
    (∀ separator ks ks' field order a b, Query.sortOrder separator ks a b = .eq →
      compare (a.getPath field separator) (b.getPath field separator) ≠ .eq →
        Query.sortOrder separator (ks ++ ⟨field, order⟩ :: ks') a b =
          order.apply (compare (a.getPath field separator) (b.getPath field separator))) ∧
    (∀ separator ks ks' field a b v, Query.sortOrder separator ks a b = .eq →
      a.getPath field separator = none → b.getPath field separator = some v →
        Query.sortOrder separator (ks ++ ⟨field, .ascending⟩ :: ks') a b = .lt ∧
        Query.sortOrder separator (ks ++ ⟨field, .descending⟩ :: ks') a b = .gt) ∧
    (∀ predicate fields, c.SortedPages fields (c.findAllEqual predicate)
      fun order => c.findEqualSorted predicate order fields) ∧
    (∀ predicate order fields offset limit e, c.findLikeSorted predicate order fields offset limit = .error e ↔
      FirstFailing Like.Accepted Like.Refused predicate.entries e) ∧
    (∀ x e, Like.Refused x e → e.kind = .validationError) ∧
    ∀ predicate fields, (∀ x ∈ predicate.entries, Like.Accepted x) →
      ∃ (found : List Document) (answer : SortOrder → Nat → Int → List Document), found.Sublist c.scan ∧
        (∀ d, d ∈ found ↔ d ∈ c.scan ∧ predicate.MeetsSome c.separator d) ∧
        (∀ order offset limit, c.findLikeSorted predicate order fields offset limit = .ok (answer order offset limit)) ∧
        c.SortedPages fields found answer := by
  have hc := h.consistent
  refine ⟨fun _ _ => inferInstance, fun _ _ _ _ => Query.sortOrder_eq_iff, fun _ _ _ _ _ _ _ => Query.sortOrder_decided,
    fun _ _ _ _ _ _ _ => Query.sortOrder_missing, fun predicate fields => ?_,
    fun _ _ _ _ _ _ => findLikeSorted_eq_error_iff, fun _ _ hrefused => hrefused.kind_eq,
    fun predicate fields haccepted => ?_⟩
  · rw [findAllEqual_eq hwindow]
    exact sortedPages_sortedPage hwindow fields (hc.nodup_of_subperm (hc.equalMatches_subperm predicate)).2
  · obtain ⟨cs, hcs⟩ := Like.exists_clauses_iff.mpr haccepted
    have hsub : ((c.documents.filter fun e => Like.matchesAny c.separator cs e.2).map (·.2)).Sublist c.scan :=
      List.filter_sublist.map _
    refine ⟨_, _, hsub, fun d => ?_, fun _ _ _ => findLikeSorted_eq hcs,
      sortedPages_sortedPage hwindow fields (hsub.nodup hc.nodup_scan)⟩
    simp only [scan, List.mem_map, List.mem_filter, Like.matchesAny_iff hcs]
    constructor
    · rintro ⟨e, ⟨he, hmeets⟩, rfl⟩
      exact ⟨⟨e, he, rfl⟩, hmeets⟩
    · rintro ⟨⟨e, he, rfl⟩, hmeets⟩
      exact ⟨e, ⟨he, hmeets⟩, rfl⟩

open Like.Sized

/-- Two of three matches have equal numbers, one of each kind, and the third one lacks the field. A pattern is searched for,
but not together with a text of a million characters. -/
theorem sorted_pages_sample :
    let found := sample.findAllEqual (.ofList [("n", .int 2)])
    let answer := fun order => sample.findEqualSorted (.ofList [("n", .int 2)]) order ["size.w"]
    sample.config.resultWindow = none ∧ found.map (·.key.toOption) = [some "a", some "c", some "b"] ∧
    sample.IsSorted .descending ["size.w"] found (answer .descending 0 3) ∧
    ((List.range 3).flatMap fun i => answer .descending (i * 1) 1) = answer .descending 0 3 ∧
    answer .descending 0 3 ≠ (answer .ascending 0 3).reverse ∧
    (∃ (matched : List Document) (pages : SortOrder → Nat → Int → List Document),
      sample.findLikeSorted (.ofList [("_key", .string "_")]) .descending ["size.w"] 1 2 = .ok (pages .descending 1 2) ∧
      sample.SortedPages ["size.w"] matched pages) ∧
    sample.findLikeSorted (.ofList [("_key", .string "_"), ("n", .string longText)]) .descending ["size.w"] 1 2 =
      .error (.badPattern (.tooLarge 10485760)) := by
  intro found answer
  obtain ⟨-, -, -, -, hequal, herror, -, hlike⟩ := reachable_sample.sorted_pages rfl
  have hsearch : sample.SortedPages ["size.w"] found answer := hequal (.ofList [("n", .int 2)]) ["size.w"]
  have hfound : found.length = 3 := by decide +kernel
  obtain ⟨ds, hsorted, hpages⟩ := hsearch.pages .descending
  have hlen : ds.length = 3 := hsorted.perm.length_eq.trans hfound
  have hwhole : answer .descending 0 3 = ds := hpages.whole (n := 3) (by omega)
  have hties : ∃ d ∈ found, ∃ e ∈ found, d.key.toOption ≠ e.key.toOption ∧
      compare (Query.sortTuple sample.separator ["size.w"] d) (Query.sortTuple sample.separator ["size.w"] e) = .eq := by
    decide +kernel
  obtain ⟨d, hd, e, he, hkeys, heq⟩ := hties
  have hne : d ≠ e := fun hde => hkeys (hde ▸ rfl)
  have haccepted : ∀ x ∈ [("_key", Value.string "_")], Like.Accepted x := by
    refine List.forall_mem_singleton.mpr fun s hs => ?_
    cases hs
    decide +kernel
  refine ⟨rfl, by decide +kernel, hwhole ▸ hsorted, ?_, hsearch.ties d hd e he hne heq 3 (by omega), ?_, ?_⟩
  · rw [hwhole]
    exact hpages.tiles 1 3 (by omega)
  · obtain ⟨matched, pages, -, -, hpage, hsorted⟩ := hlike (.ofList [("_key", .string "_")]) ["size.w"] haccepted
    exact ⟨matched, pages, hpage .descending 1 2, hsorted⟩
  · exact (herror _ _ _ _ _ _).mpr ⟨[("_key", .string "_")], _, [], rfl, haccepted, refused_longText "n"⟩

end Collection
end DocStore
