import DocStore.Proofs.Collection.Consistency

/-!
# Equality reads

An index over exactly the fields of a predicate has a value of the predicate for each of its fields
(`indexedKeys?_eq_map`), so in a consistent collection it holds the keys of exactly the documents that satisfy the
predicate (`Consistent.mem_indexedKeys?`). Hence the matches of a predicate are those of a scan in another order at most
(`Consistent.equalMatches_perm`), and the first match is the first of them (`firstEqual?_eq_head?`). Main statement:
`Reachable.equalMatches_exact`.
-/

namespace DocStore

/-! ## Values for names -/

section Values

variable {α β : Type} {g : α → Option β} {as : List α}

theorem map_some_filterMap (h : ∀ a ∈ as, (g a).isSome) : (as.filterMap g).map some = as.map g := by
  induction as with
  | nil => rfl
  | cons a as ih =>
    obtain ⟨ha, h⟩ := List.forall_mem_cons.mp h
    obtain ⟨b, hb⟩ := Option.isSome_iff_exists.mp ha
    rw [List.filterMap_cons_some hb, List.map_cons, List.map_cons, ih h, hb]

theorem length_filterMap_of_isSome (h : ∀ a ∈ as, (g a).isSome) : (as.filterMap g).length = as.length := by
  have hlength := congrArg List.length (map_some_filterMap h)
  rwa [List.length_map, List.length_map] at hlength

/-- When everything has a value, a relation to the values side by side is one to the value of each. -/
theorem forall₂_filterMap_iff {R : α → β → Prop} (h : ∀ a ∈ as, (g a).isSome) :
    List.Forall₂ R as (as.filterMap g) ↔ ∀ a ∈ as, ∀ b, g a = some b → R a b := by
  induction as with
  | nil => simp
  | cons a as ih =>
    obtain ⟨ha, h⟩ := List.forall_mem_cons.mp h
    obtain ⟨b, hb⟩ := Option.isSome_iff_exists.mp ha
    rw [List.filterMap_cons_some hb, List.forall₂_cons, ih h, List.forall_mem_cons]
    simp only [hb, Option.some.injEq, forall_eq']

end Values

/-! ## Predicates -/

/-- A document satisfies a predicate when it has an equal value at every path of the predicate. -/
theorem Document.satisfies_iff {separator : String} {predicate d : Document} :
    predicate.satisfies separator d = true ↔
      ∀ path v, predicate.get? path = some v → ∃ w, d.getPath path separator = some w ∧ (w == v) = true := by
  simp only [satisfies, List.all_eq_true, get?_eq_some_iff, Prod.forall]
  refine forall_congr' fun path => forall_congr' fun v => imp_congr_right fun _ => ?_
  cases d.getPath path separator with
  | none => simp
  | some w => simp

namespace Collection

variable {c : Collection} {predicate : Document}

theorem isSome_of_select? {ix : Index} (h : Index.select? predicate.names c.indexes = some ix) :
    ∀ path ∈ ix.names, (predicate.get? path).isSome := by
  intro path hpath
  have hp := (Index.perm_of_select? h).2
  obtain ⟨v, hv⟩ := Document.mem_names_iff.mp (hp.mem_iff.mp hpath)
  rw [hv, Option.isSome_some]

/-- Whenever an index serves the fields of a predicate, the keys come from it. -/
theorem indexedKeys?_eq_map : c.indexedKeys? predicate = (Index.select? predicate.names c.indexes).map fun ix =>
    ix.keysAt (.ofValues (ix.names.filterMap predicate.get?)) := by
  unfold indexedKeys?
  cases hs : Index.select? predicate.names c.indexes with
  | none => rfl
  | some ix =>
    have hlen := length_filterMap_of_isSome (isSome_of_select? hs)
    rw [(Index.perm_of_select? hs).2.length_eq] at hlen
    exact if_pos hlen

/-- The index that serves a predicate holds the keys of exactly the documents that satisfy it. -/
theorem Consistent.mem_indexedKeys? (h : c.Consistent) {ks : List String} (hk : c.indexedKeys? predicate = some ks) :
    ks.Nodup ∧ ∀ k, k ∈ ks ↔ ∃ d, c.get? k = some d ∧ predicate.satisfies c.separator d = true := by
  rw [indexedKeys?_eq_map, Option.map_eq_some_iff] at hk
  obtain ⟨ix, hs, rfl⟩ := hk
  obtain ⟨hix, hp⟩ := Index.perm_of_select? hs
  have ht := h.tracks ix hix
  refine ⟨Index.nodup_keysIn ht.ordered _, fun k => ?_⟩
  rw [ht.mem_keysAt_ofValues]
  refine exists_congr fun d => and_congr_right fun _ => ?_
  -- the values in the order of the index say the same as those in the order of the predicate
  have hvalues := forall₂_filterMap_iff
    (R := fun path v => ∃ w, d.getPath path c.separator = some w ∧ (w == v) = true) (isSome_of_select? hs)
  rw [hvalues, Document.satisfies_iff]
  constructor
  · intro hd path v hv
    exact hd path (hp.mem_iff.mpr (Document.mem_names_iff.mpr ⟨v, hv⟩)) v hv
  · intro hd path _ v hv
    exact hd path v hv

/-! ## Matches -/

theorem Consistent.equalMatches_perm (h : c.Consistent) (predicate : Document) :
    (c.equalMatches predicate).Perm (c.documents.filter fun e => predicate.satisfies c.separator e.2) := by
  unfold equalMatches
  split
  · next ks hk =>
    obtain ⟨hnd, hmem⟩ := h.mem_indexedKeys? hk
    have hfilter : (c.documents.filter fun e => e.1 ∈ ks) =
        c.documents.filter fun e => predicate.satisfies c.separator e.2 := by
      refine List.filter_congr fun e he => ?_
      have hget : c.get? e.1 = some e.2 := (get?_eq_some_iff h.keys_nodup).mpr he
      rw [Bool.eq_iff_iff, decide_eq_true_eq, hmem, hget]
      simp only [Option.some.injEq, exists_eq_left']
    rw [← hfilter]
    exact filterMap_stored?_perm h.keys_nodup hnd
  · exact .refl _

/-- The matches of a predicate are some of the stored entries, each once. -/
theorem Consistent.equalMatches_subperm (h : c.Consistent) (predicate : Document) :
    (c.equalMatches predicate).Subperm c.documents :=
  (h.equalMatches_perm predicate).subperm.trans List.filter_sublist.subperm

theorem equalMatches_eq_filter (hno : ∀ ix ∈ c.indexes, ¬ ix.names.Perm predicate.names) :
    c.equalMatches predicate = c.documents.filter fun e => predicate.satisfies c.separator e.2 := by
  have hs := (Index.select?_eq_none_iff predicate.nodup_names).mpr hno
  unfold equalMatches
  rw [indexedKeys?_eq_map, hs]
  rfl

/-- The matching documents are those of a scan that satisfy the predicate. -/
theorem Consistent.map_equalMatches_perm (h : c.Consistent) (predicate : Document) :
    ((c.equalMatches predicate).map (·.2)).Perm (c.scan.filter (predicate.satisfies c.separator)) := by
  rw [scan, List.filter_map]
  exact (h.equalMatches_perm predicate).map _

/-- The first match of a predicate is the first of its matches. -/
theorem firstEqual?_eq_head? (predicate : Document) : c.firstEqual? predicate = (c.equalMatches predicate).head? := by
  unfold firstEqual? equalMatches
  cases c.indexedKeys? predicate with
  | none => exact List.head?_filter.symm
  | some keys => exact List.head?_filterMap.symm

theorem Consistent.firstEqual?_eq_none_iff (h : c.Consistent) {predicate : Document} :
    c.firstEqual? predicate = none ↔ ∀ e ∈ c.documents, predicate.satisfies c.separator e.2 = false := by
  have hlen := (h.equalMatches_perm predicate).length_eq
  rw [firstEqual?_eq_head?, List.head?_eq_none_iff, ← List.length_eq_zero_iff, hlen, List.length_eq_zero_iff,
    List.filter_eq_nil_iff]
  simp only [Bool.not_eq_true]

/-- **With or without an index, an equality read selects the same documents.** In a reachable collection the matches of a
predicate are the stored documents with an equal value at each of its paths, every one once; in scan order when no index
is over the fields of the predicate, and in some order always. -/
theorem Reachable.equalMatches_exact [Like.Engine] (h : c.Reachable) (predicate : Document) :
    ((c.equalMatches predicate).map (·.1)).Nodup ∧
    (∀ e, e ∈ c.equalMatches predicate ↔ e ∈ c.documents ∧
      ∀ path v, predicate.get? path = some v → ∃ w, e.2.getPath path c.separator = some w ∧ (w == v) = true) ∧
    ((∀ ix ∈ c.indexes, ¬ ix.names.Perm predicate.names) →
      c.equalMatches predicate = c.documents.filter fun e => predicate.satisfies c.separator e.2) ∧
    (c.equalMatches predicate).Perm (c.documents.filter fun e => predicate.satisfies c.separator e.2) := by
  have hc := h.consistent
  have hp := hc.equalMatches_perm predicate
  refine ⟨?_, fun e => ?_, equalMatches_eq_filter, hp⟩
  · have hsub := (List.filter_sublist (p := fun e => predicate.satisfies c.separator e.2) (l := c.documents)).map (·.1)
    exact (hp.map _).nodup_iff.mpr (hsub.nodup hc.keys_nodup)
  · rw [hp.mem_iff, List.mem_filter, Document.satisfies_iff]

open Like.Sized

theorem equalMatches_exact_sample :
    sample.equalMatches (.ofList [("n", .int 2), ("size.w", .int 1)]) ≠ [] ∧
    (sample.equalMatches (.ofList [("n", .int 2), ("size.w", .int 1)])).Perm (sample.documents.filter fun e =>
      (Document.ofList [("n", .int 2), ("size.w", .int 1)]).satisfies sample.separator e.2) := by
  obtain ⟨-, -, -, hp⟩ := reachable_sample.equalMatches_exact (.ofList [("n", .int 2), ("size.w", .int 1)])
  have hne : (sample.equalMatches (.ofList [("n", .int 2), ("size.w", .int 1)])).map (·.1) = ["a", "b"] := by
    decide +kernel
  refine ⟨fun he => ?_, hp⟩
  rw [he] at hne
  cases hne

end Collection
end DocStore
