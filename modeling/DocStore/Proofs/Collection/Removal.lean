import DocStore.Proofs.Collection.Contents
import DocStore.Proofs.Collection.Iteration
import DocStore.Proofs.Index.Removal

/-!
# Removing what was found

A collection without some keys has the other documents in their order, and indexes without these keys
(`Collection.without`). Removing a document by its key comes to that in a consistent collection
(`Consistent.remove_eq_without`), and so does removing documents one after the other, each of which is still there at its
turn (`Consistent.removeKeys_eq`). Matches and answers are stored documents, each once, so a removal removes what the search
it is named after finds (`Consistent.removes_removeKeys`). Main statement: `Reachable.removals_exact`.
-/

namespace DocStore.Collection

variable {c c' : Collection} {key : String} {keys : List String} {es : List Entry} {d : Document} {ds : List Document}

/-! ## Collections without some keys -/

/-- The collection without the documents with some keys: the other documents keep their order, and every index has the
other keys in their order under every tuple. -/
def without (c : Collection) (keys : List String) : Collection :=
  { c with
    documents := c.documents.filter fun e => e.1 ∉ keys
    indexes := c.indexes.map (·.without keys) }

theorem without_nil (h : c.Consistent) : c.without [] = c := by
  have hdocuments : (c.documents.filter fun e => e.1 ∉ ([] : List String)) = c.documents :=
    List.filter_eq_self.mpr fun e _ => by simp
  have hindexes : c.indexes.map (·.without []) = c.indexes :=
    (List.map_congr_left fun ix hix => (h.tracks ix hix).without_eq_self (by simp)).trans (List.map_id _)
  rw [without, hdocuments, hindexes]

theorem without_without (c : Collection) (ks ms : List String) : (c.without ks).without ms = c.without (ks ++ ms) := by
  have hdocuments : ((c.documents.filter fun e => e.1 ∉ ks).filter fun e => e.1 ∉ ms) =
      c.documents.filter fun e => e.1 ∉ ks ++ ms := by
    rw [List.filter_filter]
    refine List.filter_congr fun e _ => ?_
    simp [Bool.and_comm]
  have hindexes : (c.indexes.map (·.without ks)).map (·.without ms) = c.indexes.map (·.without (ks ++ ms)) := by
    rw [List.map_map]
    exact List.map_congr_left fun ix _ => Index.without_without
  simp only [without, hdocuments, hindexes]

/-- To remove a stored document is to leave its key out. -/
theorem Consistent.remove_eq_without (h : c.Consistent) (hd : c.get? key = some d) :
    c.remove key = (some d, c.without [key]) := by
  have hdocuments : removeEntry key c.documents = c.documents.filter fun e => e.1 ∉ [key] :=
    removeEntry_eq_filter h.keys_nodup
  have hindexes : c.indexes.map (·.remove c.separator key d) = c.indexes.map (·.without [key]) :=
    List.map_congr_left fun ix hix => (h.tracks ix hix).remove_eq_without hd
  rw [remove_of_get?_eq_some hd, hdocuments, hindexes]
  rfl

/-- Stored documents with different keys are all removed, one after the other. -/
theorem Consistent.removeKeys_eq (h : c.Consistent) (hnd : (es.map (·.1)).Nodup)
    (hes : ∀ e ∈ es, c.get? e.1 = some e.2) :
    c.removeKeys (es.map (·.1)) = (es.map (·.2), c.without (es.map (·.1))) := by
  induction es generalizing c with
  | nil => exact Prod.ext rfl (without_nil h).symm
  | cons e es ih =>
    obtain ⟨he, hes⟩ := List.forall_mem_cons.mp hes
    rw [List.map_cons, List.nodup_cons] at hnd
    have hremove := h.remove_eq_without he
    have hnext : (c.without [e.1]).Consistent := by
      have hc := h.remove he
      rw [hremove] at hc
      exact hc
    have hget : ∀ f ∈ es, (c.without [e.1]).get? f.1 = some f.2 := by
      intro f hf
      have hne : f.1 ≠ e.1 := fun heq => hnd.1 (heq ▸ List.mem_map_of_mem hf)
      have hupdate : (c.remove e.1).2.get? = Function.update c.get? e.1 none := get?_remove h.keys_nodup
      rw [hremove] at hupdate
      rw [hupdate, Function.update_of_ne hne]
      exact hes f hf
    rw [List.map_cons, removeKeys, hremove]
    simp only [ih hnext hnd.2 hget]
    exact Prod.ext rfl (without_without c [e.1] (es.map (·.1)))

/-! ## Removals -/

/-- Some stored documents, all different, are gone, and with them their keys from every index. Nothing else has changed. -/
structure Removes (c : Collection) (ds : List Document) (c' : Collection) : Prop where
  stored : ∀ d ∈ ds, ∃ key, d.key = .ok key ∧ c.get? key = some d
  nodup : ds.Nodup
  state : c' = c.without (Contents.keysOf ds)

theorem Consistent.keysOf_map (h : c.Consistent) (hes : es ⊆ c.documents) :
    Contents.keysOf (es.map (·.2)) = es.map (·.1) := by
  induction es with
  | nil => rfl
  | cons e es ih =>
    obtain ⟨he, hes⟩ := List.cons_subset.mp hes
    rw [List.map_cons, Contents.keysOf_cons (h.key_eq e he), ih hes, List.map_cons]

/-- Removing some of the stored entries by their keys. -/
theorem Consistent.removes_removeKeys (h : c.Consistent) (hes : es.Subperm c.documents) :
    (c.removeKeys (es.map (·.1))).1 = es.map (·.2) ∧ c.Removes (es.map (·.2)) (c.removeKeys (es.map (·.1))).2 := by
  have hget : ∀ e ∈ es, c.get? e.1 = some e.2 := fun e he => (get?_eq_some_iff h.keys_nodup).mpr (hes.subset he)
  obtain ⟨hkeys, hdocuments⟩ := h.nodup_of_subperm hes
  rw [h.removeKeys_eq hkeys hget]
  refine ⟨rfl, fun d hd => ?_, hdocuments, by rw [h.keysOf_map hes.subset]⟩
  obtain ⟨e, he, rfl⟩ := List.mem_map.mp hd
  exact ⟨e.1, h.key_eq e (hes.subset he), hget e he⟩

theorem Consistent.removes_remove (h : c.Consistent) (hd : c.get? key = some d) : c.Removes [d] (c.remove key).2 := by
  have hmem : (key, d) ∈ c.documents := (get?_eq_some_iff h.keys_nodup).mp hd
  exact (h.removes_removeKeys (List.singleton_subperm_iff.mpr hmem)).2

theorem Consistent.removeOneEqual_eq (h : c.Consistent) (predicate : Document) :
    (c.removeOneEqual predicate).1 = c.findEqual predicate ∧
      ∀ d, (c.removeOneEqual predicate).1 = .ok d → c.Removes [d] (c.removeOneEqual predicate).2 := by
  unfold removeOneEqual findEqual
  cases hfirst : c.firstEqual? predicate with
  | none => exact ⟨rfl, fun d hd => by cases hd⟩
  | some e =>
    rw [firstEqual?_eq_head?] at hfirst
    have he : e ∈ c.documents := (h.equalMatches_subperm predicate).subset (List.mem_of_mem_head? hfirst)
    have hget : c.get? e.1 = some e.2 := (get?_eq_some_iff h.keys_nodup).mpr he
    have hremoves := h.removes_remove hget
    rw [h.remove_eq_without hget] at hremoves
    simp only [Option.bind_some, h.key_eq e he, Except.toOption, h.remove_eq_without hget, Except.ok.injEq, true_and]
    rintro d rfl
    exact hremoves

/-- The collection without a result window. -/
def unlimited (c : Collection) : Collection := { c with config := { c.config with resultWindow := none } }

theorem find_unlimited (c : Collection) (text : String) (params : Document) :
    c.unlimited.find text params = (c.bindQuery text params).map fun q => (c.evaluate q).map (·.2) := by
  have hbind : c.unlimited.bindQuery text params = c.bindQuery text params := rfl
  unfold find
  rw [hbind]
  cases c.bindQuery text params <;> rfl

theorem Consistent.removeQuery_eq (h : c.Consistent) (text : String) (params : Document) :
    (c.removeQuery text params).1 = c.unlimited.find text params ∧
      ∀ ds, (c.removeQuery text params).1 = .ok ds → c.Removes ds (c.removeQuery text params).2 := by
  rw [find_unlimited]
  unfold removeQuery
  cases c.bindQuery text params with
  | error e => exact ⟨rfl, fun ds hds => by cases hds⟩
  | ok q =>
    obtain ⟨hds, hremoves⟩ := h.removes_removeKeys (h.evaluate_subperm q)
    rw [← hds] at hremoves
    refine ⟨congrArg Except.ok hds, fun ds he => ?_⟩
    cases he
    exact hremoves

theorem Consistent.removeEqual_eq (h : c.Consistent) (predicate : Document) :
    (c.removeEqual predicate).1 = c.unlimited.findAllEqual predicate ∧
      c.Removes (c.removeEqual predicate).1 (c.removeEqual predicate).2 := by
  obtain ⟨hds, hremoves⟩ := h.removes_removeKeys (h.equalMatches_subperm predicate)
  rw [← hds] at hremoves
  exact ⟨hds, hremoves⟩

/-- **Removals remove what the search shows.** In a reachable collection a query is removed with the documents that it
finds, or the error that it finds, when no result window cuts them, a predicate with all of its matches or with the first
one. These are stored documents under different keys; afterwards they are gone, each index has lost their keys and no
other, and all else is as it was. Where all matches are removed no document matches any more. -/
theorem Reachable.removals_exact [Like.Engine] (h : c.Reachable) :
    (∀ text params, (c.removeQuery text params).1 = c.unlimited.find text params ∧
      ∀ ds, (c.removeQuery text params).1 = .ok ds → c.Removes ds (c.removeQuery text params).2) ∧
    (∀ predicate, (c.removeOneEqual predicate).1 = c.findEqual predicate ∧
      ∀ d, (c.removeOneEqual predicate).1 = .ok d → c.Removes [d] (c.removeOneEqual predicate).2) ∧
    ∀ predicate, (c.removeEqual predicate).1 = c.unlimited.findAllEqual predicate ∧
      c.Removes (c.removeEqual predicate).1 (c.removeEqual predicate).2 ∧
      ∀ e ∈ (c.removeEqual predicate).2.documents, predicate.satisfies c.separator e.2 = false := by
  have hc := h.consistent
  refine ⟨hc.removeQuery_eq, hc.removeOneEqual_eq, fun predicate => ?_⟩
  obtain ⟨hds, hremoves⟩ := hc.removeEqual_eq predicate
  have hkeys : Contents.keysOf (c.removeEqual predicate).1 = c.equalKeys predicate := by
    rw [hds]
    exact hc.keysOf_map (hc.equalMatches_subperm predicate).subset
  refine ⟨hds, hremoves, fun e he => ?_⟩
  rw [hremoves.state, without, hkeys, List.mem_filter, decide_eq_true_eq, hc.mem_equalKeys_iff] at he
  have hget : c.get? e.1 = some e.2 := (get?_eq_some_iff hc.keys_nodup).mpr he.1
  exact eq_false_of_ne_true fun hsatisfies => he.2 ⟨e.2, hget, hsatisfies⟩

open Like.Sized

/-- One of three documents with equal numbers goes by its fields, then another one; the indexes keep the rest. -/
theorem removals_exact_sample :
    let predicate := .ofList [("n", .int 2), ("size.w", .int 1)]
    (sample.removeEqual predicate).1.map (·.key.toOption) = [some "a", some "b"] ∧
    (sample.removeEqual predicate).1 = sample.unlimited.findAllEqual predicate ∧
    (sample.removeEqual predicate).2 = sample.without ["a", "b"] ∧
    (sample.removeEqual predicate).2.indexes.map (fun ix => ix.entries.map (·.2)) = [[["c"]], [["c"]]] ∧
    (sample.removeOneEqual (.ofList [("n", .int 2)])).1 = sample.findEqual (.ofList [("n", .int 2)]) ∧
    (sample.removeOneEqual (.ofList [("n", .int 2)])).2.indexes.map (fun ix => ix.entries.map (·.2)) =
      [[["c"], ["b"]], [["c", "b"]]] := by
  intro predicate
  obtain ⟨-, hone, hall⟩ := reachable_sample.removals_exact
  obtain ⟨hds, hremoves, -⟩ := hall predicate
  have hkeys : Contents.keysOf (sample.removeEqual predicate).1 = ["a", "b"] := by decide +kernel
  refine ⟨by decide +kernel, hds, hkeys ▸ hremoves.state, by decide +kernel, (hone _).1, by decide +kernel⟩

end DocStore.Collection
