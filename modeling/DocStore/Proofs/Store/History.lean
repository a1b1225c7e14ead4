import DocStore.Proofs.Collection.History
import DocStore.Proofs.Store.Reads

/-!
# Matches in the order in which they came

The matches that an index serves are the documents with the keys under one of its tuples, in the order of the keys
(`Collection.Consistent.equalKeys_of_select?`). After a run this is the order in which the keys last came under the tuple
since the index was created, as its history tells, and the searches by equality, the iterations that nothing disturbs and
the lookups answer in this order (`Collection.index_order_exact`).
-/

namespace DocStore.Collection

open Index (Arrival)

variable {c : Collection} {predicate : Document} {ix : Index}

/-! ## Matches that an index serves -/

/-- The matches have the keys that the index has under the values of the predicate, in their order. -/
theorem Consistent.equalKeys_of_select? (h : c.Consistent) (hs : Index.select? predicate.names c.indexes = some ix) :
    c.equalKeys predicate = ix.keysAt (.ofValues (ix.names.filterMap predicate.get?)) := by
  have hkeys : c.indexedKeys? predicate = some (ix.keysAt (.ofValues (ix.names.filterMap predicate.get?))) := by
    rw [indexedKeys?_eq_map, hs]
    rfl
  unfold equalKeys equalMatches
  rw [hkeys]
  dsimp only
  rw [List.map_filterMap]
  refine (List.filterMap_congr fun k hk => ?_).trans List.filterMap_some
  obtain ⟨d, hd, -⟩ := ((h.mem_indexedKeys? hkeys).2 k).mp hk
  rw [stored?, hd]
  rfl

theorem Consistent.map_key_equalMatches (h : c.Consistent) (predicate : Document) :
    ((c.equalMatches predicate).map (·.2)).map Document.key = (c.equalKeys predicate).map .ok := by
  rw [equalKeys, List.map_map, List.map_map]
  exact List.map_congr_left fun e he => h.key_eq e ((h.equalMatches_subperm predicate).subset he)

/-! ## The order of an index -/

/-- **The keys under a tuple stand in the order in which they last came under it.** After a run take an index with its
history since it was created. The keys under a tuple are those that came under it and whose documents still have it, each
before the keys that came after its own last arrival. A lookup gives them in this order. For a predicate that the index
serves, the keys with which an iteration begins are those under its values, in this order, and all matches are their
documents; the search for one match gives the first of them, and an iteration that no action disturbs gives one after the
other. -/
theorem index_order_exact [Like.Engine] {name : String} {settings : List Setting} {config : Config}
    {actions : List Action}
    (hset : Config.setAll {} settings = .ok config) (hix : ix ∈ ((empty name config.freeze).run actions).indexes) :
    let c := (empty name config.freeze).run actions
    let log := (empty name config.freeze).history ix.descriptor.fields [] actions
    (∀ t, (ix.keysAt t).Pairwise (Arrival.LastBefore log t) ∧ ∀ k, k ∈ ix.keysAt t ↔
      (∃ a ∈ log, a.Brings k t) ∧ ∃ d, c.get? k = some d ∧ (ix.tupleOf c.separator d == t) = true) ∧
    (∀ vs, vs.length = ix.names.length → c.lookupEqual ix.names vs = .ok (ix.keysAt (.ofValues vs))) ∧
    ∀ predicate, Index.select? predicate.names c.indexes = some ix →
      c.equalKeys predicate = ix.keysAt (.ofValues (ix.names.filterMap predicate.get?)) ∧
      ∃ ds, (∀ d ∈ ds, d ∈ c.scan) ∧ ds.map Document.key = (c.equalKeys predicate).map .ok ∧
        c.findAllEqual predicate = c.config.cap ds ∧ GivesFirst (c.findEqual predicate) ds ∧
        ∀ (σ : Session) (handle : Handle), handle.index < σ.store.cells.length → σ.store.cell handle = c →
          ∀ events, (∀ e ∈ events, Session.Event.Keeps handle c e) →
            Session.given σ.cursors.length (σ.perform (.beginEqual handle predicate)) events =
              ds.take (Session.steps σ.cursors.length events) := by
  intro c log
  have hstart : (empty name config.freeze).Reachable := ⟨name, settings, config, [], hset, rfl⟩
  have hreach : c.Reachable := ⟨name, settings, config, actions, hset, rfl⟩
  have hc := hreach.consistent
  have hfollows : ix.Follows c.separator c.get? log := hstart.follows_run follows_empty actions ix hix rfl
  refine ⟨fun t => ⟨hfollows.pairwise t, fun k => ?_⟩, fun vs hlen => hc.lookupEqual_eq hix hlen, fun predicate hs => ?_⟩
  · rw [hfollows t, List.mem_filter, Arrival.mem_lastUnder, Option.any_eq_true]
  · refine ⟨hc.equalKeys_of_select? hs, (c.equalMatches predicate).map (·.2), fun d hd => ?_,
      hc.map_key_equalMatches predicate, rfl, givesFirst_equalMatches predicate, ?_⟩
    · exact (List.map_subset _ (hc.equalMatches_subperm predicate).subset) hd
    · intro σ handle hlt hcell events hkeep
      rw [← hcell] at hc hkeep ⊢
      exact Session.given_beginEqual hc hlt predicate hkeep

/-- A run in which one document moves away and back, one is rewritten with an equal number and one is written again after it
was deleted. -/
def orderActions : List Action :=
  [.upsert 1 (.ofList [("_key", .string "a"), ("n", .int 1)]),
   .upsert 2 (.ofList [("_key", .string "b"), ("n", .int 1)]),
   .upsert 3 (.ofList [("_key", .string "c"), ("n", .int 1)]),
   .addIndex ["n"] false,
   .upsert 4 (.ofList [("_key", .string "a"), ("n", .int 2)]),
   .upsert 5 (.ofList [("_key", .string "a"), ("n", .int 1)]),
   .upsert 6 (.ofList [("_key", .string "b"), ("n", .float ⟨0x3FF0000000000000⟩)]),
   .delete "c",
   .upsert 7 (.ofList [("_key", .string "c"), ("n", .int 1)])]

open Like.Sized

/-- The document that was only rewritten comes first, though the scan has another one before it. -/
theorem index_order_exact_sample :
    let start := empty "order" (Config.freeze {})
    let c := start.run orderActions
    c.scan.map (·.key.toOption) = [some "a", some "b", some "c"] ∧
    (c.findAllEqual (.ofList [("n", .int 1)])).map Document.key = [.ok "b", .ok "a", .ok "c"] ∧
    ∃ ix ∈ c.indexes, c.lookupEqual ix.names [.int 1] = .ok ["b", "a", "c"] ∧
      (start.history ix.descriptor.fields [] orderActions).map (·.key) = ["a", "b", "c", "a", "a", "c"] ∧
      Arrival.LastBefore (start.history ix.descriptor.fields [] orderActions) (.ofValues [.int 1]) "b" "a" := by
  intro start c
  have hserves : (Index.select? ["n"] c.indexes).isSome = true := by decide +kernel
  obtain ⟨ix, hs⟩ := Option.isSome_iff_exists.mp hserves
  obtain ⟨hix, hperm⟩ := Index.perm_of_select? hs
  have hnames : ix.names = ["n"] := List.perm_singleton.mp hperm
  have hset : Config.setAll {} [] = .ok {} := rfl
  obtain ⟨horder, hlookup, hmatches⟩ := index_order_exact hset hix
  have hkeys : ix.keysAt (.ofValues [.int 1]) = ["b", "a", "c"] := by
    have hall : ∀ jx ∈ c.indexes, jx.keysAt (.ofValues [.int 1]) = ["b", "a", "c"] := by decide +kernel
    exact hall ix hix
  have hhistory : ∀ jx ∈ c.indexes, (start.history jx.descriptor.fields [] orderActions).map (·.key) =
      ["a", "b", "c", "a", "a", "c"] := by decide +kernel
  refine ⟨by decide +kernel, ?_, ix, hix, ?_, hhistory ix hix, ?_⟩
  · obtain ⟨hequal, ds, -, hds, hfind, -⟩ := hmatches (.ofList [("n", .int 1)]) hs
    have hvalues : ix.names.filterMap (Document.ofList [("n", .int 1)]).get? = [.int 1] := by
      rw [hnames]
      rfl
    have hwindow : c.config.resultWindow = none := by
      rw [config_run]
      rfl
    rw [hequal, hvalues, hkeys] at hds
    rw [hfind, Config.cap_eq_self hwindow]
    exact hds
  · have hlen : [Value.int 1].length = ix.names.length := by rw [hnames]; rfl
    exact hkeys ▸ hlookup [.int 1] hlen
  · have hpairwise := (horder (.ofValues [.int 1])).1
    rw [hkeys] at hpairwise
    exact (List.pairwise_cons.mp hpairwise).1 "a" List.mem_cons_self

end DocStore.Collection
