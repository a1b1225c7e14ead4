import DocStore.Proofs.Collection.Rearranged
import DocStore.Proofs.Collection.Undoing

/-!
# Loading documents

Documents with keys of their own, written one after the other into a collection without timestamps, are all accepted
exactly when the unique indexes separate them together with what was stored before (`Consistent.succeeds_loads_iff`). Then
they stand behind the stored ones in the order in which they came (`Loaded`, `Consistent.loaded_run`). So the order in
which they come decides nothing but the order in which they stand (`loading_exact`).
-/

namespace DocStore

namespace Collection

open Contents

variable {c c' : Collection} {key : String} {d : Document} {ds ds' : List Document} {ws : List (Int64 × Document)}
  {now : Int64} {a : Action} {actions : List Action}

/-! ## Documents with their keys -/

/-- Documents under the keys that they hold. -/
def keyed (ds : List Document) : List Entry := ds.filterMap fun d => d.key.toOption.map (·, d)

theorem keyed_cons (h : d.key = .ok key) : keyed (d :: ds) = (key, d) :: keyed ds :=
  List.filterMap_cons_some (by rw [h]; rfl)

theorem map_fst_keyed (ds : List Document) : (keyed ds).map (·.1) = keysOf ds := by
  rw [keyed, keysOf, List.map_filterMap]
  refine List.filterMap_congr fun d _ => ?_
  cases d.key <;> rfl

/-! ## Runs that succeed -/

/-- All actions of a run succeed. -/
def Succeeds [Like.Engine] (c : Collection) (actions : List Action) : Prop := ∀ e ∈ c.log actions, ∃ r, e.2 = .ok r

theorem succeeds_cons [Like.Engine] :
    c.Succeeds (a :: actions) ↔ (∃ r, (c.perform a).1 = .ok r) ∧ (c.perform a).2.Succeeds actions :=
  List.forall_mem_cons

/-- The writes of some documents, each at its time. -/
def loads (ws : List (Int64 × Document)) : List Action := ws.map fun w => .upsert w.1 w.2

/-- Without timestamps the write of a document goes well exactly when the document does not clash. -/
theorem Consistent.exists_perform_upsert_iff [Like.Engine] (h : c.Consistent) (hstamp : c.config.timestampField = none)
    (hd : d.key = .ok key) : (∃ r, (c.perform (.upsert now d)).1 = .ok r) ↔ ¬c.Clashes key d := by
  refine Iff.trans ?_ (h.exists_upsert_iff hstamp hd now)
  show (∃ r, (c.upsert now d).1.map Reply.document = .ok r) ↔ ∃ new, (c.upsert now d).1 = .ok new
  cases (c.upsert now d).1 with
  | error e => exact iff_of_false (fun ⟨_, hr⟩ => by cases hr) fun ⟨_, hr⟩ => by cases hr
  | ok new => exact iff_of_true ⟨_, rfl⟩ ⟨_, rfl⟩

theorem Consistent.perform_upsert_snd [Like.Engine] (h : c.Consistent) (hstamp : c.config.timestampField = none)
    (hd : d.key = .ok key) (hno : ¬c.Clashes key d) (now : Int64) : (c.perform (.upsert now d)).2 = c.write key d :=
  congrArg Prod.snd (h.upsert_eq_write hstamp hd hno now)

/-! ## What is accepted -/

/-- A collection has taken in more documents, which stand behind those that were there. -/
structure Loaded (c : Collection) (es : List Entry) (c' : Collection) : Prop where
  name : c'.name = c.name
  config : c'.config = c.config
  documents : c'.documents = c.documents ++ es
  listIndexes : c'.listIndexes = c.listIndexes

/-- The documents that are there after some more were taken in. -/
abbrev withLoaded (c : Collection) (es : List Entry) (k : String) : Option Document := (es.lookup k).or (c.get? k)

/-- The documents to be loaded have keys, which are different and not in use. -/
structure Loadable (c : Collection) (ds : List Document) : Prop where
  valid : ∀ d ∈ ds, ∃ k, d.key = .ok k
  nodup : (keysOf ds).Nodup
  new : ∀ k ∈ keysOf ds, c.get? k = none

theorem Loadable.new_keyed (h : c.Loadable ds) {e : Entry} (he : e ∈ keyed ds) : c.get? e.1 = none :=
  h.new e.1 (map_fst_keyed ds ▸ List.mem_map_of_mem he)

theorem Loadable.cons (h : c.Loadable (d :: ds)) : ∃ key, d.key = .ok key ∧ c.get? key = none ∧
    (∀ e ∈ keyed ds, e.1 ≠ key) ∧ (c.write key d).Loadable ds := by
  obtain ⟨⟨key, hkey⟩, hvalid⟩ := List.forall_mem_cons.mp h.valid
  have hnodup := h.nodup
  have hnew := h.new
  rw [keysOf_cons hkey] at hnodup hnew
  obtain ⟨hnotin, hnodup⟩ := List.nodup_cons.mp hnodup
  obtain ⟨hkeynew, hnew⟩ := List.forall_mem_cons.mp hnew
  have hother : ∀ e ∈ keyed ds, e.1 ≠ key := by
    rintro e he rfl
    rw [← map_fst_keyed] at hnotin
    exact hnotin (List.mem_map_of_mem he)
  refine ⟨key, hkey, hkeynew, hother, hvalid, hnodup, fun k hk => ?_⟩
  have hne : k ≠ key := fun he => hnotin (he ▸ hk)
  rw [get?_write, Function.update_of_ne hne]
  exact hnew k hk

theorem withLoaded_cons (hother : ∀ e ∈ keyed ds, e.1 ≠ key) :
    c.withLoaded ((key, d) :: keyed ds) = (c.write key d).withLoaded (keyed ds) := by
  unfold withLoaded
  rw [Index.lookup_cons_or hother, get?_write]

/-- **All of some documents are accepted exactly when they are separated together with the stored ones.** -/
theorem Consistent.succeeds_loads_iff [Like.Engine] (h : c.Consistent) (hs : c.Separated)
    (hstamp : c.config.timestampField = none)
    (hds : c.Loadable (ws.map (·.2))) :
    c.Succeeds (loads ws) ↔
      ∀ u ∈ c.listIndexes, Index.Separates c.separator (c.withLoaded (keyed (ws.map (·.2)))) u := by
  induction ws generalizing c with
  | nil => exact iff_of_true (List.forall_mem_nil _) hs
  | cons w ws ih =>
    obtain ⟨now, d⟩ := w
    obtain ⟨key, hkey, -, hother, hnext⟩ := hds.cons
    rw [List.map_cons, keyed_cons hkey, withLoaded_cons hother]
    show c.Succeeds (.upsert now d :: loads ws) ↔ _
    rw [succeeds_cons, h.exists_perform_upsert_iff hstamp hkey]
    -- after the first document the rest is accepted as the documents together say
    have hrest (hno : ¬c.Clashes key d) : (c.perform (.upsert now d)).2.Succeeds (loads ws) ↔
        ∀ u ∈ c.listIndexes, Index.Separates c.separator ((c.write key d).withLoaded (keyed (ws.map (·.2)))) u := by
      have hiff := ih (h.write hkey) (hs.write hno) hstamp hnext
      rw [listIndexes_write] at hiff
      rw [h.perform_upsert_snd hstamp hkey hno now]
      exact hiff
    constructor
    · rintro ⟨hno, hall⟩
      exact (hrest hno).mp hall
    · intro hall
      have hno : ¬c.Clashes key d := by
        rintro ⟨u, hu, hclash⟩
        have hseparates := hall u hu
        unfold withLoaded at hseparates
        rw [get?_write] at hseparates
        refine hseparates.not_clashes_first hother (fun e he => hds.new_keyed ?_) hclash
        rw [List.map_cons, keyed_cons hkey]
        exact List.mem_cons_of_mem _ he
      exact ⟨hno, (hrest hno).mpr hall⟩

/-- Documents that are all accepted stand behind the stored ones. -/
theorem Consistent.loaded_run [Like.Engine] (h : c.Consistent) (hstamp : c.config.timestampField = none)
    (hds : c.Loadable (ws.map (·.2))) (hok : c.Succeeds (loads ws)) :
    c.Loaded (keyed (ws.map (·.2))) (c.run (loads ws)) := by
  induction ws generalizing c with
  | nil => exact ⟨rfl, rfl, (List.append_nil _).symm, rfl⟩
  | cons w ws ih =>
    obtain ⟨now, d⟩ := w
    obtain ⟨key, hkey, hnew, -, hnext⟩ := hds.cons
    obtain ⟨hfirst, hrest⟩ := succeeds_cons.mp hok
    have hno := (h.exists_perform_upsert_iff hstamp hkey).mp hfirst
    have hwrite := h.perform_upsert_snd hstamp hkey hno now
    rw [hwrite] at hrest
    obtain ⟨hname, hconfig, hdocuments, hindexes⟩ := ih (h.write hkey) hstamp hnext hrest
    rw [List.map_cons, keyed_cons hkey]
    show c.Loaded _ ((c.perform (.upsert now d)).2.run (loads ws))
    rw [hwrite]
    refine ⟨hname, hconfig, ?_, hindexes.trans listIndexes_write⟩
    have hwritten : (c.write key d).documents = c.documents ++ [(key, d)] :=
      writeEntry_of_notMem (get?_eq_none_iff.mp hnew)
    rw [hdocuments, hwritten, List.append_assoc]
    rfl

/-! ## Loading in two orders -/

/-- The declarations of some indexes, each with its uniqueness. -/
def declarations (decls : List (List String × Bool)) : List Action := decls.map fun decl => .addIndex decl.1 decl.2

theorem documents_run_declarations [Like.Engine] (decls : List (List String × Bool)) :
    (c.run (declarations decls)).documents = c.documents := by
  induction decls generalizing c with
  | nil => rfl
  | cons decl decls ih =>
    have hdocuments : c.documents = (c.addIndex decl.1 decl.2).2.documents :=
      (sameData_addIndex c decl.1 decl.2).documents
    exact (ih (c := (c.addIndex decl.1 decl.2).2)).trans hdocuments.symm

theorem Loaded.rearranged {es es' : List Entry} (h : c.Loaded es c') {c'' : Collection} (h' : c.Loaded es' c'')
    (hperm : es.Perm es') : c'.Rearranged c'' where
  name := h.name.trans h'.name.symm
  config := h.config.trans h'.config.symm
  documents := by
    rw [h.documents, h'.documents]
    exact hperm.append_left _

/-- With different keys the documents that are there in the end do not depend on the order in which they come. -/
theorem withLoaded_eq_of_perm (hds : (keysOf ds).Nodup) (hperm : ds.Perm ds') :
    c.withLoaded (keyed ds) = c.withLoaded (keyed ds') := by
  funext k
  have hkeyed : (keyed ds).Perm (keyed ds') := hperm.filterMap _
  rw [withLoaded, withLoaded, lookup_eq_of_perm hkeyed (by rw [map_fst_keyed]; exact hds) k]

theorem Loadable.of_perm (h : c.Loadable ds) (hperm : ds.Perm ds') : c.Loadable ds' where
  valid d hd := h.valid d (hperm.mem_iff.mpr hd)
  nodup := (hperm.filterMap _).nodup_iff.mp h.nodup
  new k hk := h.new k ((hperm.filterMap _).mem_iff.mpr hk)

/-- **The order of loading does not matter.** Take an empty collection without timestamps, with any indexes, and documents
with different keys. Written in two orders, all are accepted in the one order when they are in the other. Then both
collections hold the same documents, and every index has the same tuples with the same keys. All counts answer the same,
those of queries with limits too, and every search answers the same documents up to order, unless a window, a limit or a
page cuts some off. -/
theorem loading_exact [Like.Engine] {settings : List Setting} {config : Config}
    (hset : Config.setAll {} settings = .ok config)
    (hstamp : config.timestampField = none) (name : String) (decls : List (List String × Bool))
    {ws ws' : List (Int64 × Document)} (hvalid : ∀ d ∈ ws.map (·.2), ∃ k, d.key = .ok k)
    (hkeys : (keysOf (ws.map (·.2))).Nodup) (hperm : (ws.map (·.2)).Perm (ws'.map (·.2))) :
    let base := (empty name config.freeze).run (declarations decls)
    let c := base.run (loads ws)
    let c' := base.run (loads ws')
    (base.Succeeds (loads ws) ↔ base.Succeeds (loads ws')) ∧
    (base.Succeeds (loads ws) →
      c.documents.Perm c'.documents ∧ c.get? = c'.get? ∧
      List.Forall₂ (fun ix jx => ix.descriptor = jx.descriptor ∧ List.Forall₂ Index.SameKeys ix.entries jx.entries)
        c.indexes c'.indexes ∧
      c.SameCounts c' ∧ (config.resultWindow = none → c.SameSearches c')) := by
  intro base c c'
  have hreachable (actions : List Action) : (base.run actions).Reachable := by
    refine ⟨name, settings, config, declarations decls ++ actions, hset, ?_⟩
    unfold run
    rw [List.foldl_append]
    rfl
  have hbase : base.Reachable := hreachable []
  have hconfig : base.config = config.freeze := config_run _ _
  have hnone : base.config.timestampField = none := by
    rw [hconfig]
    exact hstamp
  have hds : base.Loadable (ws.map (·.2)) := by
    refine ⟨hvalid, hkeys, fun k _ => ?_⟩
    have hempty : base.documents = [] := documents_run_declarations decls
    rw [Collection.get?, hempty]
    rfl
  have hds' := hds.of_perm hperm
  have hiff : base.Succeeds (loads ws) ↔ base.Succeeds (loads ws') := by
    rw [hbase.consistent.succeeds_loads_iff hbase.separated hnone hds,
      hbase.consistent.succeeds_loads_iff hbase.separated hnone hds', withLoaded_eq_of_perm hkeys hperm]
  refine ⟨hiff, fun hok => ?_⟩
  have hloaded := hbase.consistent.loaded_run hnone hds hok
  have hloaded' := hbase.consistent.loaded_run hnone hds' (hiff.mp hok)
  have h : c.Rearranged c' := hloaded.rearranged hloaded' (hperm.filterMap _)
  have hc : c.Consistent := (hreachable _).consistent
  have hc' : c'.Consistent := (hreachable _).consistent
  refine ⟨h.documents, h.get?_eq hc, h.forall₂_indexes hc hc' (hloaded.listIndexes.trans hloaded'.listIndexes.symm),
    h.sameCounts hc hc', fun hwindow => h.sameSearches hc hc' ?_⟩
  rw [hloaded.config, hconfig]
  exact hwindow

/-- Two documents with equal numbers and one without, in this order. -/
def samplePairs : List (Int64 × Document) :=
  [(1, .ofList [("_key", .string "a"), ("n", .float ⟨0x4000000000000000⟩)]), (2, .ofList [("_key", .string "b")]),
    (3, .ofList [("_key", .string "c"), ("n", .int 2), ("m", .null)])]

open Like.Sized

/-- Turned around, the documents are accepted as well under a unique index that tells them apart, and in the index over
their number the tuple that two of them share has both keys. -/
theorem loading_exact_sample :
    let base := (empty "pair" (Config.freeze {})).run (declarations [(["n"], false), (["m", "n"], true)])
    base.Succeeds (loads samplePairs.reverse) ∧
      List.Forall₂ (fun ix jx => ix.descriptor = jx.descriptor ∧ List.Forall₂ Index.SameKeys ix.entries jx.entries)
        (base.run (loads samplePairs)).indexes (base.run (loads samplePairs.reverse)).indexes := by
  intro base
  have hok : base.Succeeds (loads samplePairs) := by
    have hall : ((base.log (loads samplePairs)).all fun e => e.2.toOption.isSome) = true := by decide +kernel
    intro e he
    have hsome := List.all_eq_true.mp hall e he
    cases hr : e.2 with
    | ok r => exact ⟨r, rfl⟩
    | error err =>
      rw [hr] at hsome
      cases hsome
  have hvalid : ∀ d ∈ samplePairs.map (·.2), ∃ k, d.key = .ok k :=
    List.forall_mem_cons.mpr ⟨⟨"a", rfl⟩, List.forall_mem_cons.mpr ⟨⟨"b", rfl⟩, List.forall_mem_singleton.mpr ⟨"c", rfl⟩⟩⟩
  have hperm : (samplePairs.map (·.2)).Perm (samplePairs.reverse.map (·.2)) := (List.reverse_perm samplePairs).symm.map _
  have hset : Config.setAll {} [] = .ok {} := rfl
  obtain ⟨hiff, hsame⟩ := loading_exact hset rfl "pair" [(["n"], false), (["m", "n"], true)] hvalid
    (by decide +kernel) hperm
  exact ⟨hiff.mp hok, (hsame hok).2.2.1⟩

end Collection
end DocStore
