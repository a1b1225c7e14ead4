import DocStore.Proofs.Collection.Queries
import DocStore.Proofs.Store.Reachable

/-!
# Queries of a store

Two stores that differ in nothing but the indexes of their collections (`Store.SameData`) answer alike
(`Sound.query_eq`). Main statement: `indexes_invisible`.
-/

namespace DocStore

/-- Related items stand at every place of related lists, and so do the values that stand in for missing items. -/
theorem rel_getD {α β : Type} {R : α → β → Prop} {as : List α} {bs : List β} {a : α} {b : β}
    (h : List.Forall₂ R as bs) (hab : R a b) (i : Nat) : R (as.getD i a) (bs.getD i b) := by
  induction h generalizing i with
  | nil => exact hab
  | cons hx _ ih =>
    cases i with
    | zero => exact hx
    | succ i => exact ih i

namespace Store

variable {s s' : Store}

/-- The stores have the same names and handles under one configuration, and collections with the same data at every
handle; the indexes may differ. -/
structure SameData (s s' : Store) : Prop where
  config : s.config = s'.config
  registry : s.registry = s'.registry
  cells : List.Forall₂ Collection.SameData s.cells s'.cells

theorem SameData.cell (h : s.SameData s') (handle : Handle) : (s.cell handle).SameData (s'.cell handle) := by
  unfold Store.cell
  rw [h.config]
  exact rel_getD h.cells (.refl _) handle.index

theorem SameData.collection (h : s.SameData s') (name : String) :
    (s.collection name).1 = (s'.collection name).1 ∧ (s.collection name).2.SameData (s'.collection name).2 := by
  unfold Store.collection
  rw [h.registry, h.config, h.cells.length_eq]
  cases s'.registry.lookup name with
  | some handle => exact ⟨rfl, h⟩
  | none => exact ⟨rfl, rfl, rfl, List.rel_append h.cells (.cons (.refl _) .nil)⟩

/-- Something done with a collection that leaves its data alone leaves those of the store alone. -/
theorem sameData_update {α : Type} (s : Store) (handle : Handle) {f : Collection → α × Collection}
    (hf : ∀ c : Collection, c.SameData (f c).2) : s.SameData (s.update handle f).2 := by
  refine ⟨rfl, rfl, ?_⟩
  show List.Forall₂ _ s.cells (s.cells.set handle.index (f (s.cell handle)).2)
  unfold Store.cell
  generalize handle.index = i
  induction s.cells generalizing i with
  | nil => exact .nil
  | cons c cs ih =>
    cases i with
    | zero => exact .cons (hf c) (List.forall₂_refl cs)
    | succ i => exact .cons (.refl c) (ih i)

/-- Sound stores with the same data answer a query alike. -/
theorem Sound.query_eq [Like.Engine] (hs : s.Sound) (hs' : s'.Sound) (h : s.SameData s') (text : String)
    (params : Document) :
    (s.query text params).1 = (s'.query text params).1 := by
  unfold Store.query
  rw [h.config]
  cases Query.parse text s'.config.separator with
  | error e => rfl
  | ok q =>
    obtain ⟨hhandle, hdata⟩ := h.collection q.collection
    show ((s.collection q.collection).2.cell (s.collection q.collection).1).find text params =
      ((s'.collection q.collection).2.cell (s'.collection q.collection).1).find text params
    rw [hhandle]
    have hcell := hdata.cell (s'.collection q.collection).1
    have hc := ((hs.collection q.collection).cell (s'.collection q.collection).1).consistent
    have hc' := ((hs'.collection q.collection).cell (s'.collection q.collection).1).consistent
    rw [hcell.find_eq hc hc']

end Store

open Collection

/-- **Indexes are invisible to query answers.** In a reachable collection the answers of a bound query are what a plain scan
answers, whichever condition an index serves. Creating and dropping indexes leaves the data of a collection alone, and so
collections and stores with the same data answer every query alike, whatever their indexes. -/
theorem indexes_invisible [Like.Engine] {c c' : Collection} (h : c.Reachable) (h' : c'.Reachable) (hs : c.SameData c') :
    (∀ q answers, answers = c.evaluate q ↔ c.IsScanAnswer q answers) ∧
    (∀ q : Query.Bound, ∀ cond ∈ q.conditions, ∀ ks, c.keysFor? cond = some ks →
      ((c.inScanOrder ks).filter fun e => q.conditions.all fun cond => cond.holds c.separator e.2) =
        c.documents.filter fun e => q.conditions.all fun cond => cond.holds c.separator e.2) ∧
    (∀ names unique, c.SameData (c.addIndex names unique).2 ∧ c.SameData (c.removeIndex names).2) ∧
    (c.evaluate = c'.evaluate ∧ c.find = c'.find ∧ c.findOne = c'.findOne ∧ c.countQuery = c'.countQuery) ∧
    (∀ (s : Store) handle names unique,
      s.SameData (s.perform (.on handle (.addIndex names unique))).2 ∧
      s.SameData (s.perform (.on handle (.removeIndex names))).2) ∧
    ∀ s s' : Store, s.Reachable → s'.Reachable → s.SameData s' →
      ∀ text params, (s.query text params).1 = (s'.query text params).1 := by
  have hc := h.consistent
  have hc' := h'.consistent
  refine ⟨fun q answers => hc.eq_evaluate_iff, fun q cond hcond ks hk => hc.filter_inScanOrder hcond hk, ?_, ?_, ?_, ?_⟩
  · intro names unique
    exact ⟨sameData_addIndex c names unique, sameData_removeIndex c names⟩
  · exact ⟨hs.evaluate_eq hc hc', hs.find_eq hc hc', hs.findOne_eq hc hc', hs.countQuery_eq hc hc'⟩
  · intro s handle names unique
    exact ⟨Store.sameData_update s handle fun c => sameData_addIndex c names unique,
      Store.sameData_update s handle fun c => sameData_removeIndex c names⟩
  · intro s s' hr hr' hdata text params
    exact hr.sound.query_eq hr'.sound hdata text params

open Like.Sized

theorem indexes_invisible_sample :
    sample.keysFor? ⟨"n", .eq, .int 2⟩ = some ["a", "c", "b"] ∧
    (sample.removeIndex ["n"]).2.keysFor? ⟨"n", .eq, .int 2⟩ = none ∧
    sample.evaluate ⟨"sample", [⟨"n", .eq, .int 2⟩], [⟨"at", .descending⟩], 1, some 5⟩ =
      (sample.removeIndex ["n"]).2.evaluate ⟨"sample", [⟨"n", .eq, .int 2⟩], [⟨"at", .descending⟩], 1, some 5⟩ := by
  have hserved : sample.keysFor? ⟨"n", .eq, .int 2⟩ = some ["a", "c", "b"] := by decide +kernel
  have hunserved : (sample.removeIndex ["n"]).2.keysFor? ⟨"n", .eq, .int 2⟩ = none := by decide +kernel
  have hreach : (sample.removeIndex ["n"]).2.Reachable := reachable_sample.perform (.removeIndex ["n"])
  have hdata : sample.SameData (sample.removeIndex ["n"]).2 := sameData_removeIndex sample ["n"]
  obtain ⟨-, -, -, ⟨heval, -⟩, -⟩ := indexes_invisible reachable_sample hreach hdata
  exact ⟨hserved, hunserved, congrFun heval _⟩

end DocStore
