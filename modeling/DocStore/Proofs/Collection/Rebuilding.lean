import DocStore.Proofs.Collection.Uniqueness
import DocStore.Proofs.Index.Rebuilding

/-!
# An index built anew is the one kept in step

Every index of a reachable collection can be dropped and created again, a unique one too, since its documents are separated
(`Reachable.separated`). The index that is filled with a scan then has the keys that the old one had after all the writes
(`Reachable.rebuilding_exact`), in the order of the scan where the old one had them in the order in which they came.
-/

namespace DocStore.Collection

variable {c c' : Collection} {ix : Index}

/-! ## Names in descriptors -/

/-- Every index is over a collection of this name. -/
def OwnsIndexes (c : Collection) : Prop := ∀ u ∈ c.listIndexes, u.collection = c.name

theorem OwnsIndexes.step (h : c.OwnsIndexes) (hs : Step c c') : c'.OwnsIndexes := by
  intro u hu
  rw [hs.name_config_eq.1]
  cases hs with
  | @write now d key _ _ =>
    obtain ⟨stamp, hadvance⟩ := c.exists_advance_eq now
    rw [hadvance, listIndexes_write] at hu
    exact h u hu
  | remove _ =>
    rw [listIndexes_remove] at hu
    exact h u hu
  | create hc =>
    obtain ⟨ix, hix, rfl⟩ := List.mem_map.mp hu
    rcases Index.mem_of_create_eq_ok hc hix with hix | ⟨hdescriptor, -, -⟩
    · exact h _ (List.mem_map_of_mem hix)
    · rw [hdescriptor]
  | drop hd => exact h u (((Index.drop_eq_ok hd).map _).mem hu)

theorem Reachable.ownsIndexes [Like.Engine] (h : c.Reachable) : c.OwnsIndexes :=
  h.induction (fun _ _ _ u hu => by cases hu) fun _ _ => OwnsIndexes.step

/-! ## Dropping and creating an index again -/

theorem removeIndex_eq_ok {fields : FieldList} {ixs : List Index} (h : Index.drop fields c.indexes = .ok ixs) :
    c.removeIndex fields.names = (.ok (), { c with indexes := ixs }) := by
  unfold removeIndex
  rw [FieldList.ofNames_names]
  simp only [h]

theorem addIndex_eq_ok {d : IndexDescriptor} {ixs : List Index} (hd : d.collection = c.name)
    (h : Index.create c.separator c.documents d c.indexes = .ok ixs) :
    c.addIndex d.fields.names d.unique = (.ok (), { c with indexes := ixs }) := by
  unfold addIndex
  rw [FieldList.ofNames_names, ← hd]
  simp only [h]

/-- **Filling an index agrees with keeping it in step.** In a reachable collection every index can be dropped and created
again over its fields, with its uniqueness: both succeed. The new index comes last, the others keep their places and
everything in them, and nothing else changes. The new index has the descriptor of the old one and its tuples up to
equality, each with the same keys. -/
theorem Reachable.rebuilding_exact [Like.Engine] (h : c.Reachable) (hix : ix ∈ c.indexes) :
    ∃ before after jx, c.indexes = before ++ ix :: after ∧
      c.removeIndex ix.names = (.ok (), { c with indexes := before ++ after }) ∧
      (c.removeIndex ix.names).2.addIndex ix.names ix.descriptor.unique =
        (.ok (), { c with indexes := before ++ after ++ [jx] }) ∧
      jx.descriptor = ix.descriptor ∧
      List.Forall₂ Index.SameKeys ix.entries jx.entries ∧ ∀ t, (ix.keysAt t).Perm (jx.keysAt t) := by
  have hc := h.consistent
  have hu : ix.descriptor ∈ c.listIndexes := List.mem_map_of_mem hix
  obtain ⟨before, after, hindexes, hdrop, hnew⟩ := Index.exists_drop_eq_ok hc.fields_nodup hix
  obtain ⟨jx, hcreate, hjx, htracks⟩ := Index.exists_create_eq_ok hnew hc.keys_nodup (h.separated ix.descriptor hu)
  have hremove : c.removeIndex ix.names = (.ok (), { c with indexes := before ++ after }) := removeIndex_eq_ok hdrop
  have hadd := addIndex_eq_ok (c := { c with indexes := before ++ after }) (h.ownsIndexes ix.descriptor hu) hcreate
  have hfields : ix.descriptor.fields = jx.descriptor.fields := by rw [hjx]
  have hold : ix.Tracks c.separator fun k => c.documents.lookup k := hc.tracks ix hix
  refine ⟨before, after, jx, hindexes, hremove, ?_, hjx, hold.forall₂_sameKeys htracks hfields,
    hold.keysAt_perm htracks hfields⟩
  rw [hremove]
  exact hadd

open Like.Sized

/-- The sample under a unique index, with a document whose number changed and changed back. -/
def movedSample : Collection := uniqueSample.run
  [.upsert 9 (.ofList [("_key", .string "a"), ("size.w", .int 1), ("n", .int 3)]),
   .upsert 9 (.ofList [("_key", .string "a"), ("size.w", .int 1), ("n", .float ⟨0x4000000000000000⟩)])]

/-- The document has moved behind another one with its number, and comes first again in the index that is built anew. -/
theorem rebuilding_exact_moved :
    (∃ ix ∈ movedSample.indexes, ∃ jx ∈ ((movedSample.removeIndex ["n"]).2.addIndex ["n"] false).2.indexes,
      ix.entries.map (·.2) = [["c", "a"]] ∧ jx.entries.map (·.2) = [["a", "c"]] ∧
      List.Forall₂ Index.SameKeys ix.entries jx.entries) ∧
    ((movedSample.removeIndex ["size.w"]).2.addIndex ["size.w"] true).1 = .ok () := by
  have hreach : movedSample.Reachable := (((reachable_sample.perform (.delete "b")).perform
    (.addIndex ["size.w"] true)).perform (.upsert 9 _)).perform (.upsert 9 _)
  constructor
  · have hix : ∃ ix ∈ movedSample.indexes, (ix.names, ix.descriptor.unique) = (["n"], false) ∧
        ix.entries.map (·.2) = [["c", "a"]] := by decide +kernel
    obtain ⟨ix, hix, hnames, hkeys⟩ := hix
    obtain ⟨hn, hu⟩ := Prod.mk.inj hnames
    obtain ⟨before, after, jx, -, -, hadd, -, hentries, -⟩ := hreach.rebuilding_exact hix
    rw [hn, hu] at hadd
    have hlast : (((movedSample.removeIndex ["n"]).2.addIndex ["n"] false).2.indexes.getLast?.map
        fun jx => jx.entries.map (·.2)) = some [["a", "c"]] := by decide +kernel
    rw [hadd] at hlast ⊢
    rw [List.getLast?_concat, Option.map_some, Option.some.injEq] at hlast
    exact ⟨ix, hix, jx, List.mem_concat_self, hkeys, hlast, hentries⟩
  · have hix : ∃ ix ∈ movedSample.indexes, (ix.names, ix.descriptor.unique) = (["size.w"], true) := by decide +kernel
    obtain ⟨ix, hix, hnames⟩ := hix
    obtain ⟨hn, hu⟩ := Prod.mk.inj hnames
    obtain ⟨before, after, jx, -, -, hadd, -⟩ := hreach.rebuilding_exact hix
    rw [hn, hu] at hadd
    rw [hadd]

end DocStore.Collection
