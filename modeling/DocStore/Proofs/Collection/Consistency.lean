import DocStore.Proofs.Collection.Documents
import DocStore.Proofs.Collection.Steps
import DocStore.Proofs.Index.Registry

/-!
# Indexes stay exact

A collection is consistent when every document stands under its own key and every index tracks the documents
(`Consistent`). Every step keeps that (`Consistent.step`), so all reachable collections are consistent
(`Reachable.consistent`). What it means for the entries of the indexes and for lookups is `Reachable.indexes_exact`.
-/

namespace DocStore.Collection

variable {c c' : Collection} {key : String} {d : Document}

/-- Documents stand under their own keys, and indexes over different field lists track them. -/
structure Consistent (c : Collection) : Prop where
  stamp_ne_key : c.config.timestampField ≠ some keyField
  keys_nodup : (c.documents.map (·.1)).Nodup
  key_eq : ∀ e ∈ c.documents, e.2.key = .ok e.1
  fields_nodup : (c.indexes.map (·.descriptor.fields)).Nodup
  tracks : ∀ ix ∈ c.indexes, ix.Tracks c.separator c.get?

theorem consistent_empty {name : String} {config : Config} (h : config.timestampField ≠ some keyField) :
    (empty name config).Consistent where
  stamp_ne_key := h
  keys_nodup := List.nodup_nil
  key_eq _ he := by cases he
  fields_nodup := List.nodup_nil
  tracks _ hix := by cases hix

/-! ## Keys in scan order -/

theorem Consistent.map_key_scan (h : c.Consistent) : c.scan.map Document.key = (c.documents.map (·.1)).map .ok := by
  rw [scan, List.map_map, List.map_map]
  exact List.map_congr_left h.key_eq

/-- Documents under different keys are different. -/
theorem Consistent.nodup_scan (h : c.Consistent) : c.scan.Nodup := by
  refine List.Nodup.of_map Document.key ?_
  rw [h.map_key_scan]
  exact h.keys_nodup.map fun _ _ he => Except.ok.inj he

/-- Stored entries, each once, have different keys and different documents. -/
theorem Consistent.nodup_of_subperm (h : c.Consistent) {es : List Entry} (hes : es.Subperm c.documents) :
    (es.map (·.1)).Nodup ∧ (es.map (·.2)).Nodup := by
  obtain ⟨fs, hperm, hsub⟩ := hes
  have hdocuments : (c.documents.map (·.2)).Nodup := h.nodup_scan
  constructor
  · exact (hperm.map (·.1)).nodup_iff.mp ((hsub.map (·.1)).nodup h.keys_nodup)
  · exact (hperm.map (·.2)).nodup_iff.mp ((hsub.map (·.2)).nodup hdocuments)

/-! ## Writing and removing -/

theorem descriptor_write {ix : Index} {separator : String} {old? : Option Document} :
    (ix.write separator key old? d).descriptor = ix.descriptor := by
  unfold Index.write
  cases old? with
  | none => rfl
  | some old =>
    simp only
    split <;> rfl

theorem descriptor_remove {ix : Index} {separator : String} : (ix.remove separator key d).descriptor = ix.descriptor :=
  rfl

/-- Operations that keep what indexes are over keep the list of their fields. -/
theorem map_fields_map {ixs : List Index} {f : Index → Index} (h : ∀ ix, (f ix).descriptor = ix.descriptor) :
    (ixs.map f).map (·.descriptor.fields) = ixs.map (·.descriptor.fields) := by
  rw [List.map_map]
  exact List.map_congr_left fun ix _ => congrArg _ (h ix)

theorem Consistent.write (h : c.Consistent) (hd : d.key = .ok key) : (c.write key d).Consistent where
  stamp_ne_key := h.stamp_ne_key
  keys_nodup := nodup_keys_writeEntry h.keys_nodup
  key_eq e he := by
    rcases mem_of_mem_writeEntry he with rfl | he
    · exact hd
    · exact h.key_eq e he
  fields_nodup := by
    show ((c.indexes.map _).map _).Nodup
    rw [map_fields_map fun ix => descriptor_write]
    exact h.fields_nodup
  tracks ix hix := by
    obtain ⟨jx, hj, rfl⟩ := List.mem_map.mp hix
    rw [get?_write]
    exact (h.tracks jx hj).write d

theorem Consistent.remove (h : c.Consistent) (hd : c.get? key = some d) : (c.remove key).2.Consistent := by
  have hget : (c.remove key).2.get? = Function.update c.get? key none := get?_remove h.keys_nodup
  rw [remove_of_get?_eq_some hd] at hget ⊢
  have hsub := removeEntry_sublist key c.documents
  refine ⟨h.stamp_ne_key, (hsub.map _).nodup h.keys_nodup, ?_, ?_, ?_⟩
  · intro e he
    exact h.key_eq e (hsub.mem he)
  · show ((c.indexes.map _).map _).Nodup
    rw [map_fields_map fun ix => descriptor_remove]
    exact h.fields_nodup
  · intro ix hix
    obtain ⟨jx, hj, rfl⟩ := List.mem_map.mp hix
    rw [hget]
    exact (h.tracks jx hj).remove hd

theorem Consistent.advance (h : c.Consistent) (now : Int64) : (c.advance now).Consistent := by
  unfold Collection.advance
  split
  · exact ⟨h.stamp_ne_key, h.keys_nodup, h.key_eq, h.fields_nodup, h.tracks⟩
  · exact h

/-- The timestamp leaves the key of a document alone. -/
theorem Consistent.key_stamped (h : c.Consistent) (now : Int64) (hd : d.key = .ok key) :
    (c.stamped now d).key = .ok key := by
  unfold stamped
  split
  · next field hf =>
    have hne : keyField ≠ field := fun he => h.stamp_ne_key (he ▸ hf)
    rw [Document.key_eq_ok_iff, Document.get?_insert, if_neg hne, ← Document.key_eq_ok_iff]
    exact hd
  · exact hd

/-! ## Creating and dropping indexes -/

/-- A filled index tracks the documents that it was filled with. -/
theorem Consistent.create (h : c.Consistent) {descriptor : IndexDescriptor} {ixs : List Index}
    (hc : Index.create c.separator c.documents descriptor c.indexes = .ok ixs) :
    ({ c with indexes := ixs } : Collection).Consistent := by
  rcases Index.create_eq_ok hc with rfl | ⟨hnew, ix, hb, rfl⟩
  · exact h
  · refine ⟨h.stamp_ne_key, h.keys_nodup, h.key_eq, ?_, ?_⟩
    · rw [List.map_append, List.map_singleton, ← List.concat_eq_append, List.nodup_concat,
        Index.descriptor_backfill hb]
      exact ⟨hnew, h.fields_nodup⟩
    · intro jx hj
      rcases List.mem_append.mp hj with hj | hj
      · exact h.tracks jx hj
      · rw [List.mem_singleton.mp hj]
        exact Index.tracks_of_backfill_empty h.keys_nodup hb

theorem Consistent.drop (h : c.Consistent) {fields : FieldList} {ixs : List Index}
    (hd : Index.drop fields c.indexes = .ok ixs) : ({ c with indexes := ixs } : Collection).Consistent where
  stamp_ne_key := h.stamp_ne_key
  keys_nodup := h.keys_nodup
  key_eq := h.key_eq
  fields_nodup := ((Index.drop_eq_ok hd).map _).nodup h.fields_nodup
  tracks ix hix := h.tracks ix ((Index.drop_eq_ok hd).mem hix)

/-! ## Reachable collections -/

/-- Every step keeps a collection consistent. -/
theorem Consistent.step (h : c.Consistent) (hs : Step c c') : c'.Consistent := by
  cases hs with
  | write hd _ => exact (h.advance _).write (h.key_stamped _ hd)
  | remove hd => exact h.remove hd
  | create hc => exact h.create hc
  | drop hd => exact h.drop hd

theorem Reachable.consistent [Like.Engine] (h : c.Reachable) : c.Consistent :=
  h.induction (fun _ _ hc => consistent_empty hc) fun _ _ => Consistent.step

/-! ## Exactness -/

/-- Looking values up in a registered index gives the keys under their tuple. -/
theorem Consistent.lookupEqual_eq (h : c.Consistent) {ix : Index} (hix : ix ∈ c.indexes) {vs : List Value}
    (hlen : vs.length = ix.names.length) : c.lookupEqual ix.names vs = .ok (ix.keysAt (.ofValues vs)) := by
  show (FieldList.ofNames ix.descriptor.fields.names >>= fun fields => Index.lookup fields vs c.indexes) = _
  rw [FieldList.ofNames_names]
  show Index.lookup ix.descriptor.fields vs c.indexes = _
  unfold Index.lookup
  rw [Index.find?_of_mem h.fields_nodup hix]
  exact if_pos hlen

/-- Looking values up in a registered index finds the keys of the documents with equal values in its fields. -/
theorem Consistent.lookupEqual (h : c.Consistent) {ix : Index} (hix : ix ∈ c.indexes) {vs : List Value}
    (hlen : vs.length = ix.names.length) :
    ∃ ks, c.lookupEqual ix.names vs = .ok ks ∧ ks.Nodup ∧
      ∀ k, k ∈ ks ↔ ∃ d, c.get? k = some d ∧
        List.Forall₂ (fun path v => ∃ w, d.getPath path c.separator = some w ∧ (w == v) = true) ix.names vs := by
  have ht := h.tracks ix hix
  exact ⟨_, h.lookupEqual_eq hix hlen, Index.nodup_keysIn ht.ordered _, fun k => ht.mem_keysAt_ofValues⟩

/-- **In a reachable collection documents stand under their own keys and indexes are exact.** Every index has each stored
key once, under a tuple equal to that of its document, and nothing else; so a lookup finds exactly the documents with
equal values in all fields of the index. -/
theorem Reachable.indexes_exact [Like.Engine] (h : c.Reachable) :
    (c.documents.map (·.1)).Nodup ∧ (∀ k d, c.get? k = some d → d.get? keyField = some (.string k)) ∧
    ∀ ix ∈ c.indexes,
      (∀ k d, c.get? k = some d → (ix.entries.flatMap (·.2)).count k = 1 ∧
        ∃ e ∈ ix.entries, k ∈ e.2 ∧ compare e.1 (.ofDocument c.separator ix.descriptor.fields d) = .eq) ∧
      (∀ e ∈ ix.entries, e.2 ≠ [] ∧ ∀ k ∈ e.2, c.contains k = true) ∧
      ∀ vs : List Value, vs.length = ix.names.length →
        ∃ ks, c.lookupEqual ix.names vs = .ok ks ∧ ks.Nodup ∧
          ∀ k, k ∈ ks ↔ ∃ d, c.get? k = some d ∧
            List.Forall₂ (fun path v => ∃ w, d.getPath path c.separator = some w ∧ (w == v) = true) ix.names vs := by
  have hc := h.consistent
  refine ⟨hc.keys_nodup, ?_, ?_⟩
  · intro k d hd
    have hk := hc.key_eq (k, d) ((get?_eq_some_iff hc.keys_nodup).mp hd)
    exact (Document.key_eq_ok_iff.mp hk).1
  intro ix hix
  have ht := hc.tracks ix hix
  refine ⟨?_, ?_, fun vs => hc.lookupEqual hix⟩
  · intro k d hd
    obtain ⟨e, he, hed, hk⟩ := ht.exists_entry hd
    have hmem : k ∈ ix.entries.flatMap (·.2) := List.mem_flatMap.mpr ⟨e, he, hk⟩
    refine ⟨List.count_eq_one_of_mem ht.nodup_keys hmem, e, he, hk, ?_⟩
    exact Std.LawfulBEqOrd.compare_eq_iff_beq.mpr hed
  · intro e he
    refine ⟨(ht.ordered.keys e he).1, ?_⟩
    intro k hk
    obtain ⟨d, hd, -⟩ := ht.of_mem he hk
    simp [contains, hd]

open Like.Sized

theorem indexes_exact_sample : ∃ ks, sample.lookupEqual ["size.w", "n"] [.int 1, .int 2] = .ok ks ∧ ks = ["a", "b"] ∧
    ∀ k, k ∈ ks ↔ ∃ d, sample.get? k = some d ∧
      List.Forall₂ (fun path v => ∃ w, d.getPath path sample.separator = some w ∧ (w == v) = true)
        ["size.w", "n"] [.int 1, .int 2] := by
  obtain ⟨-, -, h⟩ := reachable_sample.indexes_exact
  have hix : ∃ ix ∈ sample.indexes, ix.names = ["size.w", "n"] := by decide +kernel
  obtain ⟨ix, hix, hn⟩ := hix
  obtain ⟨-, -, h⟩ := h ix hix
  rw [hn] at h
  obtain ⟨ks, hks, -, hmem⟩ := h [.int 1, .int 2] rfl
  have heval : (sample.lookupEqual ["size.w", "n"] [.int 1, .int 2]).toOption = some ["a", "b"] := by decide +kernel
  rw [hks] at heval
  exact ⟨ks, hks, Option.some.inj heval, hmem⟩

end DocStore.Collection
