import DocStore.Index.Registry
import DocStore.Proofs.Document.Fields
import DocStore.Proofs.Index.Entries
import Mathlib.Logic.Function.Basic

/-!
# Indexes that track documents

An index tracks documents, given as a map from keys, when its entries are ordered and the keys under a tuple are exactly
those of the documents with an equal tuple (`Tracks`). The index without entries tracks no documents, and every operation
on an index goes with one on the map: a new document (`Tracks.insert`), a removed one (`Tracks.remove`), a document written
whether or not there was one (`Tracks.write`) and, by `backfill_induction`, the documents of a scan (`Tracks.backfill`). In
an index that tracks documents every one of them is under one entry, once (`Tracks.exists_entry`, `Tracks.nodup_keys`).
-/

namespace DocStore.Index

variable {separator key : String} {docs : String → Option Document} {ix ix' : Index}

/-- The entries are ordered and say under which tuple each document is. -/
structure Tracks (separator : String) (docs : String → Option Document) (ix : Index) : Prop where
  ordered : Ordered ix.entries
  mem_keysAt : ∀ t k, k ∈ ix.keysAt t ↔ ∃ d, docs k = some d ∧ (t == ix.tupleOf separator d) = true

theorem tracks_empty (separator : String) (d : IndexDescriptor) : (empty d).Tracks separator fun _ => none where
  ordered := .nil
  mem_keysAt t k := by simp [keysAt, empty, keysIn]

/-! ## Keys of entries -/

/-- A key of an entry is that of a document with the entry's tuple. -/
theorem Tracks.of_mem (h : ix.Tracks separator docs) {e : Tuple × List String} {k : String} (he : e ∈ ix.entries)
    (hk : k ∈ e.2) : ∃ d, docs k = some d ∧ (e.1 == ix.tupleOf separator d) = true := by
  have hat : ix.keysAt e.1 = e.2 := keysIn_of_mem h.ordered he BEq.rfl
  rw [← h.mem_keysAt, hat]
  exact hk

/-- The keys under some values are those of the documents with equal values in all fields. -/
theorem Tracks.mem_keysAt_ofValues (h : ix.Tracks separator docs) {vs : List Value} {k : String} :
    k ∈ ix.keysAt (.ofValues vs) ↔ ∃ d, docs k = some d ∧
      List.Forall₂ (fun path v => ∃ w, d.getPath path separator = some w ∧ (w == v) = true) ix.names vs := by
  rw [h.mem_keysAt]
  exact exists_congr fun d => and_congr_right fun _ => Tuple.ofValues_beq_ofDocument_iff

theorem Tracks.exists_entry (h : ix.Tracks separator docs) {k : String} {d : Document} (hd : docs k = some d) :
    ∃ e ∈ ix.entries, (e.1 == ix.tupleOf separator d) = true ∧ k ∈ e.2 :=
  (mem_keysIn_iff h.ordered).mp ((h.mem_keysAt _ k).mpr ⟨d, hd, BEq.rfl⟩)

theorem Tracks.nodup_keys (h : ix.Tracks separator docs) : (ix.entries.flatMap (·.2)).Nodup := by
  refine List.nodup_flatMap.mpr ⟨fun e he => (h.ordered.keys e he).2, ?_⟩
  refine h.ordered.increasing.imp_of_mem fun {e f} he hf hlt k hke hkf => ?_
  obtain ⟨d, hd, hed⟩ := h.of_mem he hke
  obtain ⟨d', hd', hfd⟩ := h.of_mem hf hkf
  rw [hd, Option.some.injEq] at hd'
  subst hd'
  -- two entries of one document would have equal tuples
  have hef : (e.1 == f.1) = true := BEq.trans hed (BEq.symm hfd)
  rw [(beq_eq_false_of_lt hlt).1] at hef
  cases hef

/-! ## Single documents -/

theorem Tracks.insert (h : ix.Tracks separator docs) (hkey : docs key = none) (d : Document) :
    (ix.insert (ix.tupleOf separator d) key).Tracks separator (Function.update docs key (some d)) where
  ordered := h.ordered.addEntry
  mem_keysAt t k := by
    show k ∈ keysIn t (addEntry _ key ix.entries) ↔ ∃ e, _ ∧ (t == ix.tupleOf separator e) = true
    rw [keysIn_addEntry h.ordered]
    by_cases hk : k = key
    · subst hk
      have hno : k ∉ keysIn t ix.entries := fun hm => by
        obtain ⟨e, he, -⟩ := (h.mem_keysAt t k).mp hm
        rw [hkey] at he
        cases he
      rw [Function.update_self]
      split
      · next ht =>
        constructor
        · intro _
          exact ⟨d, rfl, BEq.symm ht⟩
        · intro _
          exact mem_addKey.mpr (Or.inl rfl)
      · next ht =>
        constructor
        · intro hm
          exact absurd hm hno
        · rintro ⟨e, he, hte⟩
          cases he
          exact absurd (BEq.symm hte) ht
    · rw [Function.update_of_ne hk, ← h.mem_keysAt t k]
      split
      · rw [mem_addKey, or_iff_right hk]
        rfl
      · rfl

theorem Tracks.remove {old : Document} (h : ix.Tracks separator docs) (hkey : docs key = some old) :
    (ix.remove separator key old).Tracks separator (Function.update docs key none) where
  ordered := h.ordered.dropEntry
  mem_keysAt t k := by
    show k ∈ keysIn t (dropEntry _ key ix.entries) ↔ ∃ e, _ ∧ (t == ix.tupleOf separator e) = true
    rw [keysIn_dropEntry h.ordered]
    by_cases hk : k = key
    · subst hk
      rw [Function.update_self]
      constructor
      · intro hm
        split at hm
        · exact absurd rfl ((List.Nodup.mem_erase_iff (nodup_keysIn h.ordered t)).mp hm).1
        · next ht =>
          obtain ⟨e, he, hte⟩ := (h.mem_keysAt t k).mp hm
          rw [hkey] at he
          cases he
          exact absurd (BEq.symm hte) ht
      · rintro ⟨e, he, -⟩
        cases he
    · rw [Function.update_of_ne hk, ← h.mem_keysAt t k]
      split
      · exact List.mem_erase_of_ne hk
      · rfl

/-- A document whose tuple stays equal keeps its place. -/
theorem Tracks.replace {old d : Document} (h : ix.Tracks separator docs) (hkey : docs key = some old)
    (ht : (ix.tupleOf separator old == ix.tupleOf separator d) = true) :
    ix.Tracks separator (Function.update docs key (some d)) where
  ordered := h.ordered
  mem_keysAt t k := by
    rw [h.mem_keysAt t k]
    by_cases hk : k = key
    · subst hk
      rw [Function.update_self, hkey]
      simp only [Option.some.injEq, exists_eq_left', BEq.congr_right ht]
    · rw [Function.update_of_ne hk]

/-- A document that is written comes in, keeps its place or moves to its new tuple. -/
theorem Tracks.write (h : ix.Tracks separator docs) (d : Document) :
    (ix.write separator key (docs key) d).Tracks separator (Function.update docs key (some d)) := by
  unfold Index.write
  cases hkey : docs key with
  | none => exact h.insert hkey d
  | some old =>
    by_cases ht : (ix.tupleOf separator old == ix.tupleOf separator d) = true
    · simp only [ht, ↓reduceIte]
      exact h.replace hkey ht
    · simp only [ht, Bool.false_eq_true, ↓reduceIte]
      have hfree : Function.update docs key none key = none := Function.update_self ..
      have hr := (h.remove hkey).insert hfree d
      rw [Function.update_idem] at hr
      exact hr

/-! ## The documents of a scan -/

/-- A scan is taken in when no key holds the tuple of its first document and the rest is taken in after it. -/
theorem backfill_cons_eq_ok {d : Document} {es : List (String × Document)} :
    backfill separator ix ((key, d) :: es) = .ok ix' ↔
      ix.holder? (ix.tupleOf separator d) key = none ∧
        backfill separator (ix.insert (ix.tupleOf separator d) key) es = .ok ix' := by
  simp only [backfill]
  cases ix.holder? (ix.tupleOf separator d) key with
  | none => simp
  | some first => simp

/-- The documents of a scan and those that were there before, with the first of the scan among the one or the other. -/
theorem lookup_cons_or {d : Document} {es : List (String × Document)} (h : ∀ e ∈ es, e.1 ≠ key) :
    (fun k => (((key, d) :: es).lookup k).or (docs k)) =
      fun k => (es.lookup k).or (Function.update docs key (some d) k) := by
  funext k
  by_cases hk : k = key
  · subst hk
    rw [List.lookup_cons_self, lookup_eq_none h, Function.update_self]
    rfl
  · rw [List.lookup_cons, Function.update_of_ne hk, beq_false_of_ne hk]

/-- What is kept by every document that comes in while no key holds its tuple is kept by a scan that is taken in. -/
theorem backfill_induction {P : (String → Option Document) → Index → Prop} {es : List (String × Document)}
    (step : ∀ {docs ix key d}, P docs ix → docs key = none → ix.holder? (ix.tupleOf separator d) key = none →
      P (Function.update docs key (some d)) (ix.insert (ix.tupleOf separator d) key))
    (h : P docs ix) (hnew : ∀ e ∈ es, docs e.1 = none) (hnd : (es.map (·.1)).Nodup)
    (hb : backfill separator ix es = .ok ix') : P (fun k => (es.lookup k).or (docs k)) ix' := by
  induction es generalizing ix docs with
  | nil =>
    cases hb
    exact h
  | cons e es ih =>
    obtain ⟨key, d⟩ := e
    obtain ⟨hkey, hnew⟩ := List.forall_mem_cons.mp hnew
    obtain ⟨hholder, hb⟩ := backfill_cons_eq_ok.mp hb
    rw [List.map_cons, List.nodup_cons] at hnd
    have hne : ∀ f ∈ es, f.1 ≠ key := fun f hf he => hnd.1 (List.mem_map.mpr ⟨f, hf, he⟩)
    rw [lookup_cons_or hne]
    exact ih (step h hkey hholder) (fun f hf => by rw [Function.update_of_ne (hne f hf)]; exact hnew f hf) hnd.2 hb

/-- An index that was filled has the documents that it had and those of the scan. -/
theorem Tracks.backfill {es : List (String × Document)} (h : ix.Tracks separator docs)
    (hnew : ∀ e ∈ es, docs e.1 = none) (hnd : (es.map (·.1)).Nodup) (hb : backfill separator ix es = .ok ix') :
    ix'.Tracks separator fun k => (es.lookup k).or (docs k) :=
  backfill_induction (fun h hkey _ => h.insert hkey _) h hnew hnd hb

theorem descriptor_backfill {es : List (String × Document)} (hb : backfill separator ix es = .ok ix') :
    ix'.descriptor = ix.descriptor := by
  induction es generalizing ix with
  | nil =>
    cases hb
    rfl
  | cons e es ih =>
    have h := ih (backfill_cons_eq_ok.mp hb).2
    exact h

/-- An index filled with all documents tracks them. -/
theorem tracks_of_backfill_empty {es : List (String × Document)} {d : IndexDescriptor}
    (hnd : (es.map (·.1)).Nodup) (hb : backfill separator (empty d) es = .ok ix) :
    ix.Tracks separator fun k => es.lookup k := by
  have h := (tracks_empty separator d).backfill (fun _ _ => rfl) hnd hb
  simp only [Option.or_none] at h
  exact h

end DocStore.Index
