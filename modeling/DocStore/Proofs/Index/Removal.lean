import DocStore.Proofs.Index.Tracking

/-!
# Indexes without some keys

To leave keys out of an index is to leave them out of the keys of every tuple, where the other keys keep their order, and
to leave out the tuples that have no key then (`Index.without`). In an index that tracks documents, removing a document is
leaving out its key (`Tracks.remove_eq_without`), and a key that no document has is not there to be left out
(`Tracks.without_eq_self`).
-/

namespace DocStore.Index

variable {separator key : String} {docs : String → Option Document} {ix : Index} {t : Tuple} {ks ms : List String}
  {es : List (Tuple × List String)}

/-! ## Entries -/

/-- Entries without some keys. The other keys of a tuple keep their order, and a tuple without other keys goes. -/
def entriesWithout (ks : List String) (es : List (Tuple × List String)) : List (Tuple × List String) :=
  (es.map fun e => (e.1, e.2.filter (· ∉ ks))).filter (·.2 ≠ [])

theorem entriesWithout_cons {e : Tuple × List String} : entriesWithout ks (e :: es) =
    if e.2.filter (· ∉ ks) = [] then entriesWithout ks es
    else (e.1, e.2.filter (· ∉ ks)) :: entriesWithout ks es := by
  rw [entriesWithout, List.map_cons, List.filter_cons]
  simp only [decide_eq_true_eq, ne_eq, ite_not]
  rfl

/-- Keys left out one after the other are left out together. -/
theorem entriesWithout_entriesWithout :
    entriesWithout ms (entriesWithout ks es) = entriesWithout (ks ++ ms) es := by
  induction es with
  | nil => rfl
  | cons e es ih =>
    have hboth : e.2.filter (· ∉ ks ++ ms) = (e.2.filter (· ∉ ks)).filter (· ∉ ms) := by
      rw [List.filter_filter]
      refine List.filter_congr fun k _ => ?_
      simp [Bool.and_comm]
    rw [entriesWithout_cons, entriesWithout_cons, hboth]
    by_cases h : e.2.filter (· ∉ ks) = []
    · rw [if_pos h, if_pos (by rw [h]; rfl), ih]
    · rw [if_neg h, entriesWithout_cons, ih]

/-- Keys that are not there need not be left out. -/
theorem entriesWithout_eq_self (h : Ordered es) (hks : ∀ e ∈ es, ∀ k ∈ e.2, k ∉ ks) : entriesWithout ks es = es := by
  induction es with
  | nil => rfl
  | cons e es ih =>
    obtain ⟨⟨-, hne, -⟩, h⟩ := ordered_cons.mp h
    obtain ⟨he, hks⟩ := List.forall_mem_cons.mp hks
    have hkeep : e.2.filter (· ∉ ks) = e.2 := List.filter_eq_self.mpr fun k hk => decide_eq_true (he k hk)
    rw [entriesWithout_cons, hkeep, if_neg hne, ih h hks]

/-- A key that is under one tuple only leaves the entries with that tuple. -/
theorem dropEntry_eq_entriesWithout (h : Ordered es) (hkey : ∀ e ∈ es, key ∈ e.2 → (e.1 == t) = true) :
    dropEntry t key es = entriesWithout [key] es := by
  induction es with
  | nil => rfl
  | cons e es ih =>
    obtain ⟨u, ks⟩ := e
    obtain ⟨⟨hlt, hne, hnd⟩, h⟩ := ordered_cons.mp h
    obtain ⟨hu, hkey⟩ := List.forall_mem_cons.mp hkey
    rw [dropEntry, entriesWithout_cons]
    by_cases hut : (u == t) = true
    · have herase : ks.erase key = ks.filter (· ∉ [key]) := by
        rw [hnd.erase_eq_filter]
        refine List.filter_congr fun k _ => ?_
        by_cases hk : k = key <;> simp [hk]
      -- the tuples after this one are other ones, so the key is not under them
      have hrest : entriesWithout [key] es = es := by
        refine entriesWithout_eq_self h fun f hf k hk hmem => ?_
        rw [List.mem_singleton] at hmem
        subst hmem
        have huf : (u == f.1) = true := BEq.trans hut (BEq.symm (hkey f hf hk))
        rw [(beq_eq_false_of_lt (hlt f hf)).1] at huf
        cases huf
      rw [if_pos hut, herase, hrest]
    · have hno : key ∉ ks := fun hk => hut (hu hk)
      have hkeep : ks.filter (· ∉ [key]) = ks := by
        refine List.filter_eq_self.mpr fun k hk => ?_
        have hne' : k ≠ key := fun he => hno (he ▸ hk)
        simp [hne']
      rw [if_neg hut, hkeep, if_neg hne, ih h hkey]

/-! ## Indexes -/

/-- The index without some keys. -/
def without (ks : List String) (ix : Index) : Index := { ix with entries := entriesWithout ks ix.entries }

theorem without_without : (ix.without ks).without ms = ix.without (ks ++ ms) :=
  congrArg (Index.mk ix.descriptor) entriesWithout_entriesWithout

/-- The keys of documents that are not there need not be left out. -/
theorem Tracks.without_eq_self (h : ix.Tracks separator docs) (hks : ∀ k ∈ ks, docs k = none) : ix.without ks = ix := by
  refine congrArg (Index.mk ix.descriptor) (entriesWithout_eq_self h.ordered fun e he k hk hmem => ?_)
  obtain ⟨d, hd, -⟩ := h.of_mem he hk
  rw [hks k hmem] at hd
  cases hd

/-- To remove a document is to leave its key out. -/
theorem Tracks.remove_eq_without {old : Document} (h : ix.Tracks separator docs) (hkey : docs key = some old) :
    ix.remove separator key old = ix.without [key] := by
  refine congrArg (Index.mk ix.descriptor) (dropEntry_eq_entriesWithout h.ordered fun e he hk => ?_)
  obtain ⟨d, hd, ht⟩ := h.of_mem he hk
  rw [hkey] at hd
  cases hd
  exact ht

end DocStore.Index
