import DocStore.Proofs.Index.Rebuilding

/-!
# The first document that repeats a tuple

Going through a scan, the first document that agrees with an earlier one agrees with only one of them, since those before it
all differ (`FirstRepeat`). Filling a unique index fails exactly there and names the two (`firstRepeat_of_backfill`), so the
index over some fields is created, or the scan has such a document (`create_eq_error`).
-/

namespace DocStore

/-- At some paths no two documents of a scan agree. -/
def Distinct (separator : String) (paths : List String) (es : List (String × Document)) : Prop :=
  es.Pairwise fun e f => ¬ e.2.AgreeAt separator paths f.2

/-- The first entry of a scan that agrees with an earlier one at some paths, after the only one that it agrees with. -/
def FirstRepeat (separator : String) (paths : List String) (es : List (String × Document))
    (first second : String × Document) : Prop :=
  ∃ before after, es = before ++ second :: after ∧ Distinct separator paths before ∧ first ∈ before ∧
    ∀ e ∈ before, e.2.AgreeAt separator paths second.2 ↔ e = first

namespace Index

variable {separator : String} {u : IndexDescriptor} {ix : Index} {ixs : List Index} {es : List (String × Document)}
  {e : StoreError}

/-- Filling fails at a document whose tuple another key holds after those before it came in. -/
theorem exists_of_backfill_eq_error (h : backfill separator ix es = .error e) :
    ∃ before key d after jx first, es = before ++ (key, d) :: after ∧ backfill separator ix before = .ok jx ∧
      jx.holder? (jx.tupleOf separator d) key = some first ∧ e = .tupleShared ix.descriptor.fields first key := by
  induction es generalizing ix with
  | nil => cases h
  | cons f es ih =>
    obtain ⟨key, d⟩ := f
    cases hholder : ix.holder? (ix.tupleOf separator d) key with
    | some first =>
      simp only [backfill, hholder] at h
      cases h
      exact ⟨[], key, d, es, ix, first, rfl, rfl, hholder, rfl⟩
    | none =>
      simp only [backfill, hholder] at h
      obtain ⟨before, key', d', after, jx, first, rfl, hb, hfirst, he⟩ := ih h
      exact ⟨(key, d) :: before, key', d', after, jx, first, rfl, backfill_cons_eq_ok.mpr ⟨hholder, hb⟩, hfirst, he⟩

/-- A unique index is filled with documents that are distinct. -/
theorem distinct_of_separates (hu : u.unique = true) (hnd : (es.map (·.1)).Nodup)
    (h : Separates separator (fun k => es.lookup k) u) : Distinct separator u.fields.names es := by
  have hkeys : es.Pairwise fun e f => e.1 ≠ f.1 := List.pairwise_map.mp hnd
  refine hkeys.imp_of_mem fun {e f} he hf hne hagree => hne ?_
  have hlookup : ∀ g ∈ es, es.lookup g.1 = some g.2 := fun g hg => (lookup_eq_some_iff hnd).mpr hg
  exact h hu e.1 f.1 e.2 f.2 (hlookup e he) (hlookup f hf) (Tuple.ofDocument_beq_iff.mpr hagree)

/-- **Filling an index fails at the first document that repeats a tuple.** -/
theorem firstRepeat_of_backfill (hnd : (es.map (·.1)).Nodup) (h : backfill separator (empty u) es = .error e) :
    ∃ first second, FirstRepeat separator u.fields.names es first second ∧
      e = .tupleShared u.fields first.1 second.1 := by
  obtain ⟨before, key, d, after, jx, first, rfl, hb, hfirst, rfl⟩ := exists_of_backfill_eq_error h
  have hbefore : (before.map (·.1)).Nodup := (List.sublist_append_left ..).map _ |>.nodup hnd
  have hs := separates_of_backfill hbefore hb
  have htracks := tracks_of_backfill_empty hbefore hb
  have hdescriptor : jx.descriptor = u := descriptor_backfill hb
  unfold holder? tupleOf at hfirst
  rw [hdescriptor] at hfirst
  split at hfirst
  · next hu =>
    have hmem := (htracks.mem_keysAt _ _).mp (List.mem_of_find?_eq_some hfirst)
    obtain ⟨d', hd', ht⟩ := hmem
    unfold tupleOf at ht
    rw [hdescriptor] at ht
    refine ⟨(first, d'), (key, d), ⟨before, after, rfl, distinct_of_separates hu hbefore hs,
      (lookup_eq_some_iff hbefore).mp hd', fun f hf => ⟨fun hagree => ?_, ?_⟩⟩, rfl⟩
    · -- what agrees with the second document has the tuple of the first one
      have hlookup : before.lookup f.1 = some f.2 := (lookup_eq_some_iff hbefore).mpr hf
      have hkey : f.1 = first :=
        hs hu f.1 first f.2 d' hlookup hd' (BEq.trans (Tuple.ofDocument_beq_iff.mpr hagree) ht)
      rw [hkey, hd'] at hlookup
      exact Prod.ext hkey (Option.some.inj hlookup).symm
    · rintro rfl
      exact Tuple.ofDocument_beq_iff.mp (BEq.symm ht)
  · cases hfirst

/-- An index over new fields that is refused would repeat a tuple. -/
theorem create_eq_error (hnew : u.fields ∉ ixs.map (·.descriptor.fields)) (hnd : (es.map (·.1)).Nodup)
    (hs : ¬ Separates separator (fun k => es.lookup k) u) :
    ∃ first second, FirstRepeat separator u.fields.names es first second ∧
      create separator es u ixs = .error (.tupleShared u.fields first.1 second.1) := by
  cases hb : backfill separator (empty u) es with
  | ok ix => exact absurd ((exists_backfill_empty_iff hnd).mp ⟨ix, hb⟩) hs
  | error e =>
    obtain ⟨first, second, hrepeat, rfl⟩ := firstRepeat_of_backfill hnd hb
    refine ⟨first, second, hrepeat, ?_⟩
    unfold create
    rw [find?_eq_none_iff_notMem.mpr hnew, hb]
    rfl

end Index
end DocStore
