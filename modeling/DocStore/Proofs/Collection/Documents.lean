import DocStore.Collection.Writing
import DocStore.Proofs.Document.Fields
import Mathlib.Logic.Function.Basic

/-!
# The documents of a collection as a map

Writing and removing documents, seen as operations on the map from keys to documents (`get?_write`, `get?_remove`), and on
the keys in scan order, which stay different (`nodup_keys_writeEntry`, `removeEntry_sublist`). The documents with some keys
in the order of the keys are a rearrangement of those in scan order (`filterMap_stored?_perm`).
-/

namespace DocStore

variable {key k : String} {d : Document} {es : List (String × Document)}

/-! ## Entries -/

theorem lookup_writeEntry : (writeEntry key d es).lookup k = if k = key then some d else es.lookup k := by
  induction es with
  | nil => exact lookup_cons_eq
  | cons e es ih =>
    obtain ⟨m, b⟩ := e
    unfold writeEntry
    by_cases hm : m = key
    · subst hm
      rw [if_pos rfl, lookup_cons_eq, lookup_cons_eq]
      split <;> rfl
    · rw [if_neg hm, lookup_cons_eq, lookup_cons_eq, ih]
      by_cases hk : k = m
      · rw [if_pos hk, if_pos hk, if_neg (fun he => hm (hk.symm.trans he))]
      · rw [if_neg hk, if_neg hk]

/-- The keys after a document was written: the new one comes last. -/
theorem keys_writeEntry : (writeEntry key d es).map (·.1) =
    if key ∈ es.map (·.1) then es.map (·.1) else es.map (·.1) ++ [key] := by
  induction es with
  | nil => rfl
  | cons e es ih =>
    obtain ⟨m, b⟩ := e
    unfold writeEntry
    by_cases hm : m = key
    · subst hm
      rw [if_pos rfl, List.map_cons, List.map_cons, if_pos List.mem_cons_self]
    · rw [if_neg hm, List.map_cons, ih, List.map_cons]
      by_cases hk : key ∈ es.map (·.1)
      · rw [if_pos hk, if_pos (List.mem_cons_of_mem m hk)]
      · rw [if_neg hk, if_neg (fun h => hk ((List.mem_cons.mp h).resolve_left (Ne.symm hm)))]
        rfl

theorem nodup_keys_writeEntry (h : (es.map (·.1)).Nodup) : ((writeEntry key d es).map (·.1)).Nodup := by
  rw [keys_writeEntry]
  split
  · exact h
  · next hk =>
    rw [← List.concat_eq_append]
    exact List.Nodup.concat hk h

theorem mem_of_mem_writeEntry {e : String × Document} (h : e ∈ writeEntry key d es) : e = (key, d) ∨ e ∈ es := by
  induction es with
  | nil => exact Or.inl (List.mem_singleton.mp h)
  | cons f es ih =>
    obtain ⟨m, b⟩ := f
    unfold writeEntry at h
    split at h
    · exact (List.mem_cons.mp h).imp_right (List.mem_cons_of_mem _)
    · rcases List.mem_cons.mp h with rfl | h
      · exact Or.inr List.mem_cons_self
      · exact (ih h).imp_right (List.mem_cons_of_mem _)

theorem removeEntry_cons {m : String} {b : Document} :
    removeEntry key ((m, b) :: es) = if m = key then es else (m, b) :: removeEntry key es := by
  unfold removeEntry
  rw [List.eraseP_cons]
  by_cases h : m = key
  · rw [if_pos h, h, beq_self_eq_true, cond_true]
  · rw [if_neg h, beq_false_of_ne h, cond_false]

theorem lookup_removeEntry (h : (es.map (·.1)).Nodup) :
    (removeEntry key es).lookup k = if k = key then none else es.lookup k := by
  induction es with
  | nil => split <;> rfl
  | cons e es ih =>
    obtain ⟨m, b⟩ := e
    rw [List.map_cons, List.nodup_cons] at h
    rw [removeEntry_cons, lookup_cons_eq]
    by_cases hm : m = key
    · subst hm
      rw [if_pos rfl]
      by_cases hk : k = m
      · subst hk
        rw [if_pos rfl]
        exact lookup_eq_none fun f hf he => h.1 (List.mem_map.mpr ⟨f, hf, he⟩)
      · rw [if_neg hk, if_neg hk]
    · rw [if_neg hm, lookup_cons_eq, ih h.2]
      by_cases hk : k = m
      · rw [if_pos hk, if_pos hk, if_neg (fun he => hm (hk.symm.trans he))]
      · rw [if_neg hk, if_neg hk]

theorem removeEntry_sublist (key : String) (es : List (String × Document)) : (removeEntry key es).Sublist es :=
  List.eraseP_sublist

/-! ## Collections -/

namespace Collection

variable {c : Collection}

theorem get?_eq_some_iff (h : (c.documents.map (·.1)).Nodup) : c.get? k = some d ↔ (k, d) ∈ c.documents :=
  lookup_eq_some_iff h

/-- Writing changes the map at the key. -/
theorem get?_write : (c.write key d).get? = Function.update c.get? key (some d) := by
  funext k
  show (writeEntry key d c.documents).lookup k = _
  rw [lookup_writeEntry, Function.update_apply]
  rfl

/-- Removing changes the map at the key. -/
theorem get?_remove (h : (c.documents.map (·.1)).Nodup) : (c.remove key).2.get? = Function.update c.get? key none := by
  funext k
  rw [Function.update_apply]
  unfold remove
  split
  · next hkey =>
    split
    · next hk => rw [hk, hkey]
    · rfl
  · exact lookup_removeEntry h

/-- A document is stored under a key when it is the entry's own. -/
theorem stored?_eq_some_iff {e : Entry} (h : (c.documents.map (·.1)).Nodup) :
    c.stored? k = some e ↔ e.1 = k ∧ e ∈ c.documents := by
  obtain ⟨m, b⟩ := e
  simp only [stored?, Option.map_eq_some_iff, get?_eq_some_iff h, Prod.mk.injEq]
  constructor
  · rintro ⟨d, hd, rfl, rfl⟩
    exact ⟨rfl, hd⟩
  · rintro ⟨rfl, hb⟩
    exact ⟨b, hb, rfl, rfl⟩

/-- The stored documents with some keys, in the order of the keys, rearrange those of a scan. -/
theorem filterMap_stored?_perm {ks : List String} (h : (c.documents.map (·.1)).Nodup) (hks : ks.Nodup) :
    (ks.filterMap c.stored?).Perm (c.documents.filter fun e => e.1 ∈ ks) := by
  have hinj : ∀ k m (e : Entry), e ∈ c.stored? k → e ∈ c.stored? m → k = m := by
    intro k m e hk hm
    rw [Option.mem_def, stored?_eq_some_iff h] at hk hm
    exact hk.1.symm.trans hm.1
  refine (List.perm_ext_iff_of_nodup (hks.filterMap hinj) (h.of_map.filter _)).mpr fun e => ?_
  simp only [List.mem_filterMap, stored?_eq_some_iff h, List.mem_filter, decide_eq_true_eq]
  constructor
  · rintro ⟨k, hk, rfl, he⟩
    exact ⟨he, hk⟩
  · rintro ⟨he, hk⟩
    exact ⟨e.1, hk, rfl, he⟩

end Collection
end DocStore
