import DocStore.Index.Registry
import DocStore.Proofs.Index.Tracking
import Mathlib.Data.List.Perm.Basic

/-!
# The registered indexes

What becomes of a list of indexes when one is created (`create_eq_ok`) or dropped (`drop_eq_ok`), and which index a search
finds: the one over exactly a field list (`find?_of_mem`), and the one that serves a set of names, which is over a
rearrangement of them (`perm_of_select?`) and is found whenever there is such an index (`select?_eq_none_iff`).
-/

namespace DocStore

/-- Without regard to order, lists are the same when both are free of repetition and one rearranges the other. -/
theorem FieldList.sameSet_iff {f : FieldList} {names : List String} :
    f.sameSet names = true ↔ f.names.Nodup ∧ names.Nodup ∧ f.names.Perm names := by
  simp only [sameSet, Bool.and_eq_true, decide_eq_true_eq, List.all_eq_true, List.contains_iff_mem]
  constructor
  · rintro ⟨⟨⟨hf, hn⟩, hfn⟩, hnf⟩
    exact ⟨hf, hn, (List.perm_ext_iff_of_nodup hf hn).mpr fun n => ⟨hfn n, hnf n⟩⟩
  · rintro ⟨hf, hn, hp⟩
    exact ⟨⟨⟨hf, hn⟩, fun n hm => hp.mem_iff.mp hm⟩, fun n hm => hp.mem_iff.mpr hm⟩

namespace Index

variable {separator : String} {names : List String} {fields : FieldList} {d : IndexDescriptor} {ix : Index}
  {ixs ixs' : List Index} {es : List (String × Document)}

/-! ## Creating and dropping -/

/-- Among indexes over different field lists, each is the one that is found over its fields. -/
theorem find?_of_mem (hnd : (ixs.map (·.descriptor.fields)).Nodup) (h : ix ∈ ixs) :
    find? ix.descriptor.fields ixs = some ix := by
  unfold find?
  induction ixs with
  | nil => cases h
  | cons jx ixs ih =>
    rw [List.map_cons, List.nodup_cons] at hnd
    rcases List.mem_cons.mp h with rfl | h
    · exact List.find?_cons_of_pos (beq_self_eq_true _)
    · have hne : jx.descriptor.fields ≠ ix.descriptor.fields := fun he => hnd.1 (he ▸ List.mem_map_of_mem h)
      rw [List.find?_cons_of_neg (by simpa using hne)]
      exact ih hnd.2 h

theorem mem_of_find? (h : find? fields ixs = some ix) : ix ∈ ixs ∧ ix.descriptor.fields = fields := by
  unfold find? at h
  have hfields := List.find?_some h
  exact ⟨List.mem_of_find?_eq_some h, beq_iff_eq.mp hfields⟩

theorem find?_eq_none_iff_notMem : find? fields ixs = none ↔ fields ∉ ixs.map (·.descriptor.fields) := by
  unfold find?
  rw [List.find?_eq_none, List.mem_map]
  constructor
  · rintro hno ⟨ix, hix, rfl⟩
    exact hno ix hix (beq_self_eq_true _)
  · intro hno ix hix hfields
    exact hno ⟨ix, hix, beq_iff_eq.mp hfields⟩

/-- An index that is created was there already, or it is filled with the documents and comes last. -/
theorem create_eq_ok (h : create separator es d ixs = .ok ixs') :
    ixs' = ixs ∨ d.fields ∉ ixs.map (·.descriptor.fields) ∧
      ∃ ix, backfill separator (empty d) es = .ok ix ∧ ixs' = ixs ++ [ix] := by
  unfold create at h
  split at h
  · split at h <;> cases h
    exact Or.inl rfl
  · next hf =>
    refine Or.inr ⟨find?_eq_none_iff_notMem.mp hf, ?_⟩
    cases hb : backfill separator (empty d) es with
    | error e => rw [hb] at h; cases h
    | ok ix => rw [hb] at h; cases h; exact ⟨ix, rfl, rfl⟩

/-- What is there after an index was created was there before, or it is the index that was created. -/
theorem mem_of_create_eq_ok (h : create separator es d ixs = .ok ixs') (hix : ix ∈ ixs') :
    ix ∈ ixs ∨ ix.descriptor = d ∧ d.fields ∉ ixs.map (·.descriptor.fields) ∧
      backfill separator (empty d) es = .ok ix := by
  rcases create_eq_ok h with rfl | ⟨hnew, jx, hb, rfl⟩
  · exact Or.inl hix
  · rcases List.mem_append.mp hix with hix | hix
    · exact Or.inl hix
    · rw [List.mem_singleton.mp hix]
      exact Or.inr ⟨descriptor_backfill hb, hnew, hb⟩

theorem drop_eq_ok (h : drop fields ixs = .ok ixs') : ixs'.Sublist ixs := by
  unfold drop at h
  split at h
  · cases h; exact List.filter_sublist
  · cases h

/-! ## The index that serves a set of names -/

/-- The index that serves a set of names is a registered one over a rearrangement of them. -/
theorem perm_of_select? (h : select? names ixs = some ix) : ix ∈ ixs ∧ ix.names.Perm names := by
  unfold select? at h
  split at h
  · next hf =>
    cases h
    have he := List.find?_some hf
    exact ⟨List.mem_of_find?_eq_some hf, .of_eq (beq_iff_eq.mp he)⟩
  · have hs := List.find?_some h
    exact ⟨List.mem_of_find?_eq_some h, (FieldList.sameSet_iff.mp hs).2.2⟩

/-- No index serves names free of repetition exactly when none is over a rearrangement of them. -/
theorem select?_eq_none_iff (hnd : names.Nodup) : select? names ixs = none ↔ ∀ ix ∈ ixs, ¬ ix.names.Perm names := by
  constructor
  · intro h ix hix hp
    unfold select? at h
    split at h
    · cases h
    · have hno := List.find?_eq_none.mp h ix hix
      exact hno (FieldList.sameSet_iff.mpr ⟨hp.nodup_iff.mpr hnd, hnd, hp⟩)
  · intro h
    cases hs : select? names ixs with
    | none => rfl
    | some ix => exact absurd (perm_of_select? hs).2 (h ix (perm_of_select? hs).1)

end Index
end DocStore
