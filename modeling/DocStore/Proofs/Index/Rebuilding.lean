import DocStore.Proofs.Index.Registry
import DocStore.Proofs.Index.Uniqueness

/-!
# Indexes built anew

Ordered entries are given by the keys under every tuple, up to the form of the tuples and the order of the keys
(`Ordered.forall₂_sameKeys`), so indexes over the same fields that track the same documents have the same keys under the
same tuples, however they came to them (`Tracks.keysAt_perm`, `Tracks.forall₂_sameKeys`). An index that is dropped leaves
the others as they are (`exists_drop_eq_ok`), and it can be filled anew unless documents share a tuple in it
(`exists_create_eq_ok`).
-/

namespace DocStore.Index

variable {separator : String} {docs : String → Option Document} {ix jx : Index} {ixs : List Index}
  {e : Tuple × List String} {es fs : List (Tuple × List String)}

/-! ## Entries with the same keys -/

/-- Entries of equal tuples with the same keys in any order. -/
abbrev SameKeys (e f : Tuple × List String) : Prop := (e.1 == f.1) = true ∧ e.2.Perm f.2

/-- The first tuple of entries is among the tuples of entries with the same keys, so it is not below all of them. -/
theorem Ordered.not_lt_of_keysIn_perm (he : Ordered (e :: es))
    (h : ∀ t, (keysIn t (e :: es)).Perm (keysIn t fs)) : ¬ ∀ g ∈ fs, compare e.1 g.1 = .lt := by
  intro hlt
  have hnil := h e.1
  rw [keysIn_head, keysIn_eq_nil hlt] at hnil
  exact (ordered_cons.mp he).1.2.1 hnil.eq_nil

/-- Entries with the same keys under every tuple have equal tuples, each with the same keys. -/
theorem Ordered.forall₂_sameKeys (he : Ordered es) (hf : Ordered fs) (h : ∀ t, (keysIn t es).Perm (keysIn t fs)) :
    List.Forall₂ SameKeys es fs := by
  induction es generalizing fs with
  | nil =>
    cases fs with
    | nil => exact .nil
    | cons f fs => exact absurd (by simp) (hf.not_lt_of_keysIn_perm fun t => (h t).symm)
  | cons e es ih =>
    cases fs with
    | nil => exact absurd (by simp) (he.not_lt_of_keysIn_perm h)
    | cons f fs =>
      obtain ⟨⟨hefs, -⟩, hes⟩ := ordered_cons.mp he
      obtain ⟨⟨hffs, -⟩, hfs⟩ := ordered_cons.mp hf
      have heq : (e.1 == f.1) = true := by
        rw [← Std.LawfulBEqOrd.compare_eq_iff_beq]
        cases hcmp : compare e.1 f.1 with
        | eq => rfl
        | lt =>
          refine absurd ?_ (he.not_lt_of_keysIn_perm h)
          exact List.forall_mem_cons.mpr ⟨hcmp, fun g hg => Std.TransCmp.lt_trans hcmp (hffs g hg)⟩
        | gt =>
          have hlt := Std.OrientedCmp.lt_of_gt hcmp
          refine absurd ?_ (hf.not_lt_of_keysIn_perm fun t => (h t).symm)
          exact List.forall_mem_cons.mpr ⟨hlt, fun g hg => Std.TransCmp.lt_trans hlt (hefs g hg)⟩
      refine .cons ⟨heq, ?_⟩ (ih hes hfs fun t => ?_)
      · have hkeys := h e.1
        rw [keysIn_head, keysIn_congr heq, keysIn_head] at hkeys
        exact hkeys
      · rw [keysIn_tail he, keysIn_tail hf, BEq.congr_left heq]
        split
        · exact .refl _
        · exact h t

/-! ## Indexes of the same documents -/

/-- Which keys are under a tuple is a matter of the documents. -/
theorem Tracks.keysAt_perm (h : ix.Tracks separator docs) (h' : jx.Tracks separator docs)
    (hfields : ix.descriptor.fields = jx.descriptor.fields) (t : Tuple) : (ix.keysAt t).Perm (jx.keysAt t) := by
  refine (List.perm_ext_iff_of_nodup (nodup_keysIn h.ordered t) (nodup_keysIn h'.ordered t)).mpr fun k => ?_
  have hiff : k ∈ ix.keysAt t ↔ k ∈ jx.keysAt t := by
    simp only [h.mem_keysAt, h'.mem_keysAt, tupleOf, hfields]
  exact hiff

theorem Tracks.forall₂_sameKeys (h : ix.Tracks separator docs) (h' : jx.Tracks separator docs)
    (hfields : ix.descriptor.fields = jx.descriptor.fields) : List.Forall₂ SameKeys ix.entries jx.entries :=
  h.ordered.forall₂_sameKeys h'.ordered (h.keysAt_perm h' hfields)

/-! ## Dropping and creating -/

/-- An index that is dropped leaves those before it and those after it. -/
theorem exists_drop_eq_ok (hnd : (ixs.map (·.descriptor.fields)).Nodup) (hix : ix ∈ ixs) :
    ∃ before after, ixs = before ++ ix :: after ∧ drop ix.descriptor.fields ixs = .ok (before ++ after) ∧
      ix.descriptor.fields ∉ (before ++ after).map (·.descriptor.fields) := by
  obtain ⟨before, after, rfl⟩ := List.append_of_mem hix
  have hother : ix.descriptor.fields ∉ (before ++ after).map (·.descriptor.fields) := by
    rw [List.map_append, List.map_cons, List.nodup_middle, List.nodup_cons] at hnd
    rw [List.map_append]
    exact hnd.1
  have hkeep : ∀ jx ∈ before ++ after, (jx.descriptor.fields != ix.descriptor.fields) = true := fun jx hj =>
    bne_iff_ne.mpr fun he => hother (List.mem_map.mpr ⟨jx, hj, he⟩)
  refine ⟨before, after, rfl, ?_, hother⟩
  unfold drop
  rw [find?_of_mem hnd hix]
  simp only [List.filter_append, List.filter_cons, bne_self_eq_false, Bool.false_eq_true, if_false]
  rw [← List.filter_append, List.filter_eq_self.mpr hkeep]

/-- An index over fields that no other one is over is created when it separates the documents. -/
theorem exists_create_eq_ok {d : IndexDescriptor} {es : List (String × Document)}
    (hnew : d.fields ∉ ixs.map (·.descriptor.fields)) (hnd : (es.map (·.1)).Nodup)
    (hs : Separates separator (fun k => es.lookup k) d) :
    ∃ jx, create separator es d ixs = .ok (ixs ++ [jx]) ∧ jx.descriptor = d ∧
      jx.Tracks separator fun k => es.lookup k := by
  obtain ⟨jx, hb⟩ := (exists_backfill_empty_iff hnd).mpr hs
  refine ⟨jx, ?_, descriptor_backfill hb, tracks_of_backfill_empty hnd hb⟩
  unfold create
  rw [find?_eq_none_iff_notMem.mpr hnew, hb]
  rfl

end DocStore.Index
