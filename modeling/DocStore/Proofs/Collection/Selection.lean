import DocStore.Proofs.Collection.Equality
import Mathlib.Data.Finset.Card

/-!
# Which index serves a set of names

Among the indexes over a rearrangement of the names, the one over just these names in this order is taken, wherever it
stands, and else the earliest (`Index.Chosen`, `Index.select?_eq_some_iff_chosen`). One walk over the indexes that stops
at the first and remembers the second finds the same (`Index.selectFrom_eq`). For a predicate the chosen index looks up
a tuple with a value in every component (`Collection.exists_values_of_select?`).
-/

namespace DocStore

/-- Two lists have no repetition and the same names when their sets of names are equal and as large as they are long. -/
theorem FieldList.sameSet_iff_toFinset {f : FieldList} {names : List String} :
    f.sameSet names = true ↔
      f.names.toFinset.card = f.names.length ∧ names.toFinset.card = names.length ∧
        f.names.toFinset = names.toFinset := by
  have hcard (l : List String) : l.toFinset.card = l.length ↔ l.Nodup := by
    rw [List.card_toFinset, ← List.dedup_eq_self]
    exact ⟨fun h => l.dedup_sublist.eq_of_length h, fun h => congrArg List.length h⟩
  rw [FieldList.sameSet_iff, hcard, hcard]
  refine and_congr_right fun hf => and_congr_right fun hn => ?_
  rw [List.perm_ext_iff_of_nodup hf hn, Finset.ext_iff]
  simp only [List.mem_toFinset]

namespace Index

variable {names : List String} {ixs : List Index} {ix : Index} {candidate : Option Index}

/-- An index is the earliest with a property. -/
def FirstWith (p : Index → Prop) (ixs : List Index) (ix : Index) : Prop :=
  p ix ∧ ∃ before after, ixs = before ++ ix :: after ∧ ∀ jx ∈ before, ¬p jx

/-- An index over just these names in this order, or the earliest over a rearrangement of them where there is none. -/
def Chosen (names : List String) (ixs : List Index) (ix : Index) : Prop :=
  FirstWith (fun jx => jx.names = names) ixs ix ∨
    (∀ jx ∈ ixs, jx.names ≠ names) ∧ FirstWith (fun jx => jx.names.Perm names) ixs ix

theorem find?_eq_some_iff_firstWith {p : Index → Prop} {test : Index → Bool} (h : ∀ jx, test jx = true ↔ p jx) :
    ixs.find? test = some ix ↔ FirstWith p ixs ix := by
  rw [List.find?_eq_some_iff_append, FirstWith, h]
  refine and_congr_right fun _ => exists_congr fun before => exists_congr fun after => and_congr_right fun _ => ?_
  refine forall₂_congr fun jx _ => ?_
  rw [← h jx, Bool.not_eq_true, Bool.not_eq_true']

theorem select?_eq_some_iff_chosen (hnd : names.Nodup) : select? names ixs = some ix ↔ Chosen names ixs ix := by
  have hexact (jx : Index) : (jx.names == names) = true ↔ jx.names = names := beq_iff_eq
  have hset (jx : Index) : jx.descriptor.fields.sameSet names = true ↔ jx.names.Perm names := by
    rw [FieldList.sameSet_iff]
    exact ⟨fun h => h.2.2, fun hp => ⟨hp.nodup_iff.mpr hnd, hnd, hp⟩⟩
  unfold select? Chosen
  rw [← find?_eq_some_iff_firstWith hexact, ← find?_eq_some_iff_firstWith hset]
  cases hfirst : ixs.find? fun jx => jx.names == names with
  | some jx =>
    -- one over just these names is there, so the second way is closed
    obtain ⟨hjx, hmem⟩ := And.intro (List.find?_some hfirst) (List.mem_of_find?_eq_some hfirst)
    exact ⟨Or.inl, fun h => h.elim id fun ⟨hno, _⟩ => absurd (beq_iff_eq.mp hjx) (hno jx hmem)⟩
  | none =>
    have hno : ∀ jx ∈ ixs, jx.names ≠ names := fun jx hjx he => List.find?_eq_none.mp hfirst jx hjx (beq_iff_eq.mpr he)
    exact ⟨fun h => Or.inr ⟨hno, h⟩, fun h => h.elim (fun h => nomatch h) And.right⟩

/-! ## One walk -/

/-- The index that serves a set of names, found in one walk that stops at an index over just these names and otherwise
remembers the first one over a rearrangement of them. -/
def selectFrom (names : List String) : Option Index → List Index → Option Index
  | candidate, [] => candidate
  | candidate, ix :: ixs =>
    if ix.names == names then some ix
    else selectFrom names (if candidate.isNone && ix.descriptor.fields.sameSet names then some ix else candidate) ixs

theorem selectFrom_eq : selectFrom names candidate ixs =
    (ixs.find? fun ix => ix.names == names).or
      (candidate.or (ixs.find? fun ix => ix.descriptor.fields.sameSet names)) := by
  induction ixs generalizing candidate with
  | nil => rw [selectFrom, List.find?_nil, List.find?_nil, Option.or_none, Option.none_or]
  | cons ix ixs ih =>
    rw [selectFrom, List.find?_cons, List.find?_cons]
    cases ix.names == names with
    | true => rfl
    | false =>
      rw [if_neg Bool.false_ne_true, ih]
      cases candidate with
      | some jx => rfl
      | none => cases ix.descriptor.fields.sameSet names <;> rfl

theorem selectFrom_none_eq (names : List String) (ixs : List Index) :
    selectFrom names none ixs = select? names ixs := by
  rw [selectFrom_eq, select?, Option.none_or]
  cases ixs.find? fun ix => ix.names == names <;> rfl

end Index

namespace Collection

variable {c : Collection} {predicate : Document} {ix : Index}

/-- An index that serves the fields of a predicate is asked for a tuple with as many values as it has fields, each the
predicate's value for its field. -/
theorem exists_values_of_select? (h : Index.select? predicate.names c.indexes = some ix) :
    ∃ vs, vs.map some = ix.names.map predicate.get? ∧ vs.length = ix.names.length ∧
      c.indexedKeys? predicate = some (ix.keysAt (.ofValues vs)) := by
  have hsome := isSome_of_select? h
  refine ⟨ix.names.filterMap predicate.get?, map_some_filterMap hsome, length_filterMap_of_isSome hsome, ?_⟩
  rw [indexedKeys?_eq_map, h]
  rfl

end Collection

/-- **Which index serves a set of names.** There is one exactly when a registered index is over a rearrangement of the
names, and then it is the one over just these names in this order, or the earliest where there is none such; a field list
that repeats a name serves no names. One walk over the indexes with a remembered candidate finds the same. Field lists
are the same but for order exactly when neither repeats a name and one rearranges the other, which their sets of names
show. So an index chosen for a predicate has a value of the predicate for each of its fields, and the tuple looked up
has as many components. -/
theorem selection_exact :
    (∀ (ixs : List Index) (names : List String), names.Nodup →
      ((∃ ix, Index.select? names ixs = some ix) ↔ ∃ ix ∈ ixs, ix.names.Perm names) ∧
      (∀ ix, Index.select? names ixs = some ix → ix.names.Nodup) ∧
      (∀ ix, Index.select? names ixs = some ix ↔ Index.Chosen names ixs ix) ∧
      Index.selectFrom names none ixs = Index.select? names ixs) ∧
    (∀ (f : FieldList) (names : List String),
      (f.sameSet names = true ↔ f.names.Nodup ∧ names.Nodup ∧ f.names.Perm names) ∧
      (f.sameSet names = true ↔ f.names.toFinset.card = f.names.length ∧ names.toFinset.card = names.length ∧
        f.names.toFinset = names.toFinset)) ∧
    ∀ (c : Collection) (predicate : Document) (ix : Index), Index.select? predicate.names c.indexes = some ix →
      ∃ vs, vs.map some = ix.names.map predicate.get? ∧
        (Index.Tuple.ofValues vs).components.length = ix.descriptor.fields.length ∧
        c.indexedKeys? predicate = some (ix.keysAt (.ofValues vs)) := by
  refine ⟨fun ixs names hnd => ⟨?_, ?_, fun ix => Index.select?_eq_some_iff_chosen hnd, Index.selectFrom_none_eq _ _⟩,
    fun f names => ⟨FieldList.sameSet_iff, FieldList.sameSet_iff_toFinset⟩, fun c predicate ix h => ?_⟩
  · constructor
    · rintro ⟨ix, hs⟩
      exact ⟨ix, Index.perm_of_select? hs⟩
    · rintro ⟨ix, hix, hp⟩
      cases hs : Index.select? names ixs with
      | none => exact absurd hp ((Index.select?_eq_none_iff hnd).mp hs ix hix)
      | some jx => exact ⟨jx, rfl⟩
  · intro ix hs
    exact (Index.perm_of_select? hs).2.nodup_iff.mpr hnd
  · obtain ⟨vs, hvs, hlength, hkeys⟩ := Collection.exists_values_of_select? h
    refine ⟨vs, hvs, ?_, hkeys⟩
    show (vs.map some).length = ix.names.length
    rw [List.length_map, hlength]

/-- An index over two fields. -/
def Index.overPair (m n : String) (hm : m ≠ "") (hn : n ≠ "") : Index :=
  .empty ⟨⟨[m, n], List.cons_ne_nil m [n], List.forall_mem_cons.mpr ⟨hm, List.forall_mem_singleton.mpr hn⟩⟩, false, "c"⟩

/-- The index in the order of the names is taken though another stands before it, and without it the earliest; that
over a repeated name is never taken. -/
theorem selection_exact_sample :
    let repeated := Index.overPair "x" "x" (by decide) (by decide)
    let turned := Index.overPair "y" "x" (by decide) (by decide)
    let straight := Index.overPair "x" "y" (by decide) (by decide)
    Index.select? ["x", "y"] [repeated, turned, straight] = some straight ∧
      Index.select? ["x", "y"] [repeated, turned] = some turned := by
  intro repeated turned straight
  have hnd : ["x", "y"].Nodup := by decide
  constructor
  · refine ((selection_exact.1 _ _ hnd).2.2.1 straight).mpr (Or.inl ⟨rfl, [repeated, turned], [], rfl, ?_⟩)
    exact List.forall_mem_cons.mpr ⟨by decide, List.forall_mem_singleton.mpr (by decide)⟩
  · refine ((selection_exact.1 _ _ hnd).2.2.1 turned).mpr (Or.inr ⟨?_, .swap "x" "y" [], [repeated], [], rfl, ?_⟩)
    · exact List.forall_mem_cons.mpr ⟨by decide, List.forall_mem_singleton.mpr (by decide)⟩
    · exact List.forall_mem_singleton.mpr (by decide)

end DocStore
