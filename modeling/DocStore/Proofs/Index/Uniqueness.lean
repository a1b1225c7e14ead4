import DocStore.Index.Registry
import DocStore.Proofs.Index.Tracking
import DocStore.Proofs.Value.Equality

/-!
# Unique indexes

A descriptor separates documents when it is not unique or gives different documents different tuples (`Separates`). A
document clashes with the others when a unique descriptor gives it the tuple of one of them (`Clashes`). Writing a document
that does not clash keeps documents separated (`Separates.update`), and so does filling an index (`separates_of_backfill`).
An index that tracks documents knows of every clash, so a write passes the check of all indexes exactly when there is none
(`Tracks.holder?_eq_none_iff`, `checkWrite_eq_ok_iff`).
-/

namespace DocStore

/-! ## Equal tuples -/

/-- Documents agree at some paths: at each of them both have equal values, or both have none. -/
def Document.AgreeAt (separator : String) (paths : List String) (d e : Document) : Prop :=
  ∀ path ∈ paths, Option.Rel (fun v w => (v == w) = true) (d.getPath path separator) (e.getPath path separator)

namespace Index

/-- Documents have equal tuples when they agree at the indexed fields. -/
theorem Tuple.ofDocument_beq_iff {separator : String} {fields : FieldList} {d e : Document} :
    (ofDocument separator fields d == ofDocument separator fields e) = true ↔
      d.AgreeAt separator fields.names e := by
  rw [beq_iff_forall₂]
  show List.Forall₂ _ (fields.names.map _) (fields.names.map _) ↔ _
  rw [List.forall₂_map_left_iff, List.forall₂_map_right_iff, List.forall₂_same]
  exact forall₂_congr fun path _ => Value.compare_option_eq_iff

/-! ## Separated documents -/

variable {separator key : String} {docs docs' : String → Option Document} {d : Document} {u : IndexDescriptor}

/-- If the descriptor is unique, documents under different keys have different tuples. -/
def Separates (separator : String) (docs : String → Option Document) (u : IndexDescriptor) : Prop :=
  u.unique = true → ∀ k m d e, docs k = some d → docs m = some e →
    (Tuple.ofDocument separator u.fields d == Tuple.ofDocument separator u.fields e) = true → k = m

/-- The descriptor is unique, and a document under another key has the tuple of a document. -/
def Clashes (separator : String) (docs : String → Option Document) (key : String) (d : Document)
    (u : IndexDescriptor) : Prop :=
  u.unique = true ∧ ∃ k e, k ≠ key ∧ docs k = some e ∧
    (Tuple.ofDocument separator u.fields e == Tuple.ofDocument separator u.fields d) = true

/-- Fewer documents stay separated. -/
theorem Separates.of_imp (h : Separates separator docs u) (hsub : ∀ k d, docs' k = some d → docs k = some d) :
    Separates separator docs' u :=
  fun hu k m d e hd he => h hu k m d e (hsub k d hd) (hsub m e he)

/-- A document that does not clash can be written. -/
theorem Separates.update (h : Separates separator docs u) (hno : ¬ Clashes separator docs key d u) :
    Separates separator (Function.update docs key (some d)) u := by
  intro hu k m a b ha hb hab
  by_cases hk : k = key
  · subst hk
    rw [Function.update_self] at ha
    cases ha
    by_cases hm : m = k
    · exact hm.symm
    · rw [Function.update_of_ne hm] at hb
      exact absurd ⟨hu, m, b, hm, hb, BEq.symm hab⟩ hno
  · rw [Function.update_of_ne hk] at ha
    by_cases hm : m = key
    · subst hm
      rw [Function.update_self] at hb
      cases hb
      exact absurd ⟨hu, k, a, hk, ha, hab⟩ hno
    · rw [Function.update_of_ne hm] at hb
      exact h hu k m a b ha hb hab

/-- Separated documents do not clash with one that takes the place of a document with the same tuple. -/
theorem Separates.not_clashes {old : Document} (h : Separates separator docs u) (hkey : docs key = some old)
    (ht : (Tuple.ofDocument separator u.fields old == Tuple.ofDocument separator u.fields d) = true) :
    ¬ Clashes separator docs key d u := by
  rintro ⟨hu, k, e, hk, he, hed⟩
  exact hk (h hu k key e old he hkey (BEq.trans hed (BEq.symm ht)))

/-! ## Checking for clashes -/

variable {ix ix' : Index} {ixs : List Index}

/-- An index that tracks documents has a holder of a tuple exactly when there is a clash. -/
theorem Tracks.holder?_eq_none_iff (h : ix.Tracks separator docs) :
    ix.holder? (ix.tupleOf separator d) key = none ↔ ¬ Clashes separator docs key d ix.descriptor := by
  unfold holder? Clashes
  by_cases hu : ix.descriptor.unique = true
  · rw [if_pos hu, List.find?_eq_none]
    constructor
    · rintro hno ⟨-, k, e, hk, he, hed⟩
      exact hno k ((h.mem_keysAt _ k).mpr ⟨e, he, BEq.symm hed⟩) (bne_iff_ne.mpr hk)
    · intro hno k hk hne
      obtain ⟨e, he, hde⟩ := (h.mem_keysAt _ k).mp hk
      exact hno ⟨hu, k, e, bne_iff_ne.mp hne, he, BEq.symm hde⟩
  · rw [if_neg hu]
    exact iff_of_true rfl fun hc => hu hc.1

/-- A write passes the check when no index has a holder of its tuple. -/
theorem checkWrite_eq_ok_iff :
    checkWrite separator key d ixs = .ok () ↔ ∀ ix ∈ ixs, ix.holder? (ix.tupleOf separator d) key = none := by
  induction ixs with
  | nil => simp [checkWrite]
  | cons ix ixs ih =>
    rw [checkWrite, List.forall_mem_cons]
    cases ix.holder? (ix.tupleOf separator d) key with
    | some k => exact iff_of_false (fun h => by cases h) (fun h => by cases h.1)
    | none => exact ih.trans (and_iff_right rfl).symm

/-- What the check refuses is a duplicate. -/
theorem kind_of_checkWrite_eq_error {e : StoreError} (h : checkWrite separator key d ixs = .error e) :
    e.kind = .duplicateKeyViolation := by
  induction ixs with
  | nil => cases h
  | cons ix ixs ih =>
    rw [checkWrite] at h
    split at h
    · cases h
      rfl
    · exact ih h

/-! ## Filling an index -/

/-- A unique index that was filled separates the documents of the scan. -/
theorem separates_of_backfill {es : List (String × Document)} (hnd : (es.map (·.1)).Nodup)
    (hb : backfill separator (empty u) es = .ok ix) : Separates separator (fun k => es.lookup k) u := by
  have hnone : Separates separator (fun _ => none) u := fun _ k m d e hd => by cases hd
  obtain ⟨-, hs⟩ := backfill_induction
    (P := fun docs ix => ix.Tracks separator docs ∧ Separates separator docs ix.descriptor)
    (fun ⟨ht, hs⟩ hkey hno => ⟨ht.insert hkey _, hs.update (ht.holder?_eq_none_iff.mp hno)⟩)
    ⟨tracks_empty separator u, hnone⟩ (fun _ _ => rfl) hnd hb
  simp only [Option.or_none, descriptor_backfill hb] at hs
  exact hs

/-- The first of some further documents that are separated together with those that are there does not clash. -/
theorem Separates.not_clashes_first {es : List (String × Document)}
    (h : Separates separator (fun k => (es.lookup k).or (Function.update docs key (some d) k)) u)
    (hother : ∀ e ∈ es, e.1 ≠ key) (hnew : ∀ e ∈ es, docs e.1 = none) : ¬Clashes separator docs key d u := by
  rintro ⟨hu, k, e, hk, he, hed⟩
  refine hk (h hu k key e d ?_ ?_ hed)
  · have hold : es.lookup k = none := lookup_eq_none fun f hf hfk => by
      rw [← hfk, hnew f hf] at he
      cases he
    dsimp only
    rw [hold, Function.update_of_ne hk]
    exact he
  · dsimp only
    rw [lookup_eq_none hother, Function.update_self]
    rfl

/-- An index takes a scan in when the documents that it has and those of the scan are separated. -/
theorem exists_backfill_eq_ok {es : List (String × Document)} (h : ix.Tracks separator docs)
    (hnew : ∀ e ∈ es, docs e.1 = none) (hnd : (es.map (·.1)).Nodup)
    (hs : Separates separator (fun k => (es.lookup k).or (docs k)) ix.descriptor) :
    ∃ ix', backfill separator ix es = .ok ix' := by
  induction es generalizing ix docs with
  | nil => exact ⟨ix, rfl⟩
  | cons e es ih =>
    obtain ⟨key, d⟩ := e
    obtain ⟨hkey, hnew⟩ := List.forall_mem_cons.mp hnew
    rw [List.map_cons, List.nodup_cons] at hnd
    have hne : ∀ f ∈ es, f.1 ≠ key := fun f hf he => hnd.1 (List.mem_map.mpr ⟨f, hf, he⟩)
    rw [lookup_cons_or hne] at hs
    have hno : ¬ Clashes separator docs key d ix.descriptor := hs.not_clashes_first hne hnew
    have hr := ih (h.insert hkey d) (fun f hf => by rw [Function.update_of_ne (hne f hf)]; exact hnew f hf) hnd.2 hs
    obtain ⟨ix', hb⟩ := hr
    exact ⟨ix', backfill_cons_eq_ok.mpr ⟨h.holder?_eq_none_iff.mpr hno, hb⟩⟩

/-- An index can be filled exactly when the documents of the scan are separated. -/
theorem exists_backfill_empty_iff {es : List (String × Document)} (hnd : (es.map (·.1)).Nodup) :
    (∃ ix, backfill separator (empty u) es = .ok ix) ↔ Separates separator (fun k => es.lookup k) u := by
  constructor
  · rintro ⟨ix, hb⟩
    exact separates_of_backfill hnd hb
  · intro hs
    refine exists_backfill_eq_ok (tracks_empty separator u) (fun _ _ => rfl) hnd ?_
    simp only [Option.or_none]
    exact hs

end Index
end DocStore
