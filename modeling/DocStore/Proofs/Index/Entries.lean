import DocStore.Index.Basic
import DocStore.Proofs.Index.Tuple
import Mathlib.Data.List.Nodup

/-!
# The entries of an index as a map

Entries are `Ordered` when their tuples strictly increase and every tuple has keys, each once. In ordered entries the keys
under a tuple are a function of the tuple up to equality: `keysIn_addEntry` and `keysIn_dropEntry` say what becomes of it
when a key comes under a tuple or leaves one, and `Ordered.addEntry` and `Ordered.dropEntry` that entries stay ordered.
`keysIn_of_mem` and `mem_keysIn_iff` go from the map to the entries and back.
-/

namespace DocStore.Index

/-- Tuples in strictly increasing order, each with keys, and each of these once. -/
structure Ordered (es : List (Tuple × List String)) : Prop where
  increasing : es.Pairwise fun e f => compare e.1 f.1 = .lt
  keys : ∀ e ∈ es, e.2 ≠ [] ∧ e.2.Nodup

variable {t u : Tuple} {k key : String} {es : List (Tuple × List String)}

theorem Ordered.nil : Ordered [] where
  increasing := .nil
  keys := by simp

theorem ordered_cons {e : Tuple × List String} :
    Ordered (e :: es) ↔ ((∀ f ∈ es, compare e.1 f.1 = .lt) ∧ e.2 ≠ [] ∧ e.2.Nodup) ∧ Ordered es := by
  constructor
  · rintro ⟨hi, hk⟩
    obtain ⟨he, hi⟩ := List.pairwise_cons.mp hi
    obtain ⟨hke, hk⟩ := List.forall_mem_cons.mp hk
    exact ⟨⟨he, hke⟩, hi, hk⟩
  · rintro ⟨⟨he, hke⟩, hi, hk⟩
    exact ⟨List.pairwise_cons.mpr ⟨he, hi⟩, List.forall_mem_cons.mpr ⟨hke, hk⟩⟩

/-! ## Key sets -/

theorem mem_addKey {ks : List String} : k ∈ addKey key ks ↔ k = key ∨ k ∈ ks := by
  unfold addKey
  split
  · next h =>
    constructor
    · exact Or.inr
    · rintro (rfl | hk)
      · exact h
      · exact hk
  · rw [List.mem_append, List.mem_singleton, or_comm]

theorem nodup_addKey {ks : List String} (h : ks.Nodup) : (addKey key ks).Nodup := by
  unfold addKey
  split
  · exact h
  · next hk =>
    rw [← List.concat_eq_append]
    exact List.Nodup.concat hk h

theorem addKey_ne_nil {ks : List String} : addKey key ks ≠ [] :=
  List.ne_nil_of_mem (mem_addKey.mpr (Or.inl rfl))

/-! ## Keys under a tuple -/

/-- Tuples of which one is lower are not equal. -/
theorem beq_eq_false_of_lt (h : compare t u = .lt) : (t == u) = false ∧ (u == t) = false := by
  have hu : compare u t = .gt := Std.OrientedCmp.gt_of_lt h
  constructor
  · show (compare t u).isEq = false
    rw [h]; rfl
  · show (compare u t).isEq = false
    rw [hu]; rfl

theorem keysIn_eq_nil (h : ∀ e ∈ es, compare t e.1 = .lt) : keysIn t es = [] := by
  induction es with
  | nil => rfl
  | cons e es ih =>
    obtain ⟨he, h⟩ := List.forall_mem_cons.mp h
    rw [keysIn, (beq_eq_false_of_lt he).2, ih h]
    rfl

theorem keysIn_congr (h : (t == u) = true) : keysIn t es = keysIn u es := by
  induction es with
  | nil => rfl
  | cons e es ih => rw [keysIn, keysIn, BEq.congr_right h, ih]

/-- Without a first entry the keys under all tuples but that of the entry stay as they are. -/
theorem keysIn_tail {e : Tuple × List String} (h : Ordered (e :: es)) (t : Tuple) :
    keysIn t es = if e.1 == t then [] else keysIn t (e :: es) := by
  obtain ⟨⟨hlt, -⟩, -⟩ := ordered_cons.mp h
  rw [keysIn]
  split
  · next ht => rw [← keysIn_congr ht, keysIn_eq_nil hlt]
  · rfl

theorem keysIn_head {e : Tuple × List String} : keysIn e.1 (e :: es) = e.2 := by
  rw [keysIn, BEq.rfl, if_pos rfl]

/-- Keys under a tuple after a key came under one. -/
theorem keysIn_addEntry (h : Ordered es) :
    keysIn u (addEntry t key es) = if t == u then addKey key (keysIn u es) else keysIn u es := by
  induction es with
  | nil => rfl
  | cons e es ih =>
    obtain ⟨v, ks⟩ := e
    obtain ⟨⟨hlt, -⟩, h⟩ := ordered_cons.mp h
    unfold addEntry
    split
    · next htv =>
      rw [keysIn]
      by_cases htu : (t == u) = true
      · have hnil : keysIn t ((v, ks) :: es) = [] :=
          keysIn_eq_nil (List.forall_mem_cons.mpr ⟨htv, fun f hf => Std.TransCmp.lt_trans htv (hlt f hf)⟩)
        rw [if_pos htu, if_pos htu, ← keysIn_congr htu, hnil]
        rfl
      · rw [if_neg htu, if_neg htu]
    · next htv =>
      have hvu : (t == u) = (v == u) := BEq.congr_left (Std.LawfulBEqOrd.compare_eq_iff_beq.mp htv)
      rw [keysIn, keysIn, hvu]
      split <;> rfl
    · next htv =>
      rw [keysIn, keysIn, ih h]
      by_cases hvu : (v == u) = true
      · have htu : (t == u) = false := by
          rw [← BEq.congr_right hvu]
          exact (beq_eq_false_of_lt (Std.OrientedCmp.lt_of_gt htv)).2
        rw [if_pos hvu, htu, if_neg Bool.false_ne_true, if_pos hvu]
      · rw [if_neg hvu, if_neg hvu]

/-- Keys under a tuple after a key left one. -/
theorem keysIn_dropEntry (h : Ordered es) :
    keysIn u (dropEntry t key es) = if t == u then (keysIn u es).erase key else keysIn u es := by
  induction es with
  | nil => split <;> rfl
  | cons e es ih =>
    obtain ⟨v, ks⟩ := e
    obtain ⟨⟨hlt, -⟩, h⟩ := ordered_cons.mp h
    unfold dropEntry
    by_cases hvt : (v == t) = true
    · have hvu : (t == u) = (v == u) := (BEq.congr_left hvt).symm
      rw [if_pos hvt, hvu]
      split
      · next hks =>
        rw [keysIn]
        by_cases hu : (v == u) = true
        · rw [if_pos hu, if_pos hu, hks, ← keysIn_congr hu, keysIn_eq_nil hlt]
        · rw [if_neg hu, if_neg hu]
      · rw [keysIn, keysIn]
        split <;> rfl
    · rw [if_neg hvt, keysIn, keysIn, ih h]
      by_cases hvu : (v == u) = true
      · have htu : (t == u) = false := by
          rw [← BEq.congr_right hvu, BEq.comm]
          exact eq_false_of_ne_true hvt
        rw [if_pos hvu, htu, if_neg Bool.false_ne_true, if_pos hvu]
      · rw [if_neg hvu, if_neg hvu]

/-! ## Ordered entries stay ordered -/

/-- What lies below all entries and a tuple lies below all entries after a key came under the tuple. -/
theorem lt_addEntry {s : Tuple} (h : ∀ e ∈ es, compare s e.1 = .lt) (ht : compare s t = .lt) :
    ∀ e ∈ addEntry t key es, compare s e.1 = .lt := by
  induction es with
  | nil => exact List.forall_mem_singleton.mpr ht
  | cons e es ih =>
    obtain ⟨v, ks⟩ := e
    obtain ⟨hv, h⟩ := List.forall_mem_cons.mp h
    unfold addEntry
    split
    · exact List.forall_mem_cons.mpr ⟨ht, List.forall_mem_cons.mpr ⟨hv, h⟩⟩
    · exact List.forall_mem_cons.mpr ⟨hv, h⟩
    · exact List.forall_mem_cons.mpr ⟨hv, ih h⟩

theorem Ordered.addEntry (h : Ordered es) : Ordered (addEntry t key es) := by
  induction es with
  | nil =>
    have hlt : ∀ e ∈ ([] : List (Tuple × List String)), compare t e.1 = .lt := by simp
    exact ordered_cons.mpr ⟨⟨hlt, List.cons_ne_nil _ _, List.nodup_singleton key⟩, .nil⟩
  | cons e es ih =>
    obtain ⟨v, ks⟩ := e
    obtain ⟨⟨hlt, hne, hnd⟩, hes⟩ := ordered_cons.mp h
    unfold Index.addEntry
    split
    · next htv =>
      refine ordered_cons.mpr ⟨⟨?_, List.cons_ne_nil _ _, List.nodup_singleton key⟩, h⟩
      exact List.forall_mem_cons.mpr ⟨htv, fun f hf => Std.TransCmp.lt_trans htv (hlt f hf)⟩
    · exact ordered_cons.mpr ⟨⟨hlt, addKey_ne_nil, nodup_addKey hnd⟩, hes⟩
    · next htv => exact ordered_cons.mpr ⟨⟨lt_addEntry hlt (Std.OrientedCmp.lt_of_gt htv), hne, hnd⟩, ih hes⟩

theorem lt_dropEntry {s : Tuple} (h : ∀ e ∈ es, compare s e.1 = .lt) :
    ∀ e ∈ dropEntry t key es, compare s e.1 = .lt := by
  induction es with
  | nil => exact h
  | cons e es ih =>
    obtain ⟨v, ks⟩ := e
    obtain ⟨hv, h⟩ := List.forall_mem_cons.mp h
    unfold dropEntry
    split
    · split
      · exact h
      · exact List.forall_mem_cons.mpr ⟨hv, h⟩
    · exact List.forall_mem_cons.mpr ⟨hv, ih h⟩

theorem Ordered.dropEntry (h : Ordered es) : Ordered (dropEntry t key es) := by
  induction es with
  | nil => exact h
  | cons e es ih =>
    obtain ⟨v, ks⟩ := e
    obtain ⟨⟨hlt, hne, hnd⟩, hes⟩ := ordered_cons.mp h
    unfold Index.dropEntry
    split
    · split
      · exact hes
      · next hks => exact ordered_cons.mpr ⟨⟨hlt, hks, hnd.erase key⟩, hes⟩
    · exact ordered_cons.mpr ⟨⟨lt_dropEntry hlt, hne, hnd⟩, ih hes⟩

/-! ## Entries and keys -/

/-- The keys of an entry are those under its tuple. -/
theorem keysIn_of_mem (h : Ordered es) {e : Tuple × List String} (he : e ∈ es) (ht : (t == e.1) = true) :
    keysIn t es = e.2 := by
  induction es with
  | nil => cases he
  | cons f es ih =>
    obtain ⟨⟨hlt, -⟩, h⟩ := ordered_cons.mp h
    rw [keysIn]
    rcases List.mem_cons.mp he with rfl | he
    · rw [if_pos (BEq.symm ht)]
    · rw [BEq.congr_right ht, (beq_eq_false_of_lt (hlt e he)).1, if_neg Bool.false_ne_true, ih h he]

/-- A key is under a tuple when it is in an entry of an equal tuple. -/
theorem mem_keysIn_iff (h : Ordered es) : k ∈ keysIn t es ↔ ∃ e ∈ es, (e.1 == t) = true ∧ k ∈ e.2 := by
  constructor
  · intro hk
    induction es with
    | nil => cases hk
    | cons f es ih =>
      rw [keysIn] at hk
      split at hk
      · next hf => exact ⟨f, List.mem_cons_self, hf, hk⟩
      · obtain ⟨e, he, hek⟩ := ih (ordered_cons.mp h).2 hk
        exact ⟨e, List.mem_cons_of_mem f he, hek⟩
  · rintro ⟨e, he, het, hk⟩
    rw [keysIn_of_mem h he (BEq.symm het)]
    exact hk

theorem nodup_keysIn (h : Ordered es) (t : Tuple) : (keysIn t es).Nodup := by
  induction es with
  | nil => exact List.nodup_nil
  | cons e es ih =>
    obtain ⟨⟨-, -, hnd⟩, h⟩ := ordered_cons.mp h
    rw [keysIn]
    split
    · exact hnd
    · exact ih h

end DocStore.Index
