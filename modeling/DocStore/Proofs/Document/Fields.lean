import DocStore.Document.Key
import Mathlib.Data.List.Nodup

/-!
# Fields of a document

What reading a field finds in named entries, in general (`lookup_eq_some_iff`) and after an entry was set
(`lookup_setEntry`), and with it in a document: `get?_eq_some_iff`, `get?_insert`. A document has a key exactly when its
key field holds a text that is not empty (`key_eq_ok_iff`).
-/

namespace DocStore

variable {α : Type} {name n : String} {a : α} {es : List (String × α)}

theorem lookup_cons_eq {m : String} {b : α} :
    ((m, b) :: es).lookup n = if n = m then some b else es.lookup n := by
  rw [List.lookup_cons]
  by_cases h : n = m
  · rw [if_pos h, h, beq_self_eq_true]
  · rw [if_neg h, beq_false_of_ne h]

theorem lookup_eq_none (h : ∀ e ∈ es, e.1 ≠ name) : es.lookup name = none :=
  List.lookup_eq_none_iff.mpr fun e he => bne_iff_ne.mpr (h e he).symm

/-- Among entries with different names, looking a name up finds the entry with that name. -/
theorem lookup_eq_some_iff (h : (es.map (·.1)).Nodup) : es.lookup name = some a ↔ (name, a) ∈ es := by
  induction es with
  | nil => simp
  | cons e es ih =>
    obtain ⟨m, b⟩ := e
    rw [List.map_cons, List.nodup_cons] at h
    rw [List.mem_cons, Prod.mk.injEq]
    by_cases hn : name = m
    · subst hn
      have hno : (name, a) ∉ es := fun hm => h.1 (List.mem_map.mpr ⟨_, hm, rfl⟩)
      rw [lookup_cons_eq, if_pos rfl, Option.some.injEq]
      constructor
      · intro hb
        exact Or.inl ⟨rfl, hb.symm⟩
      · rintro (⟨-, hb⟩ | hm)
        · exact hb.symm
        · exact absurd hm hno
    · rw [lookup_cons_eq, if_neg hn, ih h.2]
      constructor
      · exact Or.inr
      · rintro (⟨he, -⟩ | hm)
        · exact absurd he hn
        · exact hm

theorem SortedNames.nodup (h : SortedNames es) : (es.map (·.1)).Nodup :=
  List.pairwise_map.mpr (h.imp fun hlt => String.ne_of_lt hlt)

theorem lookup_setEntry : (setEntry name a es).lookup n = if n = name then some a else es.lookup n := by
  induction es with
  | nil => exact lookup_cons_eq
  | cons e es ih =>
    obtain ⟨m, b⟩ := e
    unfold setEntry
    split
    · exact lookup_cons_eq
    · next hc =>
      have hm : name = m := Std.LawfulEqOrd.eq_of_compare hc
      subst hm
      rw [lookup_cons_eq, lookup_cons_eq]
      split <;> rfl
    · next hc =>
      have hm : name ≠ m := fun he => by rw [he, Std.ReflOrd.compare_self] at hc; cases hc
      rw [lookup_cons_eq, lookup_cons_eq, ih]
      by_cases hn : n = m
      · rw [if_pos hn, if_pos hn, if_neg (fun he => hm (he.symm.trans hn))]
      · rw [if_neg hn, if_neg hn]

theorem lookup_eq_none_iff : es.lookup name = none ↔ name ∉ es.map (·.1) := by
  rw [List.lookup_eq_none_iff, List.mem_map]
  constructor
  · rintro h ⟨e, he, rfl⟩
    exact bne_iff_ne.mp (h e he) rfl
  · intro h e he
    exact bne_iff_ne.mpr fun hname => h ⟨e, he, hname.symm⟩

theorem lookup_eraseEntry : (eraseEntry name es).lookup n = if n = name then none else es.lookup n := by
  induction es with
  | nil => split <;> rfl
  | cons e es ih =>
    obtain ⟨m, b⟩ := e
    rw [eraseEntry, List.filter_cons, lookup_cons_eq]
    by_cases hm : m = name
    · subst hm
      rw [if_neg (by simp), ← eraseEntry, ih]
      by_cases hn : n = m
      · rw [if_pos hn, if_pos hn]
      · rw [if_neg hn, if_neg hn, if_neg hn]
    · rw [if_pos (bne_iff_ne.mpr hm), lookup_cons_eq, ← eraseEntry, ih]
      by_cases hn : n = m
      · rw [if_pos hn, if_pos hn, if_neg fun he => hm (hn.symm.trans he)]
      · rw [if_neg hn, if_neg hn]

namespace Document

theorem get?_eq_some_iff {d : Document} {v : Value} : d.get? name = some v ↔ (name, v) ∈ d.entries :=
  lookup_eq_some_iff d.sorted.nodup

theorem get?_insert {d : Document} {v : Value} :
    (d.insert name v).get? n = if n = name then some v else d.get? n :=
  lookup_setEntry

theorem get?_erase {d : Document} : (d.erase name).get? n = if n = name then none else d.get? n := lookup_eraseEntry

theorem nodup_names (d : Document) : d.names.Nodup := d.sorted.nodup

theorem mem_names_iff {d : Document} : name ∈ d.names ↔ ∃ v, d.get? name = some v := by
  simp only [names, get?_eq_some_iff, List.mem_map, Prod.exists, exists_and_right, exists_eq_right]

/-- The key of a document is the text in its key field, which is not empty. -/
theorem key_eq_ok_iff {d : Document} {k : String} :
    d.key = .ok k ↔ d.get? keyField = some (.string k) ∧ k ≠ "" := by
  unfold key
  split
  · next s hs =>
    rw [hs, Option.some.injEq, Value.string.injEq]
    split
    · next he =>
      constructor
      · intro h
        cases h
      · rintro ⟨rfl, hk⟩
        exact absurd he hk
    · next he =>
      constructor
      · intro h
        cases h
        exact ⟨rfl, he⟩
      · rintro ⟨rfl, -⟩
        rfl
  · next v hv hs =>
    constructor
    · intro h
      cases h
    · intro h
      rw [hs, Option.some.injEq] at h
      exact absurd h.1 (hv k)
  · next hs => simp [hs]

end Document
end DocStore
