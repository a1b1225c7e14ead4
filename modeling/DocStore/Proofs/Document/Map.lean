import DocStore.Document.Action
import DocStore.Proofs.Document.Equality
import DocStore.Proofs.Document.Fields
import DocStore.Proofs.Json.RoundTrip

/-!
# Documents are finite maps

Entries in order are related item by item when reading the same names finds related items (`forall₂_of_rel_lookup`). So a
document is determined by what is read from it (`ext_get?`), the finite map of a document lists the same entries in the
same order (`toList_toMap`), the document of that map is the same (`ofMap_toMap`), and documents are equal in their order
exactly when they have equal values under the same names (`compare_eq_iff_get?`).
-/

namespace DocStore

variable {α β : Type} {es fs : List (String × α)} {gs : List (String × β)}

/-! ## Entries in order -/

/-- The first name among entries in order is the least one. -/
theorem SortedNames.eq_or_lt_of_lookup {m n : String} {a b : α} (h : SortedNames ((n, b) :: es))
    (ha : ((n, b) :: es).lookup m = some a) : m = n ∨ n < m := by
  obtain heq | hmem := List.mem_cons.mp ((lookup_eq_some_iff h.nodup).mp ha)
  · exact .inl (Prod.mk.inj heq).1
  · exact .inr ((List.pairwise_cons.mp h).1 _ hmem)

/-- After the first of some entries in order there is no entry with its name. -/
theorem SortedNames.lookup_tail {n : String} {b : α} (h : SortedNames ((n, b) :: es)) : es.lookup n = none :=
  lookup_eq_none fun e he heq => String.ne_of_lt ((List.pairwise_cons.mp h).1 e he) heq.symm

/-- Entries in order that have the same names start with the same one. -/
theorem SortedNames.name_eq {m n : String} {a : α} {b : β} (hes : SortedNames ((m, a) :: es))
    (hgs : SortedNames ((n, b) :: gs))
    (h : ∀ name, (((m, a) :: es).lookup name).isSome = (((n, b) :: gs).lookup name).isSome) : m = n := by
  have hm := h m
  have hn := h n
  rw [List.lookup_cons_self] at hm hn
  obtain ⟨b', hb⟩ := Option.isSome_iff_exists.mp hm.symm
  obtain ⟨a', ha⟩ := Option.isSome_iff_exists.mp hn
  rcases hgs.eq_or_lt_of_lookup hb with heq | hlt
  · exact heq
  · rcases hes.eq_or_lt_of_lookup ha with heq | hlt'
    · exact heq.symm
    · exact absurd (String.lt_trans hlt hlt') (String.lt_irrefl n)

/-- Entries in order that read alike are related item by item. -/
theorem forall₂_of_rel_lookup {R : α → β → Prop} (hes : SortedNames es) (hgs : SortedNames gs)
    (h : ∀ name, Option.Rel R (es.lookup name) (gs.lookup name)) : List.Forall₂ (Named R) es gs := by
  induction es generalizing gs with
  | nil =>
    cases gs with
    | nil => exact .nil
    | cons g gs =>
      have hfirst := h g.1
      rw [List.lookup_cons_self] at hfirst
      cases hfirst
  | cons e es ih =>
    obtain ⟨m, a⟩ := e
    have hm := h m
    rw [List.lookup_cons_self] at hm
    cases gs with
    | nil => cases hm
    | cons g gs =>
      obtain ⟨n, b⟩ := g
      obtain rfl : m = n := hes.name_eq hgs fun name => isSome_eq_of_rel (h name)
      rw [List.lookup_cons_self] at hm
      cases hm with | some hab =>
      refine .cons ⟨rfl, hab⟩ (ih (List.pairwise_cons.mp hes).2 (List.pairwise_cons.mp hgs).2 fun name => ?_)
      by_cases hnm : name = m
      · rw [hnm, hes.lookup_tail, hgs.lookup_tail]
        exact .none
      · have hname := h name
        rwa [lookup_cons_eq, lookup_cons_eq, if_neg hnm, if_neg hnm] at hname

/-- Entries in order that read the same are the same. -/
theorem SortedNames.eq_of_lookup_eq (hes : SortedNames es) (hfs : SortedNames fs)
    (h : ∀ name, es.lookup name = fs.lookup name) : es = fs := by
  have hrel (name : String) : Option.Rel Eq (es.lookup name) (fs.lookup name) := by
    rw [h name]
    cases fs.lookup name with
    | none => exact .none
    | some a => exact .some rfl
  exact List.forall₂_eq_eq_eq ▸ (forall₂_of_rel_lookup hes hfs hrel).imp fun e f hef => Prod.ext hef.1 hef.2

namespace Document

variable {d e : Document} {name : String}

/-! ## Documents -/

/-- A document is determined by what is read from it. -/
theorem ext_get? (h : ∀ name, d.get? name = e.get? name) : d = e :=
  Document.ext (d.sorted.eq_of_lookup_eq e.sorted h)

/-- Documents are equal in their order when they have equal values under the same names. -/
theorem compare_eq_iff_get? : compare d e = .eq ↔ ∀ name, Option.Rel Same (d.get? name) (e.get? name) := by
  rw [Std.LawfulBEqOrd.compare_eq_iff_beq]
  constructor
  · exact rel_get?
  · intro h
    exact same_iff.mpr (forall₂_of_rel_lookup d.sorted e.sorted h)

/-! ## Finite maps -/

theorem sortedNames_toList (m : Std.TreeMap String Value) : SortedNames m.toList :=
  m.ordered_keys_toList.imp compare_eq_lt_iff.mp

theorem lookup_toList (m : Std.TreeMap String Value) (name : String) : m.toList.lookup name = m[name]? := by
  refine Option.ext fun v => ?_
  rw [lookup_eq_some_iff (sortedNames_toList m).nodup, Std.TreeMap.mem_toList_iff_getElem?_eq_some]

theorem get?_ofMap (m : Std.TreeMap String Value) (name : String) : (ofMap m).get? name = m[name]? := by
  rw [get?, ofMap, entries_ofList (sortedNames_toList m), lookup_toList]

theorem getElem?_toMap (d : Document) (name : String) : d.toMap[name]? = d.get? name := by
  cases hget : d.get? name with
  | none =>
    have hno : (d.entries.map (·.1)).contains name = false := by
      rw [List.contains_eq_mem]
      exact decide_eq_false (lookup_eq_none_iff.mp hget)
    exact Std.TreeMap.getElem?_ofList_of_contains_eq_false hno
  | some v =>
    have hne : d.entries.Pairwise fun a b => ¬ compare a.1 b.1 = .eq := d.sorted.imp fun hlt heq => by
      rw [compare_eq_lt_iff.mpr hlt] at heq
      cases heq
    exact Std.TreeMap.getElem?_ofList_of_mem Std.ReflCmp.compare_self hne (get?_eq_some_iff.mp hget)

/-- The finite map of a document lists its entries in their order. -/
theorem toList_toMap (d : Document) : d.toMap.toList = d.entries :=
  (sortedNames_toList _).eq_of_lookup_eq d.sorted fun name => by rw [lookup_toList, getElem?_toMap, get?]

/-- The document of the finite map of a document is that document. -/
theorem ofMap_toMap (d : Document) : ofMap d.toMap = d :=
  Document.ext (by rw [ofMap, toList_toMap, entries_ofList d.sorted])

end Document
end DocStore
