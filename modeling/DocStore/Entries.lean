/-!
# Named entries

A finite map from names to something is kept as a list of entries in strictly increasing order of their names.
`setEntry` and `eraseEntry` keep that order (`SortedNames.setEntry`, `SortedNames.eraseEntry`), and `List.lookup` reads
the map.
-/

namespace DocStore

variable {α : Type}

/-- The names stand in strictly increasing order. -/
def SortedNames (es : List (String × α)) : Prop := es.Pairwise (·.1 < ·.1)

/-- Entries with something set under a name: in its entry, or in a new one before the first later name. -/
def setEntry (name : String) (a : α) : List (String × α) → List (String × α)
  | [] => [(name, a)]
  | (n, b) :: es =>
    match compare name n with
    | .lt => (name, a) :: (n, b) :: es
    | .eq => (name, a) :: es
    | .gt => (n, b) :: setEntry name a es

/-- Entries without those of a name. -/
def eraseEntry (name : String) (es : List (String × α)) : List (String × α) := es.filter fun e => e.1 != name

/-! ## Order -/

theorem compare_eq_lt_iff {s t : String} : compare s t = .lt ↔ s < t := compareOfLessAndEq_eq_lt

theorem lt_of_compare_eq_gt {s t : String} (h : compare s t = .gt) : t < s :=
  compare_eq_lt_iff.mp (Std.OrientedCmp.lt_of_gt h)

/-- An entry after a setting is the one that was set or was there before. -/
theorem mem_of_mem_setEntry {name : String} {a : α} {e : String × α} {es : List (String × α)}
    (h : e ∈ setEntry name a es) : e = (name, a) ∨ e ∈ es := by
  induction es with
  | nil => exact .inl (List.mem_singleton.mp h)
  | cons x es ih =>
    unfold setEntry at h
    split at h
    · exact List.mem_cons.mp h
    · exact (List.mem_cons.mp h).imp_right (List.mem_cons_of_mem x)
    · rcases List.mem_cons.mp h with rfl | h
      · exact .inr (List.mem_cons_self ..)
      · exact (ih h).imp_right (List.mem_cons_of_mem x)

/-- Setting an entry keeps the names in order. -/
theorem SortedNames.setEntry {name : String} {a : α} {es : List (String × α)} (h : SortedNames es) :
    SortedNames (setEntry name a es) := by
  induction es with
  | nil => exact List.pairwise_singleton ..
  | cons x es ih =>
    obtain ⟨hx, hes⟩ := List.pairwise_cons.mp h
    unfold DocStore.setEntry
    split
    · next hc =>
      have hlt := compare_eq_lt_iff.mp hc
      refine List.pairwise_cons.mpr ⟨fun y hy => ?_, h⟩
      rcases List.mem_cons.mp hy with rfl | hy
      · exact hlt
      · exact String.lt_trans hlt (hx y hy)
    · next hc =>
      refine List.pairwise_cons.mpr ⟨fun y hy => ?_, hes⟩
      have heq : name = x.1 := Std.LawfulEqOrd.eq_of_compare hc
      exact heq ▸ hx y hy
    · next hc =>
      refine List.pairwise_cons.mpr ⟨fun y hy => ?_, ih hes⟩
      rcases mem_of_mem_setEntry hy with rfl | hy
      · exact lt_of_compare_eq_gt hc
      · exact hx y hy

/-- Erasing entries keeps the names in order. -/
theorem SortedNames.eraseEntry {name : String} {es : List (String × α)} (h : SortedNames es) :
    SortedNames (eraseEntry name es) :=
  h.filter _

end DocStore
