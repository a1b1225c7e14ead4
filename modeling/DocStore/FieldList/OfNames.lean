import DocStore.Error

/-!
# Field lists from names

`FieldList.ofNames` refuses the empty list and lists with an empty name, the missing names first, and takes every other
list as it is.
-/

namespace DocStore.FieldList

/-- The field list of some names. -/
def ofNames (names : List String) : Except StoreError FieldList :=
  if h : names = [] then .error .fieldListEmpty
  else if h' : "" ∈ names then .error .fieldListName
  else .ok ⟨names, h, fun _ hn he => h' (he ▸ hn)⟩

/-- The names of a field list are the given ones. -/
theorem names_of_ofNames {names : List String} {f : FieldList} (h : ofNames names = .ok f) : f.names = names := by
  unfold ofNames at h
  split at h
  · cases h
  · split at h <;> cases h
    rfl

/-- A field list comes from its own names. -/
theorem ofNames_names (f : FieldList) : ofNames f.names = .ok f := by
  unfold ofNames
  rw [dif_neg f.names_ne_nil, dif_neg fun h => f.ne_empty_of_mem "" h rfl]

end DocStore.FieldList
