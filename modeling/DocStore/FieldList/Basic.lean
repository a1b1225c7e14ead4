/-!
# Field lists

The names of the fields that an index covers: at least one, none of them empty. Order and repetition count, so the same
names in another order are another list; `sameSet` is the comparison that ignores order.
-/

namespace DocStore

/-- An ordered, non-empty list of non-empty field names. -/
@[ext]
structure FieldList where
  names : List String
  names_ne_nil : names ≠ []
  ne_empty_of_mem : ∀ n ∈ names, n ≠ ""
  deriving DecidableEq

namespace FieldList

/-- The number of names. -/
def length (f : FieldList) : Nat := f.names.length

/-- Whether the list has more than one name. -/
def isCompound (f : FieldList) : Bool := 1 < f.length

/-- The names joined by bars. -/
def encoded (f : FieldList) : String := "|".intercalate f.names

/-- The names between brackets. -/
def text (f : FieldList) : String := "[" ++ ", ".intercalate f.names ++ "]"

instance : ToString FieldList := ⟨text⟩

/-- Field lists are ordered name by name, a proper prefix first. -/
instance : Ord FieldList := ⟨compareOn names⟩

/-- Whether two lists, both free of repetition, have the same names. -/
def sameSet (f : FieldList) (names : List String) : Bool :=
  f.names.Nodup && names.Nodup && f.names.all (names.contains ·) && names.all (f.names.contains ·)

end FieldList
end DocStore
