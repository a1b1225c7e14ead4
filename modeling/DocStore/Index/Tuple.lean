import DocStore.Document.Path
import DocStore.FieldList.Basic

/-!
# Index tuples

A document stands in an index under the tuple of its values at the indexed paths. A missing field is a component of its
own, different from null and lower than every value. Tuples are ordered component by component, a proper prefix first.
-/

namespace DocStore.Index

/-- The values of the indexed fields, none where a field is missing. -/
structure Tuple where
  components : List (Option Value)

namespace Tuple

/-- The tuple of a document. -/
def ofDocument (separator : String) (fields : FieldList) (d : Document) : Tuple :=
  ⟨fields.names.map fun path => d.getPath path separator⟩

/-- The tuple of some values. -/
def ofValues (vs : List Value) : Tuple := ⟨vs.map some⟩

/-- Tuples are ordered component by component. -/
instance : Ord Tuple := ⟨compareOn components⟩

/-- Tuples are equal when neither comes before the other. -/
instance : BEq Tuple := ⟨fun s t => (compare s t).isEq⟩

/-- A component in the diagnostic text. -/
def componentText : Option Value → String
  | none => "Missing"
  | some v => "Present(" ++ v.typedText ++ ")"

/-- The diagnostic text of a tuple. -/
def text (t : Tuple) : String := "IndexKey([" ++ ", ".intercalate (t.components.map componentText) ++ "])"

end Tuple
end DocStore.Index
