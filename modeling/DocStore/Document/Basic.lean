import DocStore.Entries
import DocStore.Value.Order
import DocStore.Value.Printer

/-!
# Documents

A document is a finite map from field names to values, kept as the list of its entries in strictly increasing order of
their names. The order is a part of the type, so a document is determined by what `get?` finds in it, however it was
built.
-/

namespace DocStore

/-- Named values in strictly increasing order of their names. -/
@[ext]
structure Document where
  entries : List (String × Value)
  sorted : SortedNames entries

namespace Document

/-! ## Documents as maps -/

/-- The document without entries. -/
def empty : Document := ⟨[], .nil⟩

instance : Inhabited Document := ⟨empty⟩

/-- Whether a document has no entries. -/
def isEmpty (d : Document) : Bool := d.entries.isEmpty

/-- The number of entries. -/
def size (d : Document) : Nat := d.entries.length

/-- The value of a top-level field. -/
def get? (d : Document) (name : String) : Option Value := d.entries.lookup name

/-- Whether a top-level field is there. -/
def contains (d : Document) (name : String) : Bool := (d.get? name).isSome

/-- The document with a top-level field set to a value. -/
def insert (d : Document) (name : String) (value : Value) : Document :=
  ⟨setEntry name value d.entries, d.sorted.setEntry⟩

/-- The document without a top-level field. -/
def erase (d : Document) (name : String) : Document :=
  ⟨eraseEntry name d.entries, d.sorted.eraseEntry⟩

/-- The names of the top-level fields in increasing order. -/
def names (d : Document) : List String := d.entries.map (·.1)

/-- The document of a list of entries, where the last entry of a name counts. -/
def ofList (es : List (String × Value)) : Document := es.foldl (fun d e => d.insert e.1 e.2) empty

/-! ## Documents as values -/

/-- A document as the value of a field. -/
def toValue (d : Document) : Value := .document d.entries

/-- The JSON text of a document. -/
def text (d : Document) : String := d.toValue.text

instance : ToString Document := ⟨text⟩

/-- Documents are ordered as values. -/
instance : Ord Document := ⟨compareOn toValue⟩

/-- Documents are equal when they have the same names with equal values. -/
instance : BEq Document := ⟨fun d e => (compare d e).isEq⟩

end Document

/-- The inner document, if a value is one. -/
def Value.document? (v : Value) : Option Document := v.entries?.map Document.ofList

end DocStore
