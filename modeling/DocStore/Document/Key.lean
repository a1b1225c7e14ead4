import DocStore.Error

/-!
# Keys of documents

The text under the key field is the identity of a document in its collection. It may not be empty. Setting a field by
`put` refuses the empty name, which documents built as a whole may hold.
-/

namespace DocStore.Document

/-- The key of a document. -/
def key (d : Document) : Except StoreError String :=
  match d.get? keyField with
  | some (.string k) => if k = "" then .error .keyEmpty else .ok k
  | some _ => .error .keyNotText
  | none => .error .keyMissing

/-- The document with a field set to a value. -/
def put (d : Document) (name : String) (value : Value) : Except StoreError Document :=
  if name = "" then .error .fieldNameEmpty else .ok (d.insert name value)

end DocStore.Document
