import DocStore.Config
import DocStore.Document.Key
import DocStore.FieldList.OfNames
import DocStore.Index.Registry
import DocStore.Text.Escaped

/-!
# Collections

A collection holds documents by key, in the order in which their keys first came in, together with its indexes in the
order of their creation. A document written under a stored key takes the place of the old one. The collection also
remembers the last timestamp it gave.
-/

namespace DocStore

/-- Documents by key in scan order, with their indexes. -/
structure Collection where
  name : String
  config : Config
  documents : List (String × Document)
  indexes : List Index
  lastStamp : Int64

namespace Collection

/-- The collection without documents and indexes. -/
def empty (name : String) (config : Config) : Collection := ⟨name, config, [], [], Int64.minValue⟩

/-- The separator of field paths. -/
def separator (c : Collection) : String := c.config.separator

/-! ## Reading by key -/

/-- The document with a key. -/
def get? (c : Collection) (key : String) : Option Document := c.documents.lookup key

/-- The document with a key, which is to be there. -/
def get (c : Collection) (key : String) : Except StoreError Document :=
  match c.get? key with
  | some d => .ok d
  | none => .error (.documentNotFound key c.name)

/-- Whether a document has a key. -/
def contains (c : Collection) (key : String) : Bool := (c.get? key).isSome

/-- The number of documents. -/
def count (c : Collection) : Nat := c.documents.length

/-- Whether there are no documents. -/
def isEmpty (c : Collection) : Bool := c.count == 0

/-- Every document in scan order. -/
def scan (c : Collection) : List Document := c.documents.map (·.2)

/-- The diagnostic text of a collection. -/
def text (c : Collection) : String := "Collection \x7b name: " ++ Text.escaped c.name ++ " \x7d"

/-! ## Indexes -/

/-- The collection after an index was created and filled. -/
def addIndex (c : Collection) (names : List String) (unique : Bool) : Except StoreError Unit × Collection :=
  match FieldList.ofNames names with
  | .error e => (.error e, c)
  | .ok fields =>
    match Index.create c.separator c.documents ⟨fields, unique, c.name⟩ c.indexes with
    | .error e => (.error e, c)
    | .ok ixs => (.ok (), { c with indexes := ixs })

/-- The collection after an index was dropped. -/
def removeIndex (c : Collection) (names : List String) : Except StoreError Unit × Collection :=
  match FieldList.ofNames names with
  | .error e => (.error e, c)
  | .ok fields =>
    match Index.drop fields c.indexes with
    | .error e => (.error e, c)
    | .ok ixs => (.ok (), { c with indexes := ixs })

/-- Whether there is an index over exactly these names. -/
def hasIndex (c : Collection) (names : List String) : Bool :=
  match FieldList.ofNames names with
  | .ok fields => (Index.find? fields c.indexes).isSome
  | .error _ => false

/-- What the indexes are over, in the order of their creation. -/
def listIndexes (c : Collection) : List IndexDescriptor := c.indexes.map (·.descriptor)

/-- The keys of the documents with some values in the fields of an index. -/
def lookupEqual (c : Collection) (names : List String) (vs : List Value) : Except StoreError (List String) := do
  Index.lookup (← FieldList.ofNames names) vs c.indexes

end Collection
end DocStore
