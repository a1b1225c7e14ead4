import DocStore.Index.Tuple

/-!
# Indexes

An index keeps, for every tuple that a stored document has, the keys of the documents with that tuple. Tuples stand in
increasing order, each with at least one key; the keys of one tuple stand in the order in which they came under it. Equal
tuples are one tuple, which keeps the form it had when it first came.
-/

namespace DocStore

/-- What an index is over: the fields of a collection, and whether two documents may share a tuple. -/
structure IndexDescriptor where
  fields : FieldList
  unique : Bool
  collection : String
  deriving DecidableEq

/-- A descriptor as messages show it. -/
def IndexDescriptor.text (d : IndexDescriptor) : String :=
  (if d.unique then "unique" else "non-unique") ++ " index " ++ d.fields.text ++ " on " ++ d.collection

/-- Keys of documents by tuple. -/
structure Index where
  descriptor : IndexDescriptor
  entries : List (Index.Tuple × List String)

namespace Index

/-! ## Entries -/

/-- The keys under a tuple. -/
def keysIn (t : Tuple) : List (Tuple × List String) → List String
  | [] => []
  | (u, ks) :: es => if u == t then ks else keysIn t es

/-- A key set after a key came in: at the end, unless it is there. -/
def addKey (key : String) (ks : List String) : List String := if key ∈ ks then ks else ks ++ [key]

/-- Entries after a key came under a tuple. -/
def addEntry (t : Tuple) (key : String) : List (Tuple × List String) → List (Tuple × List String)
  | [] => [(t, [key])]
  | (u, ks) :: es =>
    match compare t u with
    | .lt => (t, [key]) :: (u, ks) :: es
    | .eq => (u, addKey key ks) :: es
    | .gt => (u, ks) :: addEntry t key es

/-- Entries after a key left a tuple; a tuple without keys goes with it. -/
def dropEntry (t : Tuple) (key : String) : List (Tuple × List String) → List (Tuple × List String)
  | [] => []
  | (u, ks) :: es =>
    if u == t then
      if ks.erase key = [] then es else (u, ks.erase key) :: es
    else (u, ks) :: dropEntry t key es

/-! ## Operations -/

/-- The index over no documents. -/
def empty (d : IndexDescriptor) : Index := ⟨d, []⟩

/-- The names of the indexed fields. -/
def names (ix : Index) : List String := ix.descriptor.fields.names

/-- The tuple under which an index keeps a document. -/
def tupleOf (ix : Index) (separator : String) (d : Document) : Tuple :=
  .ofDocument separator ix.descriptor.fields d

/-- The keys under a tuple, in the order in which they came under it. -/
def keysAt (ix : Index) (t : Tuple) : List String := keysIn t ix.entries

/-- The index after a key came under a tuple. -/
def insert (ix : Index) (t : Tuple) (key : String) : Index := { ix with entries := addEntry t key ix.entries }

/-- The index after a key left a tuple. -/
def erase (ix : Index) (t : Tuple) (key : String) : Index := { ix with entries := dropEntry t key ix.entries }

/-- In a unique index, the other key that holds a tuple. -/
def holder? (ix : Index) (t : Tuple) (key : String) : Option String :=
  if ix.descriptor.unique then (ix.keysAt t).find? (· != key) else none

/-- The index after a document was written under a key, in place of an old one if there was one. A key whose tuple stays
equal keeps its place. -/
def write (ix : Index) (separator key : String) (old? : Option Document) (new : Document) : Index :=
  let t := ix.tupleOf separator new
  match old? with
  | none => ix.insert t key
  | some old =>
    let s := ix.tupleOf separator old
    if s == t then ix else (ix.erase s key).insert t key

/-- The index after a document was removed. -/
def remove (ix : Index) (separator key : String) (old : Document) : Index :=
  ix.erase (ix.tupleOf separator old) key

end Index
end DocStore
