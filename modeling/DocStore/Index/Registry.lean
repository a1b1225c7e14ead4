import DocStore.Error
import DocStore.Index.Basic

/-!
# The indexes of a collection

The indexes of one collection stand in the order of their creation, at most one for every field list. `select?` finds the
index that serves a set of fields: one over the same names in the same order wherever it stands, else the earliest one
over the same names in another order.
-/

namespace DocStore.Index

/-! ## Finding indexes -/

/-- The index over exactly a field list. -/
def find? (fields : FieldList) (ixs : List Index) : Option Index :=
  ixs.find? fun ix => ix.descriptor.fields == fields

/-- The index that serves a set of fields. -/
def select? (names : List String) (ixs : List Index) : Option Index :=
  match ixs.find? fun ix => ix.names == names with
  | some ix => some ix
  | none => ixs.find? fun ix => ix.descriptor.fields.sameSet names

/-! ## Creating and dropping indexes -/

/-- An index after the stored documents came in, in scan order; a unique index refuses the first document that shares
its tuple with an earlier one. -/
def backfill (separator : String) (ix : Index) : List (String × Document) → Except StoreError Index
  | [] => .ok ix
  | (key, d) :: rest =>
    let t := ix.tupleOf separator d
    match ix.holder? t key with
    | some first => .error (.tupleShared ix.descriptor.fields first key)
    | none => backfill separator (ix.insert t key) rest

/-- The indexes after one more was created. To create an index again changes nothing. -/
def create (separator : String) (documents : List (String × Document)) (d : IndexDescriptor) (ixs : List Index) :
    Except StoreError (List Index) :=
  match find? d.fields ixs with
  | some ix => if ix.descriptor.unique = d.unique then .ok ixs else .error (.indexDiffers d.fields)
  | none => (backfill separator (.empty d) documents).map fun ix => ixs ++ [ix]

/-- The indexes after the one over a field list was dropped. -/
def drop (fields : FieldList) (ixs : List Index) : Except StoreError (List Index) :=
  match find? fields ixs with
  | some _ => .ok (ixs.filter fun ix => ix.descriptor.fields != fields)
  | none => .error (.indexMissing fields)

/-- The keys of the documents with some values in the fields of an index. -/
def lookup (fields : FieldList) (vs : List Value) (ixs : List Index) : Except StoreError (List String) :=
  match find? fields ixs with
  | none => .error (.indexMissing fields)
  | some ix => if vs.length = fields.length then .ok (ix.keysAt (.ofValues vs)) else .error (.valueCount fields)

/-! ## Writing documents -/

/-- Refuses to write a document under a key when another key holds its tuple in a unique index. -/
def checkWrite (separator key : String) (d : Document) : List Index → Except StoreError Unit
  | [] => .ok ()
  | ix :: ixs =>
    match ix.holder? (ix.tupleOf separator d) key with
    | some holder => .error (.tupleTaken ix.descriptor.fields holder)
    | none => checkWrite separator key d ixs

end DocStore.Index
