import DocStore.Collection.Matching

/-!
# Writing documents

Every write keeps the indexes in step with the documents. A write that fails leaves the collection as it was: a document
is checked against all unique indexes before any of them changes, and the timestamp is remembered only with the document
that carries it.
-/

namespace DocStore

/-- Entries with a document written under a key: in place of the old one, or at the end. -/
def writeEntry (key : String) (d : Document) : List (String × Document) → List (String × Document)
  | [] => [(key, d)]
  | (k, e) :: es => if k = key then (key, d) :: es else (k, e) :: writeEntry key d es

/-- Entries without that of a key. -/
def removeEntry (key : String) (es : List (String × Document)) : List (String × Document) :=
  es.eraseP (·.1 == key)

namespace Collection

/-! ## Single documents -/

/-- The collection with a document under a key, whatever the unique indexes say. -/
def write (c : Collection) (key : String) (d : Document) : Collection :=
  { c with
    documents := writeEntry key d c.documents
    indexes := c.indexes.map (·.write c.separator key (c.get? key) d) }

/-- The document with a key and the collection without it. -/
def remove (c : Collection) (key : String) : Option Document × Collection :=
  match c.get? key with
  | none => (none, c)
  | some d =>
    (some d, { c with
      documents := removeEntry key c.documents
      indexes := c.indexes.map (·.remove c.separator key d) })

/-- The timestamp for a write at some time: never before the last one. -/
def stampAt (c : Collection) (now : Int64) : Int64 := max now c.lastStamp

/-- The document as it is stored at some time. -/
def stamped (c : Collection) (now : Int64) (d : Document) : Document :=
  match c.config.timestampField with
  | some field => d.insert field (.int (c.stampAt now))
  | none => d

/-- The collection that remembers the timestamp of a write at some time. -/
def advance (c : Collection) (now : Int64) : Collection :=
  match c.config.timestampField with
  | some _ => { c with lastStamp := c.stampAt now }
  | none => c

/-- The document is stored under its key, in place of the one that had the key. -/
def upsert (c : Collection) (now : Int64) (d : Document) : Except StoreError Document × Collection :=
  match d.key with
  | .error e => (.error e, c)
  | .ok key =>
    match Index.checkWrite c.separator key (c.stamped now d) c.indexes with
    | .error e => (.error e, c)
    | .ok () => (.ok (c.stamped now d), (c.advance now).write key (c.stamped now d))

/-- The document with a key is removed. -/
def delete (c : Collection) (key : String) : Except StoreError Document × Collection :=
  match c.remove key with
  | (some d, c) => (.ok d, c)
  | (none, c) => (.error (.documentNotFound key c.name), c)

/-! ## Many documents -/

/-- The documents with some keys and the collection without them. -/
def removeKeys (c : Collection) : List String → List Document × Collection
  | [] => ([], c)
  | key :: keys =>
    let (d?, c) := c.remove key
    let (ds, c) := c.removeKeys keys
    (d?.toList ++ ds, c)

/-- The answers of a query are removed. -/
def removeQuery (c : Collection) (text : String) (params : Document) : Except StoreError (List Document) × Collection :=
  match c.bindQuery text params with
  | .error e => (.error e, c)
  | .ok q =>
    let (ds, c) := c.removeKeys ((c.evaluate q).map (·.1))
    (.ok ds, c)

/-- The matches of a predicate are removed. -/
def removeEqual (c : Collection) (predicate : Document) : List Document × Collection :=
  c.removeKeys (c.equalKeys predicate)

/-- The first match of a predicate is removed, by the key that the document itself holds. -/
def removeOneEqual (c : Collection) (predicate : Document) : Except StoreError Document × Collection :=
  match (c.firstEqual? predicate).bind fun e => e.2.key.toOption with
  | none => (.error (.noMatch c.name predicate), c)
  | some key =>
    match c.remove key with
    | (some d, c) => (.ok d, c)
    | (none, c) => (.error (.noMatch c.name predicate), c)

end Collection
end DocStore
