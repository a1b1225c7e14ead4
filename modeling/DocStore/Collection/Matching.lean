import DocStore.Collection.Basic
import DocStore.Like.Clauses
import DocStore.Query.Matching

/-!
# Matches in a collection

Three ways to select documents. A predicate selects those with an equal value at each of its paths, where a missing
field matches nothing; an index over exactly its fields answers without a scan, in the order of the index. A predicate
read as alternatives of LIKE tests always takes a scan, once the engine has taken its patterns. A bound query takes its
candidates from an index that serves one of its equality conditions, brings them into scan order and tests every condition
again.
-/

namespace DocStore

/-- Whether a document has an equal value at every path of a predicate. -/
def Document.satisfies (separator : String) (predicate d : Document) : Bool :=
  predicate.entries.all fun (path, v) =>
    match d.getPath path separator with
    | some w => w == v
    | none => false

namespace Collection

/-- A stored document with its key. -/
abbrev Entry := String × Document

/-! ## Equality -/

/-- The keys under the predicate's values in the index that serves its fields, if there is one that has a value of the
predicate for each of them. -/
def indexedKeys? (c : Collection) (predicate : Document) : Option (List String) :=
  (Index.select? predicate.names c.indexes).bind fun ix =>
    let vs := ix.names.filterMap predicate.get?
    if vs.length = predicate.names.length then some (ix.keysAt (.ofValues vs)) else none

/-- The stored document with a key, as an entry. -/
def stored? (c : Collection) (key : String) : Option Entry := (c.get? key).map (key, ·)

/-- The matches of a predicate: in the order of the index that serves its fields, else in scan order. -/
def equalMatches (c : Collection) (predicate : Document) : List Entry :=
  match c.indexedKeys? predicate with
  | some keys => keys.filterMap c.stored?
  | none => c.documents.filter fun e => predicate.satisfies c.separator e.2

/-- The keys of the matches of a predicate. -/
def equalKeys (c : Collection) (predicate : Document) : List String := (c.equalMatches predicate).map (·.1)

/-- The first match of a predicate. -/
def firstEqual? (c : Collection) (predicate : Document) : Option Entry :=
  match c.indexedKeys? predicate with
  | some keys => keys.findSome? c.stored?
  | none => c.documents.find? fun e => predicate.satisfies c.separator e.2

/-- The number of matches of a predicate. -/
def countEqual (c : Collection) (predicate : Document) : Nat :=
  match c.indexedKeys? predicate with
  | some keys => keys.length
  | none => c.documents.countP fun e => predicate.satisfies c.separator e.2

/-- The number of documents that do not match a predicate. -/
def countNotEqual (c : Collection) (predicate : Document) : Nat := c.count - c.countEqual predicate

/-! ## LIKE tests -/

/-- The documents that meet an alternative of a predicate, in scan order. -/
def likeMatches [Like.Engine] (c : Collection) (predicate : Document) : Except StoreError (List Entry) :=
  (Like.clauses predicate).map fun cs => c.documents.filter fun e => Like.matchesAny c.separator cs e.2

/-! ## Queries -/

/-- The keys that an index has for a condition: an equality with a value other than null, and an index over its field. -/
def keysFor? (c : Collection) (cond : Query.BoundCondition) : Option (List String) :=
  if cond.op = .eq ∧ cond.value.isNull = false then
    (Index.select? [cond.field] c.indexes).map fun ix => ix.keysAt (.ofValues [cond.value])
  else none

/-- The stored document with a key, with its position in the scan. -/
def positioned? (c : Collection) (key : String) : Option (Nat × Entry) :=
  (c.stored? key).map fun e => (c.documents.findIdx (·.1 == key), e)

/-- The documents with some keys, in scan order. -/
def inScanOrder (c : Collection) (keys : List String) : List Entry :=
  ((keys.filterMap c.positioned?).mergeSort fun a b => a.1 ≤ b.1).map (·.2)

/-- The documents among which a query has its answers. -/
def candidates (c : Collection) (q : Query.Bound) : List Entry :=
  match q.conditions.findSome? c.keysFor? with
  | some keys => c.inScanOrder keys
  | none => c.documents

/-- The answers of a query: candidates that meet every condition, sorted, without the skipped ones, as many as are
wanted. -/
def evaluate (c : Collection) (q : Query.Bound) : List Entry :=
  let selected := (c.candidates q).filter fun e => q.conditions.all fun cond => cond.holds c.separator e.2
  let sorted := (Query.sortEntries c.separator q.sort selected).drop q.offset
  match q.count with
  | some n => sorted.take n
  | none => sorted

/-- The bound query that a text and its parameters spell, which has to name this collection. -/
def bindQuery (c : Collection) (text : String) (params : Document) : Except StoreError Query.Bound := do
  let q ← (Query.parse text c.separator).mapError .badSyntax
  if q.collection ≠ c.name then throw (.otherCollection q.collection c.name)
  q.bind params

end Collection
end DocStore
