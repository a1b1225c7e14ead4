import DocStore.Document.Path
import DocStore.Query.Binding

/-!
# Matching and sorting documents

A condition compares the value at its path with its own value, and a missing field as null. Sort keys compare documents
key by key; there a missing field comes before every value, null included, when ascending.
-/

namespace DocStore.Query

/-- Whether a document meets a condition. -/
def BoundCondition.holds (separator : String) (c : BoundCondition) (d : Document) : Bool :=
  c.op.test (compare (Value.ofOption (d.getPath c.field separator)) c.value)

/-- The order of two documents under one sort key. -/
def keyOrder (separator : String) (k : SortKey) (a b : Document) : Ordering :=
  k.order.apply (compare (a.getPath k.field separator) (b.getPath k.field separator))

/-- The order of two documents under sort keys, the first one that tells them apart deciding. -/
def sortOrder (separator : String) : List SortKey → Document → Document → Ordering
  | [], _, _ => .eq
  | k :: ks, a, b => (keyOrder separator k a b).then (sortOrder separator ks a b)

/-- Entries sorted by their documents; entries that the sort keys do not tell apart keep their order. -/
def sortEntries (separator : String) (ks : List SortKey) (es : List (String × Document)) : List (String × Document) :=
  es.mergeSort fun a b => (sortOrder separator ks a.2 b.2).isLE

end DocStore.Query
