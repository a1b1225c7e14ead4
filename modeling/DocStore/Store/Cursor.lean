import DocStore.Collection.Iteration
import DocStore.Store.Basic

/-!
# Cursors

A cursor is an iteration that goes on step by step while the store changes in between. One over the matches of a
predicate holds the keys that are left and looks up each document when its turn comes, in the cell where it began, so it
goes on after its collection was dropped. One over a scan holds the documents themselves, which no later write changes.
-/

namespace DocStore

/-- What is left of an iteration. -/
inductive Cursor where
  /-- The keys that are left of the matches of a predicate. -/
  | keys (h : Handle) (left : List String)
  /-- The documents that are left of a scan. -/
  | snapshot (left : List Document)

namespace Cursor

/-- The iteration over the matches of a predicate. -/
def ofEqual (s : Store) (h : Handle) (predicate : Document) : Cursor := .keys h ((s.cell h).equalKeys predicate)

/-- The iteration over all documents in scan order. -/
def ofScan (s : Store) (h : Handle) : Cursor := .snapshot (s.cell h).scan

/-- The next document, if one is left, and what is left after it. -/
def next (s : Store) : Cursor → Option Document × Cursor
  | .keys h left => ((s.cell h).nextOf left).map id (.keys h)
  | .snapshot left => (left.head?, .snapshot left.tail)

/-- The next documents up to a number of them, and what is left after them. -/
def take (s : Store) : Nat → Cursor → List Document × Cursor
  | 0, c => ([], c)
  | n + 1, c =>
    match c.next s with
    | (some d, c) => (take s n c).map (d :: ·) id
    | (none, c) => ([], c)

/-- The least and the greatest number of documents that may still come. -/
def bounds : Cursor → Nat × Nat
  | .keys _ left => (0, left.length)
  | .snapshot left => (left.length, left.length)

end Cursor
end DocStore
