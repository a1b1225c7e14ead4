import DocStore.Collection.Matching

/-!
# Iteration

Iteration over the matches of a predicate takes note of their keys when it starts, and looks up each document only when
its turn comes. So it sees writes made in between: a document removed before its turn is skipped, and a changed one comes
as it is then. `nextOf` takes one step; `forEach` goes on until a callback answers something truthy, and the callback may
change whatever state the collection is a part of.
-/

namespace DocStore.Collection

/-- The first document still stored among some keys, and the keys after it. -/
def nextOf (c : Collection) : List String → Option Document × List String
  | [] => (none, [])
  | key :: keys =>
    match c.get? key with
    | some d => (some d, keys)
    | none => c.nextOf keys

section ForEach

variable {σ : Type} (view : σ → Collection) (callback : Document → σ → Value × σ)

/-- Calls back for each document still stored among some keys, up to the first truthy answer; gives the documents called
back for. -/
def forEach : List String → σ → List Document × σ
  | [], s => ([], s)
  | key :: keys, s =>
    match (view s).get? key with
    | none => forEach keys s
    | some d =>
      let (verdict, s) := callback d s
      if verdict.isTruthy then ([d], s)
      else
        let (ds, s) := forEach keys s
        (d :: ds, s)

/-- Calls back for each match of a predicate, up to the first truthy answer. -/
def forEachEqual (predicate : Document) (s : σ) : List Document × σ :=
  forEach view callback ((view s).equalKeys predicate) s

end ForEach

end DocStore.Collection
