import DocStore.Collection.Matching

/-!
# Finding documents

The searches of a collection. Those that answer a list are cut to the result window of the configuration; single
answers, counts and iteration are not.
-/

namespace DocStore.Collection

/-! ## Pages -/

/-- The part of a list from an offset on, of a given length; a length below one gives nothing. -/
def page {α : Type} (offset : Nat) (limit : Int) (results : List α) : List α :=
  (results.drop offset).take limit.toNat

/-- Sort keys over some fields, all in one direction. -/
def sortKeys (order : SortOrder) (fields : List String) : List Query.SortKey := fields.map (⟨·, order⟩)

/-- The page of sorted matches, cut to the result window. -/
def sortedPage (c : Collection) (es : List Entry) (order : SortOrder) (fields : List String) (offset : Nat)
    (limit : Int) : List Document :=
  c.config.cap ((page offset limit (Query.sortEntries c.separator (sortKeys order fields) es)).map (·.2))

/-! ## Queries -/

/-- The answers of a query. -/
def find (c : Collection) (text : String) (params : Document) : Except StoreError (List Document) := do
  return c.config.cap ((c.evaluate (← c.bindQuery text params)).map (·.2))

/-- The first answer of a query. -/
def findOne (c : Collection) (text : String) (params : Document) : Except StoreError Document := do
  match (c.evaluate (← c.bindQuery text params)).head? with
  | some e => return e.2
  | none => throw (.noAnswer c.name)

/-- The number of answers of a query. -/
def countQuery (c : Collection) (text : String) (params : Document) : Except StoreError Nat := do
  return (c.evaluate (← c.bindQuery text params)).length

/-! ## Equality -/

/-- The first match of a predicate. -/
def findEqual (c : Collection) (predicate : Document) : Except StoreError Document :=
  match c.firstEqual? predicate with
  | some e => .ok e.2
  | none => .error (.noMatch c.name predicate)

/-- The matches of a predicate. -/
def findAllEqual (c : Collection) (predicate : Document) : List Document :=
  c.config.cap ((c.equalMatches predicate).map (·.2))

/-- A page of the sorted matches of a predicate. -/
def findEqualSorted (c : Collection) (predicate : Document) (order : SortOrder) (fields : List String) (offset : Nat)
    (limit : Int) : List Document :=
  c.sortedPage (c.equalMatches predicate) order fields offset limit

/-! ## LIKE tests -/

/-- A page of the sorted documents that meet an alternative of a predicate. -/
def findLikeSorted [Like.Engine] (c : Collection) (predicate : Document) (order : SortOrder) (fields : List String)
    (offset : Nat) (limit : Int) : Except StoreError (List Document) :=
  (c.likeMatches predicate).map (c.sortedPage · order fields offset limit)

/-- The number of documents that meet an alternative of a predicate. -/
def countLike [Like.Engine] (c : Collection) (predicate : Document) : Except StoreError Nat :=
  (c.likeMatches predicate).map List.length

end DocStore.Collection
