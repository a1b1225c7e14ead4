import DocStore.Query.CompareOp
import DocStore.SortOrder
import DocStore.Value.Basic

/-!
# Queries

What a query text says: which collection is read, which conditions its documents meet, how they are sorted and which
stretch of them is wanted. An operand is a literal or a parameter that gets its value when the query is bound.
-/

namespace DocStore

namespace Query

/-- The side of a condition that is not a field. -/
inductive Operand where
  | param (name : String)
  | literal (v : Value)

/-- A comparison of a field with an operand. -/
structure Condition where
  field : String
  op : CompareOp
  operand : Operand

/-- A field to sort by, with its direction. -/
structure SortKey where
  field : String
  order : SortOrder
  deriving DecidableEq

/-- How many documents are skipped, if that is said, and how many are wanted at most. -/
structure Limit where
  offset : Option Operand
  count : Operand

end Query

open Query in
/-- A query over the documents of one collection, each called by the loop variable. -/
structure Query where
  loopVar : String
  collection : String
  conditions : List Condition
  sort : List SortKey
  limit : Option Limit

end DocStore
