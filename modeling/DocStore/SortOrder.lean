/-!
# Sort orders

The direction in which a sort runs through the order of values.
-/

namespace DocStore

/-- Smallest to largest, or largest to smallest. -/
inductive SortOrder where
  | ascending
  | descending
  deriving DecidableEq, Inhabited

/-- The result of an ascending comparison seen in the given direction. -/
def SortOrder.apply : SortOrder → Ordering → Ordering
  | ascending, o => o
  | descending, o => o.swap

end DocStore
