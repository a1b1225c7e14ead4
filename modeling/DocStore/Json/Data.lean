import DocStore.Value.Basic

/-!
# Values as JSON data

JSON has no numbers besides the finite ones. As JSON data a value is what it is, with null in place of every infinity and
of no number.
-/

namespace DocStore.Json

/-- A number as JSON data. -/
def dataOfNumber : Number → Value
  | .int i => .int i
  | .float w => if w.isFinite then .float w else .null

mutual

/-- A value as JSON data. -/
def dataOf : Value → Value
  | .number x => dataOfNumber x
  | .array items => .array (dataOfItems items)
  | .document entries => .document (dataOfEntries entries)
  | v => v

/-- The items of a list as JSON data. -/
def dataOfItems : List Value → List Value
  | [] => []
  | v :: vs => dataOf v :: dataOfItems vs

/-- The entries of a document as JSON data. -/
def dataOfEntries : List (String × Value) → List (String × Value)
  | [] => []
  | (n, v) :: es => (n, dataOf v) :: dataOfEntries es

end

end DocStore.Json
