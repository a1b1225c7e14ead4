/-!
# Comparison operators

The six operators of a condition. Each is a test on the order of the two compared values, and `mirrored` is the operator
that says the same with its sides exchanged (`test_mirrored`).
-/

namespace DocStore

/-- A comparison operator of a condition. -/
inductive CompareOp where
  | lt
  | le
  | eq
  | ne
  | ge
  | gt
  deriving DecidableEq

namespace CompareOp

/-- The operator as it is written. -/
def symbol : CompareOp → String
  | lt => "<"
  | le => "<="
  | eq => "=="
  | ne => "!="
  | ge => ">="
  | gt => ">"

/-- Every operator once. -/
def all : List CompareOp := [lt, le, eq, ne, ge, gt]

/-- The operator written as a given text, if it is one. -/
def ofSymbol? (s : String) : Option CompareOp := all.find? (·.symbol == s)

/-- The operator that says the same about the exchanged sides. -/
def mirrored : CompareOp → CompareOp
  | lt => gt
  | le => ge
  | ge => le
  | gt => lt
  | o => o

/-- Whether the operator holds between two values that stand in the given order. -/
def test : CompareOp → Ordering → Bool
  | lt, o => o.isLT
  | le, o => o.isLE
  | eq, o => o.isEq
  | ne, o => o.isNe
  | ge, o => o.isGE
  | gt, o => o.isGT

/-- An operator holds between two values exactly when the mirrored one holds between them exchanged. -/
theorem test_mirrored (op : CompareOp) (o : Ordering) : op.mirrored.test o.swap = op.test o := by
  cases op <;> cases o <;> rfl

/-- Every operator is read back from its symbol. -/
theorem ofSymbol?_symbol (op : CompareOp) : ofSymbol? op.symbol = some op := by
  cases op <;> rfl

end CompareOp
end DocStore
