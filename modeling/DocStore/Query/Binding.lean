import DocStore.Error
import DocStore.Query.Parser

/-!
# Binding queries

A bound query has a value in place of every operand. Binding goes through the conditions in order and then through the
limit, and fails at the first operand that has no value, or whose value is no natural number where a count is wanted.
-/

namespace DocStore

namespace Query

/-- A condition with its value. -/
structure BoundCondition where
  field : String
  op : CompareOp
  value : Value

/-- A query with a value for every operand. -/
structure Bound where
  collection : String
  conditions : List BoundCondition
  sort : List SortKey
  offset : Nat
  count : Option Nat

/-- The value of an operand. -/
def Operand.bind (params : Document) : Operand → Except StoreError Value
  | literal v => .ok v
  | param name =>
    match params.get? name with
    | some v => .ok v
    | none => .error (.parameterUnbound name)

/-- The value of an operand that is a natural number. -/
def Operand.bindCount (params : Document) (o : Operand) : Except StoreError Nat := do
  let v ← o.bind params
  match v.int? with
  | some i => if 0 ≤ i.toInt then .ok i.toInt.toNat else .error (.limitNotCount v)
  | none => .error (.limitNotCount v)

/-- A condition with the value of its operand. -/
def Condition.bind (params : Document) (c : Condition) : Except StoreError BoundCondition := do
  return ⟨c.field, c.op, ← c.operand.bind params⟩

/-- The conditions with the values of their operands. -/
def bindConditions (params : Document) : List Condition → Except StoreError (List BoundCondition)
  | [] => .ok []
  | c :: cs => do
    let b ← c.bind params
    return b :: (← bindConditions params cs)

/-- How many documents are skipped and how many are wanted at most: nothing is skipped unless it is said. -/
def bindLimit (params : Document) : Option Limit → Except StoreError (Nat × Option Nat)
  | none => .ok (0, none)
  | some l => do
    let offset ← match l.offset with
      | some o => o.bindCount params
      | none => .ok 0
    return (offset, some (← l.count.bindCount params))

/-- The query with the values of the given parameters. -/
def bind (q : Query) (params : Document) : Except StoreError Bound := do
  let conditions ← bindConditions params q.conditions
  let (offset, count) ← bindLimit params q.limit
  return ⟨q.collection, conditions, q.sort, offset, count⟩

end Query
end DocStore
