import DocStore.Value.Basic

/-!
# Order of values

Values are ordered by kind first, null lowest and documents highest, and then inside a kind: false before true, numbers
as points of the number line, texts by code point, lists item by item with a proper prefix first, and documents entry by
entry, each by name and then by value. Equality of values means that neither comes before the other, so it does not
tell `1` from `1.0`; structural equality does.
-/

namespace DocStore.Value

mutual

/-- The order of two values. -/
def order : Value → Value → Ordering
  | bool a, bool b => compare a b
  | number x, number y => compare x y
  | string s, string t => compare s t
  | array xs, array ys => orderItems xs ys
  | document xs, document ys => orderEntries xs ys
  | v, w => compare v.rank w.rank

/-- The order of two lists of values: by the first items that differ, a proper prefix first. -/
def orderItems : List Value → List Value → Ordering
  | [], [] => .eq
  | [], _ :: _ => .lt
  | _ :: _, [] => .gt
  | x :: xs, y :: ys => (order x y).then (orderItems xs ys)

/-- The order of two lists of entries: by the first names or values that differ, a proper prefix first. -/
def orderEntries : List (String × Value) → List (String × Value) → Ordering
  | [], [] => .eq
  | [], _ :: _ => .lt
  | _ :: _, [] => .gt
  | (m, x) :: xs, (n, y) :: ys => ((compare m n).then (order x y)).then (orderEntries xs ys)

end

instance : Ord Value := ⟨order⟩

/-- Values are equal when neither comes before the other. -/
instance : BEq Value := ⟨fun v w => (order v w).isEq⟩

/-- Values of an earlier place come before values of a later one. -/
instance : LT Value := ltOfOrd

instance : LE Value := leOfOrd

end DocStore.Value
