import DocStore.Numeric.Number

/-!
# Values

What a field of a document holds: null, a truth value, a number, a text, a list of values, or named values. This module
has the type, its six kinds and the conversions from and to other types.
-/

namespace DocStore

/-- A value of a field. The entries of an inner document stand in increasing order of their names. -/
inductive Value where
  | null
  | bool (b : Bool)
  | number (x : Number)
  | string (s : String)
  | array (items : List Value)
  | document (entries : List (String × Value))
  deriving Inhabited

namespace Value

/-- The place of a value's kind in the order of kinds. -/
def rank : Value → Nat
  | null => 0
  | bool _ => 1
  | number _ => 2
  | string _ => 3
  | array _ => 4
  | document _ => 5

/-! ## Kinds -/

/-- Whether a value is null. -/
def isNull : Value → Bool
  | null => true
  | _ => false

/-- The truth value, if it is one. -/
def bool? : Value → Option Bool
  | bool b => some b
  | _ => none

/-- The number, if it is one. -/
def number? : Value → Option Number
  | number x => some x
  | _ => none

/-- The stored integer, if it is one. -/
def int? : Value → Option Int64
  | number (.int i) => some i
  | _ => none

/-- The text, if it is one. -/
def string? : Value → Option String
  | string s => some s
  | _ => none

/-- The items, if it is a list of values. -/
def array? : Value → Option (List Value)
  | array items => some items
  | _ => none

/-- The entries, if it is an inner document. -/
def entries? : Value → Option (List (String × Value))
  | document entries => some entries
  | _ => none

/-- Whether a value counts as true: all but null, false, zero, no number and the empty text do. -/
def isTruthy : Value → Bool
  | null => false
  | bool b => b
  | number x => x.isTruthy
  | string s => s != ""
  | array _ => true
  | document _ => true

/-! ## Conversions -/

/-- The value of a stored integer. -/
def int (i : Int64) : Value := number (.int i)

/-- The value of a floating point word. -/
def float (w : Binary64) : Value := number (.float w)

/-- The value of an integer. -/
def ofInt (n : Int) : Value := number (.ofInt n)

/-- The value of a natural number. -/
def ofNat (n : Nat) : Value := number (.ofNat n)

/-- The value of an unsigned 64-bit integer. -/
def ofUInt64 (a : UInt64) : Value := ofNat a.toNat

/-- The value of an unsigned integer of the machine's width, which is at most 64 bits. -/
def ofUSize (a : USize) : Value := ofUInt64 a.toUInt64

/-- The value of something that may be absent: null stands for what is absent. -/
def ofOption : Option Value → Value
  | some v => v
  | none => null

/-- The list of the one-character texts of a text. -/
def ofChars (s : String) : Value := array (s.toList.map fun c => string (String.singleton c))

end Value
end DocStore
