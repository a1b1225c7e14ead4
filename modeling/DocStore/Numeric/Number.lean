import DocStore.Numeric.Rounding
import DocStore.Numeric.Shortest

/-!
# Numbers

A number is a 64-bit integer or a floating point word. Both denote points of the extended number line, and numbers are
compared exactly: an integer is compared with the whole part of a word first and then with what the word has beyond it,
so no integer is rounded on the way. So `1` and `1.0` are equal although they are stored and printed as what they are.
-/

namespace DocStore

/-- A number as it is stored. -/
inductive Number where
  | int (i : Int64)
  | float (w : Binary64)
  deriving DecidableEq

namespace Number

/-- The point that a number denotes. -/
def point : Number → ExtendedNumber
  | int i => .ofInt i.toInt
  | float w => w.extended

/-- The nearest word to a number. -/
def toBinary64 : Number → Binary64
  | int i => .ofInt i.toInt
  | float w => w

/-- Whether a number denotes a point other than zero, where no number counts as zero. -/
def isTruthy (x : Number) : Bool := x.point != .finite 0 && x.point != .notANumber

/-! ## Order -/

/-- The order of two words: as the points they denote, and every word of no number above all others. -/
def orderFloats (v w : Binary64) : Ordering :=
  match v.isNaN, w.isNaN with
  | true, true => .eq
  | true, false => .gt
  | false, true => .lt
  | false, false => compare v.extended w.extended

/-- The order of an integer and a word: by the whole part of the word, then by what the word has beyond it. -/
def orderIntFloat (i : Int64) (w : Binary64) : Ordering :=
  if w.isNaN then .lt else (compare i.toInt w.whole).then (compare 0 w.rest)

/-- The order of two numbers. -/
def order : Number → Number → Ordering
  | int i, int j => compare i j
  | float v, float w => orderFloats v w
  | int i, float w => orderIntFloat i w
  | float v, int j => (orderIntFloat j v).swap

instance : Ord Number := ⟨order⟩

/-! ## Conversions -/

/-- The number of an integer: stored exactly when it fits 64 bits with sign, otherwise as the nearest word. -/
def ofInt (n : Int) : Number :=
  if Int64.minValue.toInt ≤ n ∧ n ≤ Int64.maxValue.toInt then int (Int64.ofInt n) else float (.ofInt n)

/-- The number of a natural number. -/
def ofNat (n : Nat) : Number := ofInt n

/-! ## Texts -/

/-- The decimal text of an integer. -/
def decimal (n : Int) : List Char :=
  if n < 0 then '-' :: Nat.toDigits 10 n.natAbs else Nat.toDigits 10 n.natAbs

/-- The text of a number inside a value; an infinity and no number are written as null. -/
def text : Number → List Char
  | int i => decimal i.toInt
  | float w => if w.isFinite then w.format.toList else "null".toList

/-- The text of a number that tells how it is stored. -/
def typedText : Number → String
  | int i => String.ofList (decimal i.toInt) ++ "i64"
  | float w => w.format ++ "f64"

end Number
end DocStore
