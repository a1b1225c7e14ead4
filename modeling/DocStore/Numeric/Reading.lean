import DocStore.Numeric.Numeral
import DocStore.Numeric.Number

/-!
# Numbers from whole texts

What numbers a text can write when all of it has to be one: an integer is digits with an optional sign
(`readInteger?`), a floating point word also has a fraction and a power of ten, or is one of the named words
(`readFloat?`).
-/

namespace DocStore.Numeral

/-- Whether a text starts with a minus sign, and the text after its sign. -/
def signed : List Char → Bool × List Char
  | '-' :: cs => (true, cs)
  | '+' :: cs => (false, cs)
  | cs => (false, cs)

/-- The integer of digits with a sign. -/
def integer (negative : Bool) (ds : List Char) : Int :=
  if negative then -Nat.ofDigitChars 10 ds 0 else Nat.ofDigitChars 10 ds 0

/-- Whether a text is digits, and at least one. -/
def isDigits (cs : List Char) : Bool := !cs.isEmpty && cs.all Char.isDigit

/-- The 64-bit integer that a text writes. -/
def readInteger? (cs : List Char) : Option Int64 :=
  let (negative, ds) := signed cs
  let n := integer negative ds
  if isDigits ds ∧ Int64.minValue.toInt ≤ n ∧ n ≤ Int64.maxValue.toInt then some (Int64.ofInt n) else none

/-- The digits after a point, and what follows them. -/
def readFraction : List Char → List Char × List Char
  | '.' :: cs => (cs.takeWhile Char.isDigit, cs.dropWhile Char.isDigit)
  | cs => ([], cs)

/-- The power of ten at the end of a text. -/
def readPower? : List Char → Option Int
  | [] => some 0
  | c :: cs =>
    let (negative, ds) := signed cs
    if (c = 'e' ∨ c = 'E') ∧ isDigits ds then some (integer negative ds) else none

/-- The word of a name, in capital or small letters. -/
def named? (cs : List Char) : Option Binary64 :=
  let name := String.ofList (cs.map Char.toLower)
  if name = "inf" ∨ name = "infinity" then some (.ofParts false Binary64.infinityBits)
  else if name = "nan" then some .nan
  else none

/-- The floating point word that a text writes. -/
def readFloat? (cs : List Char) : Option Binary64 :=
  let (negative, cs) := signed cs
  let whole := cs.takeWhile Char.isDigit
  let (fraction, power) := readFraction (cs.dropWhile Char.isDigit)
  if whole = [] ∧ fraction = [] then (named? cs).map fun w => if negative then w.negate else w
  else (readPower? power).map fun e => toBinary64 ⟨negative, whole, fraction, e⟩

end DocStore.Numeral
