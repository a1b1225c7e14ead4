import DocStore.Numeric.Power

/-!
# Binary floating point words

A `Binary64` is a 64-bit word read as a floating point number: a sign bit, an 11-bit exponent field and a 52-bit
fraction. Every finite word denotes a whole multiple of `2 ^ -1074`, so its exact value is one integer, `units`, and two
finite words are compared by comparing integers. `extended` adds the infinities and the not-a-number words, which all
denote the same point above everything else.

Nothing here calls a floating point instruction: words are decoded and assembled with integer arithmetic.
-/

namespace DocStore

/-- A 64-bit word read as a binary floating point number. -/
structure Binary64 where
  /-- The sign bit, the exponent field and the fraction, from high to low. -/
  bits : UInt64
  deriving DecidableEq, Inhabited

namespace Binary64

/-! ## Fields of a word -/

/-- Whether the sign bit is set. -/
def isNegative (w : Binary64) : Bool := pow2 63 ≤ w.bits.toNat

/-- The 11-bit exponent field. -/
def field (w : Binary64) : Nat := w.bits.toNat / pow2 52 % pow2 11

/-- The 52-bit fraction. -/
def fraction (w : Binary64) : Nat := w.bits.toNat % pow2 52

/-- Whether the word denotes a number, as opposed to an infinity or no number. -/
def isFinite (w : Binary64) : Bool := w.field != 2047

/-- Whether the word denotes no number. -/
def isNaN (w : Binary64) : Bool := w.field == 2047 && w.fraction != 0

/-- The significand: the fraction, with the hidden bit when the exponent field is not zero. -/
def significand (w : Binary64) : Nat := if w.field = 0 then w.fraction else pow2 52 + w.fraction

/-- The absolute value of a finite word, in units of `2 ^ -1074`. -/
def magnitude (w : Binary64) : Nat := w.significand * pow2 (w.field - 1)

/-- The exact value of a finite word, in units of `2 ^ -1074`. -/
def units (w : Binary64) : Int := if w.isNegative then -w.magnitude else w.magnitude

/-- The whole part of a word that denotes a number or an infinity, kept within 128 bits with sign. -/
def whole (w : Binary64) : Int :=
  if w.isFinite then max (-pow2 127) (min (w.units.tdiv (pow2 1074)) (pow2 127 - 1))
  else if w.isNegative then -pow2 127
  else pow2 127 - 1

/-- What a word has beyond its whole part, in units of `2 ^ -1074`, and nothing for an infinity. -/
def rest (w : Binary64) : Int := if w.isFinite then w.units.tmod (pow2 1074) else 0

/-! ## Assembling words -/

/-- The word with the given sign bit and the given low 63 bits. -/
def ofParts (negative : Bool) (low : Nat) : Binary64 :=
  ⟨UInt64.ofNat (if negative then pow2 63 + low else low)⟩

/-- The low 63 bits of an infinity. -/
def infinityBits : Nat := 2047 * pow2 52

/-- The word of no number that stands for all of them. -/
def nan : Binary64 := ⟨0x7ff8000000000000⟩

/-- The word with the opposite sign bit. -/
def negate (w : Binary64) : Binary64 := ⟨w.bits ^^^ 0x8000000000000000⟩

end Binary64

/-! ## The extended number line -/

/-- The number line with both infinities, and one point for no number above them all. Finite points are counted in
units of `2 ^ -1074`, fine enough for every finite word and every integer. -/
inductive ExtendedNumber where
  | negInfinity
  | finite (units : Int)
  | posInfinity
  | notANumber
  deriving DecidableEq

namespace ExtendedNumber

/-- The four kinds of points from low to high. -/
def rank : ExtendedNumber → Nat
  | negInfinity => 0
  | finite _ => 1
  | posInfinity => 2
  | notANumber => 3

/-- The integer of a finite point, and zero for the other points, which are told apart by their rank alone. -/
def position : ExtendedNumber → Int
  | finite units => units
  | _ => 0

/-- Points are ordered by rank, and finite points by their integers. -/
instance : Ord ExtendedNumber := ⟨compareLex (compareOn rank) (compareOn position)⟩

/-- The point of an integer. -/
def ofInt (n : Int) : ExtendedNumber := finite (n * pow2 1074)

end ExtendedNumber

/-- The point that a word denotes; both zeros denote the same one. -/
def Binary64.extended (w : Binary64) : ExtendedNumber :=
  if w.isFinite then .finite w.units
  else if w.isNaN then .notANumber
  else if w.isNegative then .negInfinity
  else .posInfinity

end DocStore
