import DocStore.Numeric.Rounding

/-!
# Decimal numerals

A numeral is a sign, digits, an optional fraction and an optional exponent. `Numeral.toBinary64` rounds the number it
denotes once, to the nearest word; a numeral too large for any word gives an infinity and one too small a zero, without
building the power of ten.
-/

namespace DocStore

/-- A decimal numeral, its digits as written. -/
structure Numeral where
  negative : Bool
  whole : List Char
  fraction : List Char
  exponent : Int
  deriving DecidableEq

namespace Numeral

/-- The digits before and after the point as one natural number. -/
def significand (x : Numeral) : Nat := Nat.ofDigitChars 10 (x.whole ++ x.fraction) 0

/-- The power of ten that scales the significand. -/
def scale (x : Numeral) : Int := x.exponent - x.fraction.length

/-- The nearest word to the number that the numeral denotes. -/
def toBinary64 (x : Numeral) : Binary64 :=
  let n := x.significand
  if n = 0 ∨ x.scale + (x.whole.length + x.fraction.length) < -400 then .ofParts x.negative 0
  else if 400 < x.scale then .ofParts x.negative Binary64.infinityBits
  else .ofRatio x.negative (n * pow10 x.scale.toNat) (pow10 (-x.scale).toNat)

end Numeral
end DocStore
