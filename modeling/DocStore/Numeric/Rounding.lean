import DocStore.Numeric.Binary64

/-!
# Rounding to the nearest word

`Binary64.ofUnits` rounds an exact nonnegative quotient to the nearest word, a tie going to the even significand: a
quotient of at least `2 ^ 53` units is first divided by the power of two that leaves 53 bits, and adding the rounded
quotient to the shifted exponent field lets a carry move into the field by itself. Integers, quotients, products and
powers of ten are rounded through it.
-/

namespace DocStore

/-- The integer nearest to `n / d`, a tie going to the even one. -/
def roundHalfEven (n d : Nat) : Nat :=
  if 2 * (n % d) < d then n / d
  else if d < 2 * (n % d) then n / d + 1
  else n / d + n / d % 2

namespace Binary64

/-- The number of low bits that a quotient `q` loses when it is cut to 53 bits. -/
def shift (q : Nat) : Nat := q.log2 - 52

/-- The nearest word to `n / d` units of `2 ^ -1074` with the given sign; too large a quotient gives an infinity. -/
def ofUnits (negative : Bool) (n d : Nat) : Binary64 :=
  let k := shift (n / d)
  ofParts negative (min (k * pow2 52 + roundHalfEven n (d * pow2 k)) infinityBits)

/-- The nearest word to `n / d` with the given sign. -/
def ofRatio (negative : Bool) (n d : Nat) : Binary64 := ofUnits negative (n * pow2 1074) d

/-- The nearest word to a natural number. -/
def ofNat (n : Nat) : Binary64 := ofRatio false n 1

/-- The nearest word to an integer. -/
def ofInt (n : Int) : Binary64 := ofRatio (decide (n < 0)) n.natAbs 1

/-- The nearest word to the product of two finite words. -/
def mul (v w : Binary64) : Binary64 :=
  ofUnits (v.isNegative != w.isNegative) (v.magnitude * w.magnitude) (pow2 1074)

/-- The nearest word to the quotient of two finite words, the second not zero. -/
def div (v w : Binary64) : Binary64 :=
  ofRatio (v.isNegative != w.isNegative) v.magnitude w.magnitude

/-! ## Single precision -/

/-- The word with the same value as a 32-bit word: 8 bits of exponent field and 23 bits of fraction are widened, so
nothing is rounded; any 32-bit word of no number gives `nan`. -/
def ofSingle (b : UInt32) : Binary64 :=
  let negative := decide (pow2 31 ≤ b.toNat)
  let field := b.toNat / pow2 23 % pow2 8
  let fraction := b.toNat % pow2 23
  if field = 255 then
    if fraction = 0 then ofParts negative infinityBits else nan
  else
    let significand := if field = 0 then fraction else pow2 23 + fraction
    ofUnits negative (significand * pow2 (field - 1) * pow2 925) 1

end Binary64
end DocStore
