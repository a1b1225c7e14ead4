import DocStore.Value.Basic

/-!
# JSON numbers

An integer that fits 64 bits with sign is read as it stands; minus zero, larger integers and all numbers with a fraction
or an exponent become floating point words. Of the digits of such a number only as many count as fit 64 bits without
sign: those are rounded to a word, and the word is multiplied or divided by the word of the remaining power of ten. A
number too large for a word is refused.
-/

namespace DocStore.Json

/-- The digits at the front of a text and the rest. -/
def digits (cs : List Char) : List Char × List Char := (cs.takeWhile Char.isDigit, cs.dropWhile Char.isDigit)

/-- The leading digits that fit 64 bits behind a significand: the significand with them and how many they are. -/
def absorb (significand : Nat) : List Char → Nat × Nat
  | [] => (significand, 0)
  | c :: cs =>
    let next := Nat.ofDigitChars 10 [c] significand
    if next < pow2 64 then
      let (s, n) := absorb next cs
      (s, n + 1)
    else (significand, 0)

/-- The largest power of ten that a word is scaled by at once. -/
def greatestPower : Nat := 308

/-- A word scaled by a power of ten, unless it grows beyond all words. -/
def scale (w : Binary64) (e : Int) : Option Binary64 :=
  if e.natAbs ≤ greatestPower then
    let power := Binary64.ofNat (pow10 e.natAbs)
    if 0 ≤ e then
      let product := w.mul power
      if product.isFinite then some product else none
    else some (w.div power)
  else if w.magnitude = 0 then some w
  else if 0 ≤ e then none
  else scale (w.div (.ofNat (pow10 greatestPower))) (e + greatestPower)
termination_by (-e).toNat
decreasing_by simp only [greatestPower] at *; omega

/-- The value of a number from its parts: sign, digits before the point, and digits after the point and power of ten
where there are any. -/
def numberValue? (negative : Bool) (whole : List Char) (fraction? : Option (List Char)) (power? : Option Int) :
    Option Value :=
  let (s, n) := absorb 0 whole
  if fraction?.isNone ∧ power?.isNone ∧ n = whole.length then
    some (if negative then if s = 0 then .float (.ofParts true 0) else .ofInt (-s) else .ofNat s)
  else
    let (s, m) := absorb s (fraction?.getD [])
    (scale (.ofNat s) ((whole.length - n : Nat) - (m : Int) + power?.getD 0)).map fun w =>
      .float (if negative then w.negate else w)

/-- The digits after a point; none where no point follows. A point without digits is refused. -/
def readFraction? : List Char → Option (Option (List Char) × List Char)
  | '.' :: cs =>
    match digits cs with
    | ([], _) => none
    | (ds, rest) => some (some ds, rest)
  | cs => some (none, cs)

/-- The power of ten after its sign. -/
def readPower? (sign : Int) (cs : List Char) : Option (Option Int × List Char) :=
  match digits cs with
  | ([], _) => none
  | (ds, rest) => some (some (sign * Nat.ofDigitChars 10 ds 0), rest)

/-- The power of ten after an exponent mark; none where no mark follows. A mark without digits is refused. -/
def readExponent? : List Char → Option (Option Int × List Char)
  | c :: cs =>
    if c = 'e' ∨ c = 'E' then
      match cs with
      | '+' :: ds => readPower? 1 ds
      | '-' :: ds => readPower? (-1) ds
      | ds => readPower? 1 ds
    else some (none, c :: cs)
  | [] => some (none, [])

/-- A number after its sign. The digits before the point start with zero only if that is all of them. -/
def readUnsigned? (negative : Bool) (cs : List Char) : Option (Value × List Char) := do
  let (whole, rest) := digits cs
  guard (whole ≠ [] ∧ (whole.head? = some '0' → whole.length = 1))
  let (fraction?, rest) ← readFraction? rest
  let (power?, rest) ← readExponent? rest
  return (← numberValue? negative whole fraction? power?, rest)

/-- A number. -/
def readNumber? : List Char → Option (Value × List Char)
  | '-' :: cs => readUnsigned? true cs
  | cs => readUnsigned? false cs

end DocStore.Json
