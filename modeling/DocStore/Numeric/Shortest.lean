import DocStore.Numeric.Binary64

/-!
# Shortest decimal text of a word

The reals that round to a finite word form an interval around its value, with its ends included when the significand is
even. `Binary64.shortest` takes the coarsest decimal grid `10 ^ p` with a point in that interval, and on it the point
nearest to the value; a tie goes up. Since a coarser grid has fewer digits, no shorter decimal reads back as the word.

`Binary64.format` writes that point without an exponent, whatever its size, and has texts of its own for the other
words.
-/

namespace DocStore

/-- A decimal number without sign: `digits * 10 ^ exponent`. -/
structure DecimalPoint where
  digits : Nat
  exponent : Int
  deriving DecidableEq

namespace Binary64

/-! ## The interval of a word -/

/-- The distance from the value of a word up to the next word, in quarters of a unit. -/
def gapAbove (w : Binary64) : Nat := 4 * pow2 (w.field - 1)

/-- The distance down to the word before, in quarters of a unit: half as large below a power of two. -/
def gapBelow (w : Binary64) : Nat := if w.fraction = 0 ∧ 1 < w.field then w.gapAbove / 2 else w.gapAbove

/-- Whether `x / d` quarters of a unit round to the absolute value of the word. -/
def roundsFrom (w : Binary64) (x d : Nat) : Bool :=
  let low := (4 * w.magnitude - w.gapBelow / 2) * d
  let high := (4 * w.magnitude + w.gapAbove / 2) * d
  if w.significand % 2 = 0 then low ≤ x && x ≤ high else low < x && x < high

/-! ## Decimal grids -/

/-- One step of the grid `10 ^ p` in quarters of a unit, as a numerator and a denominator. -/
def gridStep (p : Int) : Nat × Nat := (pow2 1076 * pow10 p.toNat, pow10 (-p).toNat)

/-- The point of the grid `10 ^ p` nearest to the word among those that round to it, if there is one. -/
def nearestOnGrid? (w : Binary64) (p : Int) : Option Nat :=
  let (step, d) := gridStep p
  let value := 4 * w.magnitude * d
  let below := value / step
  match w.roundsFrom (below * step) d, w.roundsFrom ((below + 1) * step) d with
  | true, false => some below
  | false, true => some (below + 1)
  | true, true => some (if 2 * (value % step) < step then below else below + 1)
  | false, false => none

/-- No word needs a grid finer than `10 ^ -343`. -/
def finestGrid : Int := -343

/-- The first point found on the grids from `10 ^ (finestGrid + n)` down to the finest one. -/
def searchGrids (w : Binary64) : Nat → Option DecimalPoint
  | 0 => (w.nearestOnGrid? finestGrid).map (⟨·, finestGrid⟩)
  | n + 1 =>
    match w.nearestOnGrid? (finestGrid + (n + 1)) with
    | some digits => some ⟨digits, finestGrid + (n + 1)⟩
    | none => w.searchGrids n

/-- The shortest decimal that rounds to the absolute value of a finite word. -/
def shortest (w : Binary64) : DecimalPoint :=
  if w.magnitude = 0 then ⟨0, 0⟩ else (w.searchGrids 652).getD ⟨0, 0⟩

end Binary64

/-! ## Positional text -/

/-- The text of a decimal number without an exponent: a point stands only before digits that follow it. -/
def DecimalPoint.positional (x : DecimalPoint) : List Char :=
  let ds := Nat.toDigits 10 x.digits
  if 0 ≤ x.exponent then ds ++ List.replicate (if x.digits = 0 then 0 else x.exponent.toNat) '0'
  else
    let places := (-x.exponent).toNat
    if places < ds.length then ds.take (ds.length - places) ++ '.' :: ds.drop (ds.length - places)
    else '0' :: '.' :: (List.replicate (places - ds.length) '0' ++ ds)

/-- The text of a word: the positional text of its shortest decimal after the sign, which zero keeps too. -/
def Binary64.format (w : Binary64) : String :=
  if w.isNaN then "NaN"
  else
    let sign := if w.isNegative then "-" else ""
    if w.isFinite then sign ++ String.ofList w.shortest.positional else sign ++ "inf"

end DocStore
