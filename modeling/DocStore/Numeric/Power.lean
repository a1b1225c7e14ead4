/-!
# Powers of two and of ten

The powers that floating point words and decimal numerals are scaled by.
-/

namespace DocStore

/-- Two to the power `n`. -/
def pow2 (n : Nat) : Nat := Nat.pow 2 n

/-- Ten to the power `n`. -/
def pow10 (n : Nat) : Nat := Nat.pow 10 n

end DocStore
