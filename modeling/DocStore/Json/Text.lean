/-!
# JSON strings

The characters between two double quotes. Control characters have to be escaped; a character outside the basic plane may
be escaped as a pair of surrogates, and a surrogate without its other half is refused.
-/

namespace DocStore.Json

/-- The value of a hexadecimal digit. -/
def hexDigit? (c : Char) : Option Nat :=
  if '0' ≤ c ∧ c ≤ '9' then some (c.toNat - '0'.toNat)
  else if 'a' ≤ c ∧ c ≤ 'f' then some (c.toNat - 'a'.toNat + 10)
  else if 'A' ≤ c ∧ c ≤ 'F' then some (c.toNat - 'A'.toNat + 10)
  else none

/-- The number that four hexadecimal digits spell. -/
def hexNumber? (a b c d : Char) : Option Nat := do
  return ((16 * (← hexDigit? a) + (← hexDigit? b)) * 16 + (← hexDigit? c)) * 16 + (← hexDigit? d)

/-- The character that a letter after a backslash stands for. -/
def escape? : Char → Option Char
  | '"' => some '"'
  | '\\' => some '\\'
  | '/' => some '/'
  | 'b' => some '\x08'
  | 'f' => some '\x0c'
  | 'n' => some '\n'
  | 'r' => some '\r'
  | 't' => some '\t'
  | _ => none

/-- The character of a pair of surrogates. -/
def joinSurrogates? (high low : Nat) : Option Char :=
  if 0xD800 ≤ high ∧ high < 0xDC00 ∧ 0xDC00 ≤ low ∧ low < 0xE000 then
    some (Char.ofNat (0x10000 + (high - 0xD800) * 0x400 + (low - 0xDC00)))
  else none

/-- A character in front of what was read. -/
def prepend (c : Char) (x : List Char × List Char) : List Char × List Char := (c :: x.1, x.2)

/-- The characters up to the closing quote and the rest. -/
def readText? : List Char → Option (List Char × List Char)
  | '"' :: rest => some ([], rest)
  | '\\' :: 'u' :: a :: b :: c :: d :: rest =>
    match hexNumber? a b c d with
    | none => none
    | some n =>
      if 0xD800 ≤ n ∧ n < 0xE000 then
        match rest with
        | '\\' :: 'u' :: a :: b :: c :: d :: rest =>
          match (hexNumber? a b c d).bind (joinSurrogates? n) with
          | some c => (readText? rest).map (prepend c)
          | none => none
        | _ => none
      else (readText? rest).map (prepend (Char.ofNat n))
  | '\\' :: c :: rest =>
    match escape? c with
    | some c => (readText? rest).map (prepend c)
    | none => none
  | c :: rest => if c.toNat < 0x20 then none else (readText? rest).map (prepend c)
  | [] => none

end DocStore.Json
