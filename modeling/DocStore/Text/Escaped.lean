import DocStore.Text.HiddenTable

/-!
# Escaped text

A diagnostic form between double quotes: like quoted text, but a character without a shape of its own is written as its
hexadecimal code point between braces, and the null character as a zero after a backslash.
-/

namespace DocStore.Text

/-- Whether a character has no shape of its own. -/
def isHidden (c : Char) : Bool := hiddenRanges.any fun r => r.1 ≤ c.toNat && c.toNat ≤ r.2

/-- A character as it is written in the diagnostic form. -/
def escapeChar (c : Char) : List Char :=
  if c = '\x00' then ['\\', '0']
  else if c = '\t' then ['\\', 't']
  else if c = '\r' then ['\\', 'r']
  else if c = '\n' then ['\\', 'n']
  else if c = '\\' then ['\\', '\\']
  else if c = '"' then ['\\', '"']
  else if isHidden c then ['\\', 'u', '\x7b'] ++ Nat.toDigits 16 c.toNat ++ ['\x7d']
  else [c]

/-- A text in the diagnostic form. -/
def escaped (s : String) : String := String.ofList ('"' :: (s.toList.flatMap escapeChar ++ ['"']))

end DocStore.Text
