/-!
# Quoted text

A JSON string between double quotes: the quote and the backslash stand after a backslash, line feed, carriage return and
tab have letters of their own, the other control characters are written as four hexadecimal digits, and every other
character stands for itself.
-/

namespace DocStore.Text

/-- A character as it is written between quotes. -/
def quoteChar (c : Char) : List Char :=
  if c = '"' then ['\\', '"']
  else if c = '\\' then ['\\', '\\']
  else if c = '\n' then ['\\', 'n']
  else if c = '\r' then ['\\', 'r']
  else if c = '\t' then ['\\', 't']
  else if c.toNat < 0x20 then ['\\', 'u', '0', '0', Nat.digitChar (c.toNat / 16), Nat.digitChar (c.toNat % 16)]
  else [c]

/-- A text between quotes. -/
def quoted (cs : List Char) : List Char := '"' :: (cs.flatMap quoteChar ++ ['"'])

end DocStore.Text
