import DocStore.Text.FoldingTable

/-!
# Simple case folding

`foldCase` sends a character to the representative of its letter, so two characters are the same letter in different
case exactly when their images are equal. One character always folds to one character: `ß` folds with `ẞ` and not with
`ss`, and the dotted and the dotless `i` of Turkish stay letters of their own.
-/

namespace DocStore.Text

/-- The representative of a letter among its case variants. -/
def foldCase (c : Char) : Char :=
  match foldRanges.find? (·.contains c.toNat) with
  | some r => Char.ofNat (r.apply c.toNat)
  | none => c

end DocStore.Text
