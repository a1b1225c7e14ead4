/-!
# Segments of a text

`segments sep cs` cuts a text at every occurrence of a separator, taken from left to right without overlap. A text
without the separator is its only segment, so a text contains the separator exactly when it has more than one segment.
-/

namespace DocStore.Text

/-- A character in front of the first segment. -/
def extendFirst (c : Char) : List (List Char) → List (List Char)
  | [] => [[c]]
  | s :: rest => (c :: s) :: rest

/-- The segments of what is left of a text after its first `skip` characters, which belong to a separator. -/
def segmentsFrom (sep : List Char) : Nat → List Char → List (List Char)
  | _, [] => [[]]
  | skip + 1, _ :: cs => segmentsFrom sep skip cs
  | 0, c :: cs =>
    if sep.isPrefixOf (c :: cs) then [] :: segmentsFrom sep (sep.length - 1) cs
    else extendFirst c (segmentsFrom sep 0 cs)

/-- The segments of a text between the occurrences of a separator that is not empty. -/
def segments (sep cs : List Char) : List (List Char) := segmentsFrom sep 0 cs

end DocStore.Text
