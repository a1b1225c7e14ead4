import DocStore.Document.Basic
import DocStore.Json.Number
import DocStore.Json.Text

/-!
# Reading JSON

`Json.read?` reads a JSON text as a value: objects become documents, in which the last entry of a name counts. Blank
characters may stand around every part; lists and objects may lie inside each other up to `greatestNesting` deep.
-/

namespace DocStore.Json

/-- A reading of something at the front of a text, with the rest of the text. -/
abbrev Reading (α : Type) := List Char → Option (α × List Char)

/-- Whether a character may stand between the parts of a JSON text. -/
def isBlank (c : Char) : Bool := c == ' ' || c == '\n' || c == '\t' || c == '\r'

/-- A text without the blanks at its front. -/
def skipBlanks (cs : List Char) : List Char := cs.dropWhile isBlank

/-! ## Lists and objects -/

/-- The elements after the first one up to the closing character, each after a comma. -/
def readMore? {α : Type} (close : Char) (element : Reading α) (cs : List Char) : Option (List α × List Char) :=
  match skipBlanks cs with
  | c :: rest =>
    if c = close then some ([], rest)
    else if c = ',' then
      match element rest with
      | some (a, rest) =>
        if rest.length < cs.length then (readMore? close element rest).map fun (as, rest) => (a :: as, rest) else none
      | none => none
    else none
  | [] => none
termination_by cs.length

/-- The elements up to the closing character. -/
def readElements? {α : Type} (close : Char) (element : Reading α) (cs : List Char) : Option (List α × List Char) :=
  match skipBlanks cs with
  | c :: rest =>
    if c = close then some ([], rest)
    else do
      let (a, rest) ← element (c :: rest)
      let (as, rest) ← readMore? close element rest
      return (a :: as, rest)
  | [] => none

/-- An entry of an object. -/
def readField? (value : Reading Value) (cs : List Char) : Option ((String × Value) × List Char) :=
  match skipBlanks cs with
  | '"' :: rest =>
    match readText? rest with
    | some (name, rest) =>
      match skipBlanks rest with
      | ':' :: rest => (value rest).map fun (v, rest) => ((String.ofList name, v), rest)
      | _ => none
    | none => none
  | _ => none

/-! ## Values -/

/-- The greatest number of lists and objects around a value. -/
def greatestNesting : Nat := 127

/-- The rest of a text after a word. -/
def readWord? (w : List Char) (v : Value) (cs : List Char) : Option (Value × List Char) :=
  if w.isPrefixOf cs then some (v, cs.drop w.length) else none

/-- A value inside of which lists and objects may lie `nesting` deep. -/
def readValue? (nesting : Nat) (cs : List Char) : Option (Value × List Char) :=
  match skipBlanks cs with
  | 'n' :: rest => readWord? ['u', 'l', 'l'] .null rest
  | 't' :: rest => readWord? ['r', 'u', 'e'] (.bool true) rest
  | 'f' :: rest => readWord? ['a', 'l', 's', 'e'] (.bool false) rest
  | '"' :: rest => (readText? rest).map fun (s, rest) => (.string (String.ofList s), rest)
  | '[' :: rest =>
    match nesting with
    | 0 => none
    | n + 1 => (readElements? ']' (readValue? n) rest).map fun (vs, rest) => (.array vs, rest)
  | '\x7b' :: rest =>
    match nesting with
    | 0 => none
    | n + 1 =>
      (readElements? '\x7d' (readField? (readValue? n)) rest).map fun (es, rest) =>
        ((Document.ofList es).toValue, rest)
  | cs => readNumber? cs

/-- The value that a whole text spells. -/
def read? (text : String) : Option Value :=
  match readValue? greatestNesting text.toList with
  | some (v, rest) => if skipBlanks rest = [] then some v else none
  | none => none

/-- The document that a whole text spells. -/
def readDocument? (text : String) : Option Document := (read? text).bind Value.document?

end DocStore.Json
