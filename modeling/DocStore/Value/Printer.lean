import DocStore.Value.Basic
import DocStore.Text.Quoted

/-!
# Text of values

A value is written as compact JSON, the entries of a document in order of their names. The diagnostic text tells in
addition how a number is stored, but only when the number is the whole value.
-/

namespace DocStore.Value

mutual

/-- The JSON text of a value. -/
def chars : Value → List Char
  | null => "null".toList
  | bool b => if b then "true".toList else "false".toList
  | number x => x.text
  | string s => Text.quoted s.toList
  | array items => '[' :: itemsChars items
  | document entries => '\x7b' :: entriesChars entries

/-- The items of a list after its opening bracket. -/
def itemsChars : List Value → List Char
  | [] => [']']
  | v :: vs => chars v ++ moreItemsChars vs

/-- The items of a list after the first one. -/
def moreItemsChars : List Value → List Char
  | [] => [']']
  | v :: vs => ',' :: (chars v ++ moreItemsChars vs)

/-- The entries of a document after its opening brace. -/
def entriesChars : List (String × Value) → List Char
  | [] => ['\x7d']
  | (n, v) :: es => Text.quoted n.toList ++ ':' :: (chars v ++ moreEntriesChars es)

/-- The entries of a document after the first one. -/
def moreEntriesChars : List (String × Value) → List Char
  | [] => ['\x7d']
  | (n, v) :: es => ',' :: (Text.quoted n.toList ++ ':' :: (chars v ++ moreEntriesChars es))

end

/-- The JSON text of a value. -/
def text (v : Value) : String := String.ofList v.chars

instance : ToString Value := ⟨text⟩

/-- The text of a value that tells how a number is stored. -/
def typedText : Value → String
  | number x => x.typedText
  | v => v.text

end DocStore.Value
