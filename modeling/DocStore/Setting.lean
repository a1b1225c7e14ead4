/-!
# Settings

What a user may choose before a store is opened.
-/

namespace DocStore

/-- A setting with the value given to it. -/
inductive Setting where
  /-- The separator of field paths. -/
  | separator (text : String)
  /-- The field that holds the time of the last write of a document. -/
  | timestampField (name : String)
  /-- The greatest number of documents that one search answers. -/
  | resultWindow (size : Nat)
  deriving DecidableEq

/-- What messages call a setting. -/
def Setting.label : Setting → String
  | separator _ => "Field separator"
  | timestampField _ => "Timestamp field"
  | resultWindow _ => "Max result window"

/-- The field that holds the key of a document. -/
def keyField : String := "_key"

end DocStore
