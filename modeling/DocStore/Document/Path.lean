import DocStore.Document.Basic
import DocStore.Text.Segments

/-!
# Field paths

A path such as `address.city` names a field of an inner document, its segments joined by a separator. A top-level field
whose name is the whole path comes first; only where there is none is the path cut into segments.
-/

namespace DocStore

/-- The value reached from a value through the named fields of inner documents. -/
def Value.walk : Value → List String → Option Value
  | v, [] => some v
  | .document es, name :: names => (es.lookup name).bind (·.walk names)
  | _, _ :: _ => none

namespace Document

/-- The segments of a path, if the separator occurs in it; the empty separator occurs nowhere. -/
def pathSegments? (path separator : String) : Option (List String) :=
  if separator = "" then none
  else
    match Text.segments separator.toList path.toList with
    | first :: second :: rest => some ((first :: second :: rest).map String.ofList)
    | _ => none

/-- The value at a path: the top-level field of that whole name, else the one reached through its segments. -/
def getPath (d : Document) (path separator : String) : Option Value :=
  match d.get? path with
  | some v => some v
  | none => (pathSegments? path separator).bind d.toValue.walk

end Document
end DocStore
