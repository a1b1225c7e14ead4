import DocStore.Document.Key
import Mathlib.Logic.Function.Basic
import Mathlib.Tactic.Common

/-!
# Actions on documents

Documents are kept in places, as many as are wanted. A document is put together from a list of entries or from a finite
map, it is a copy of another one, and its fields are set and removed. `perform` is the meaning of an action: the value
that was removed or the error, and the documents afterwards. A run is a list of actions performed in order (`run`).
-/

namespace DocStore.Document

/-! ## Finite maps -/

/-- The fields of a document as a finite map. -/
def toMap (d : Document) : Std.TreeMap String Value := .ofList d.entries

/-- The document of a finite map. -/
def ofMap (m : Std.TreeMap String Value) : Document := ofList m.toList

/-! ## Actions -/

/-- Something done to the document in one place. -/
inductive Action (ι : Type) where
  | put (place : ι) (name : String) (value : Value)
  | remove (place : ι) (name : String)
  | collect (place : ι) (entries : List (String × Value))
  | convert (place : ι) (map : Std.TreeMap String Value)
  | copy (place source : ι)

variable {ι : Type}

/-- The place whose document an action can change. -/
def Action.place : Action ι → ι
  | put i _ _ | remove i _ | collect i _ | convert i _ | copy i _ => i

variable [DecidableEq ι]

/-- The value that an action removes, or its error, with the documents afterwards. -/
def perform (ds : ι → Document) : Action ι → Except StoreError (Option Value) × (ι → Document)
  | .put i name v =>
    match (ds i).put name v with
    | .error e => (.error e, ds)
    | .ok d => (.ok none, Function.update ds i d)
  | .remove i name => (.ok ((ds i).get? name), Function.update ds i ((ds i).erase name))
  | .collect i es => (.ok none, Function.update ds i (ofList es))
  | .convert i m => (.ok none, Function.update ds i (ofMap m))
  | .copy i j => (.ok none, Function.update ds i (ds j))

/-- The documents after some actions; every place has the empty document before. -/
def run (actions : List (Action ι)) : ι → Document := actions.foldl (fun ds a => (perform ds a).2) fun _ => empty

end DocStore.Document
