import DocStore.Collection.Finding
import DocStore.Collection.Writing

/-!
# Actions on a collection

Everything that can be asked of a collection as one type, and the replies as another. `perform` is the meaning of an
action: the reply or the error, and the collection afterwards. A run of a collection is a list of actions performed in
order (`run`).
-/

namespace DocStore.Collection

/-- Something asked of a collection; a write says when it takes place. -/
inductive Action where
  | upsert (now : Int64) (d : Document)
  | get (key : String)
  | delete (key : String)
  | contains (key : String)
  | count
  | isEmpty
  | scan
  | addIndex (names : List String) (unique : Bool)
  | removeIndex (names : List String)
  | hasIndex (names : List String)
  | listIndexes
  | lookupEqual (names : List String) (vs : List Value)
  | find (text : String) (params : Document)
  | findOne (text : String) (params : Document)
  | countQuery (text : String) (params : Document)
  | removeQuery (text : String) (params : Document)
  | findEqual (predicate : Document)
  | findAllEqual (predicate : Document)
  | findEqualSorted (predicate : Document) (order : SortOrder) (fields : List String) (offset : Nat) (limit : Int)
  | findLikeSorted (predicate : Document) (order : SortOrder) (fields : List String) (offset : Nat) (limit : Int)
  | countEqual (predicate : Document)
  | countNotEqual (predicate : Document)
  | countLike (predicate : Document)
  | removeEqual (predicate : Document)
  | removeOneEqual (predicate : Document)

/-- What a collection replies. -/
inductive Reply where
  | done
  | flag (b : Bool)
  | count (n : Nat)
  | keys (ks : List String)
  | document (d : Document)
  | documents (ds : List Document)
  | indexes (ds : List IndexDescriptor)

/-- The reply to an action, or its error, with the collection afterwards. -/
def perform [Like.Engine] (c : Collection) : Action → Except StoreError Reply × Collection
  | .upsert now d => (c.upsert now d).map (·.map .document) id
  | .get key => ((c.get key).map .document, c)
  | .delete key => (c.delete key).map (·.map .document) id
  | .contains key => (.ok (.flag (c.contains key)), c)
  | .count => (.ok (.count c.count), c)
  | .isEmpty => (.ok (.flag c.isEmpty), c)
  | .scan => (.ok (.documents c.scan), c)
  | .addIndex names unique => (c.addIndex names unique).map (·.map fun _ => .done) id
  | .removeIndex names => (c.removeIndex names).map (·.map fun _ => .done) id
  | .hasIndex names => (.ok (.flag (c.hasIndex names)), c)
  | .listIndexes => (.ok (.indexes c.listIndexes), c)
  | .lookupEqual names vs => ((c.lookupEqual names vs).map .keys, c)
  | .find text params => ((c.find text params).map .documents, c)
  | .findOne text params => ((c.findOne text params).map .document, c)
  | .countQuery text params => ((c.countQuery text params).map .count, c)
  | .removeQuery text params => (c.removeQuery text params).map (·.map .documents) id
  | .findEqual p => ((c.findEqual p).map .document, c)
  | .findAllEqual p => (.ok (.documents (c.findAllEqual p)), c)
  | .findEqualSorted p order fields offset limit =>
    (.ok (.documents (c.findEqualSorted p order fields offset limit)), c)
  | .findLikeSorted p order fields offset limit =>
    ((c.findLikeSorted p order fields offset limit).map .documents, c)
  | .countEqual p => (.ok (.count (c.countEqual p)), c)
  | .countNotEqual p => (.ok (.count (c.countNotEqual p)), c)
  | .countLike p => ((c.countLike p).map .count, c)
  | .removeEqual p => (c.removeEqual p).map (.ok ∘ .documents) id
  | .removeOneEqual p => (c.removeOneEqual p).map (·.map .document) id

/-- The collection after some actions. -/
def run [Like.Engine] (c : Collection) (actions : List Action) : Collection :=
  actions.foldl (fun c a => (c.perform a).2) c

end DocStore.Collection
