import DocStore.Collection.Action
import DocStore.Store.Basic

/-!
# Actions on a store

Everything that can be asked of a store as one type, actions on the collection at a handle among them. `perform` is the
meaning of an action: the reply or the error, and the store afterwards. A run of a store is a list of actions performed
in order (`run`).
-/

namespace DocStore.Store

/-- Something asked of a store. -/
inductive Action where
  | collection (name : String)
  | hasCollection (name : String)
  | collectionNames
  | dropCollection (name : String)
  | configure (setting : Setting)
  | query (text : String) (params : Document)
  /-- Something asked of the collection at a handle. -/
  | on (h : Handle) (a : Collection.Action)

/-- What a store replies. -/
inductive Reply where
  | done
  | flag (b : Bool)
  | names (ns : List String)
  | handle (h : Handle)
  | documents (ds : List Document)
  /-- What the collection at a handle replies. -/
  | ofCollection (r : Collection.Reply)

/-- The reply to an action, or its error, with the store afterwards. -/
def perform [Like.Engine] (s : Store) : Action → Except StoreError Reply × Store
  | .collection name => (s.collection name).map (.ok ∘ .handle) id
  | .hasCollection name => (.ok (.flag (s.hasCollection name)), s)
  | .collectionNames => (.ok (.names s.collectionNames), s)
  | .dropCollection name => (s.dropCollection name).map (.ok ∘ .flag) id
  | .configure setting => (s.configure setting).map (·.map fun _ => .done) id
  | .query text params => (s.query text params).map (·.map .documents) id
  | .on h a => (s.update h (·.perform a)).map (·.map .ofCollection) id

/-- The store after some actions. -/
def run [Like.Engine] (s : Store) (actions : List Action) : Store := actions.foldl (fun s a => (s.perform a).2) s

end DocStore.Store
