import DocStore.Collection.Finding

/-!
# Stores

A store registers collections by name under one configuration. Every collection it ever made has a cell of its own, and
a handle is the place of that cell: dropping a name takes it out of the registry and leaves the cell to the handles that
point at it, and the next use of the name makes an empty collection in a new cell.
-/

namespace DocStore

/-- The place of a collection in a store. -/
structure Handle where
  index : Nat
  deriving DecidableEq

/-- Collections by name under one configuration, with the cells of all collections ever made. -/
structure Store where
  config : Config
  registry : List (String × Handle)
  cells : List Collection

namespace Store

/-! ## Opening -/

/-- The store without collections under a configuration, which is frozen. -/
def ofConfig (config : Config) : Store := ⟨config.freeze, [], []⟩

/-- The store with the given settings, the later ones replacing the earlier ones. -/
def openWith (settings : List Setting) : Except StoreError Store := do
  return ofConfig (← Config.setAll {} settings)

/-- Changes a setting of the configuration, if it lets itself be changed. -/
def configure (s : Store) (setting : Setting) : Except StoreError Unit × Store :=
  match s.config.set setting with
  | .error e => (.error e, s)
  | .ok config => (.ok (), { s with config := config })

/-! ## Names -/

/-- The collection registered under a name, which is made if there is none. -/
def collection (s : Store) (name : String) : Handle × Store :=
  match s.registry.lookup name with
  | some h => (h, s)
  | none =>
    let h : Handle := ⟨s.cells.length⟩
    (h, { s with registry := setEntry name h s.registry, cells := s.cells ++ [.empty name s.config] })

/-- Whether a collection is registered under a name. -/
def hasCollection (s : Store) (name : String) : Bool := (s.registry.lookup name).isSome

/-- The registered names in increasing order. -/
def collectionNames (s : Store) : List String := s.registry.map (·.1)

/-- Whether a name was registered, and the store without it. -/
def dropCollection (s : Store) (name : String) : Bool × Store :=
  (s.hasCollection name, { s with registry := eraseEntry name s.registry })

/-! ## Cells -/

/-- The collection at a handle; a place without a cell counts as empty. -/
def cell (s : Store) (h : Handle) : Collection := s.cells.getD h.index (.empty "" s.config)

/-- Does something with the collection at a handle and keeps what becomes of it. -/
def update {α : Type} (s : Store) (h : Handle) (f : Collection → α × Collection) : α × Store :=
  let (a, c) := f (s.cell h)
  (a, { s with cells := s.cells.set h.index c })

/-! ## Queries -/

/-- The answers of a query in the collection that it names. -/
def query (s : Store) (text : String) (params : Document) : Except StoreError (List Document) × Store :=
  match Query.parse text s.config.separator with
  | .error e => (.error (.badSyntax e), s)
  | .ok q =>
    let (h, s) := s.collection q.collection
    ((s.cell h).find text params, s)

end Store
end DocStore
