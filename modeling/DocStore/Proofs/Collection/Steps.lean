import DocStore.Collection.Action
import DocStore.Proofs.Config
import Mathlib.Logic.Relation

/-!
# The steps that actions are made of

What a single action can do is said once for each, the reason of a failure included (`upsert_cases`, `addIndex_cases`,
`removeIndex_cases`). Whatever is asked of a collection, it changes by steps of four kinds: a document that passed its
checks is written, a stored document is removed, an index is created, an index is dropped (`Step`). Every action is a
sequence of such steps, an empty one for a read and for what fails (`steps_perform`). A collection is reachable when a run
of actions leads to it from an empty one under settings that a store accepts (`Reachable`), so what holds of empty
collections and is kept by every step holds of all of them (`Reachable.induction`).
-/

namespace DocStore.Collection

variable {c c' : Collection} {key : String}

/-! ## What an action can do -/

/-- An upsert is refused and changes nothing, or it writes the document with its stamp under the key of the given one. -/
theorem upsert_cases (c : Collection) (now : Int64) (d : Document) :
    (∃ e, (d.key = .error e ∨ ∃ key, d.key = .ok key ∧
        Index.checkWrite c.separator key (c.stamped now d) c.indexes = .error e) ∧ c.upsert now d = (.error e, c)) ∨
      ∃ key, d.key = .ok key ∧ Index.checkWrite c.separator key (c.stamped now d) c.indexes = .ok () ∧
        c.upsert now d = (.ok (c.stamped now d), (c.advance now).write key (c.stamped now d)) := by
  unfold upsert
  cases hkey : d.key with
  | error e => exact .inl ⟨e, .inl rfl, rfl⟩
  | ok key =>
    dsimp only
    cases hcheck : Index.checkWrite c.separator key (c.stamped now d) c.indexes with
    | error e => exact .inl ⟨e, .inr ⟨key, rfl, hcheck⟩, rfl⟩
    | ok _ => exact .inr ⟨key, rfl, hcheck, rfl⟩

/-- What is not stored is not removed. -/
theorem remove_of_get?_eq_none (h : c.get? key = none) : c.remove key = (none, c) := by
  unfold remove
  rw [h]

/-- A stored document is taken out of the documents and of every index. -/
theorem remove_of_get?_eq_some {d : Document} (h : c.get? key = some d) :
    c.remove key = (some d, { c with
      documents := removeEntry key c.documents
      indexes := c.indexes.map (·.remove c.separator key d) }) := by
  unfold remove
  rw [h]

/-- Creating an index fails and changes nothing, or it changes the indexes and nothing else. -/
theorem addIndex_cases (c : Collection) (names : List String) (unique : Bool) :
    (∃ e, (FieldList.ofNames names = .error e ∨ ∃ fields, FieldList.ofNames names = .ok fields ∧
        Index.create c.separator c.documents ⟨fields, unique, c.name⟩ c.indexes = .error e) ∧
        c.addIndex names unique = (.error e, c)) ∨
      ∃ fields ixs, FieldList.ofNames names = .ok fields ∧
        Index.create c.separator c.documents ⟨fields, unique, c.name⟩ c.indexes = .ok ixs ∧
        c.addIndex names unique = (.ok (), { c with indexes := ixs }) := by
  unfold addIndex
  cases FieldList.ofNames names with
  | error e => exact .inl ⟨e, .inl rfl, rfl⟩
  | ok fields =>
    dsimp only
    cases hcreate : Index.create c.separator c.documents ⟨fields, unique, c.name⟩ c.indexes with
    | error e => exact .inl ⟨e, .inr ⟨fields, rfl, hcreate⟩, rfl⟩
    | ok ixs => exact .inr ⟨fields, ixs, rfl, hcreate, rfl⟩

/-- Dropping an index fails and changes nothing, or it changes the indexes and nothing else. -/
theorem removeIndex_cases (c : Collection) (names : List String) :
    (∃ e, (FieldList.ofNames names = .error e ∨ ∃ fields, FieldList.ofNames names = .ok fields ∧
        Index.drop fields c.indexes = .error e) ∧ c.removeIndex names = (.error e, c)) ∨
      ∃ fields ixs, FieldList.ofNames names = .ok fields ∧ Index.drop fields c.indexes = .ok ixs ∧
        c.removeIndex names = (.ok (), { c with indexes := ixs }) := by
  unfold removeIndex
  cases FieldList.ofNames names with
  | error e => exact .inl ⟨e, .inl rfl, rfl⟩
  | ok fields =>
    dsimp only
    cases hdrop : Index.drop fields c.indexes with
    | error e => exact .inl ⟨e, .inr ⟨fields, rfl, hdrop⟩, rfl⟩
    | ok ixs => exact .inr ⟨fields, ixs, rfl, hdrop, rfl⟩

/-! ## Steps -/

/-- One change of a collection. -/
inductive Step : Collection → Collection → Prop
  | write {c : Collection} {now : Int64} {d : Document} {key : String} : d.key = .ok key →
      Index.checkWrite c.separator key (c.stamped now d) c.indexes = .ok () →
      Step c ((c.advance now).write key (c.stamped now d))
  | remove {c : Collection} {key : String} {d : Document} : c.get? key = some d → Step c (c.remove key).2
  | create {c : Collection} {fields : FieldList} {unique : Bool} {ixs : List Index} :
      Index.create c.separator c.documents ⟨fields, unique, c.name⟩ c.indexes = .ok ixs →
      Step c { c with indexes := ixs }
  | drop {c : Collection} {fields : FieldList} {ixs : List Index} :
      Index.drop fields c.indexes = .ok ixs → Step c { c with indexes := ixs }

abbrev Steps : Collection → Collection → Prop := Relation.ReflTransGen Step

/-! ## Actions are steps -/

theorem steps_upsert (c : Collection) (now : Int64) (d : Document) : Steps c (c.upsert now d).2 := by
  rcases c.upsert_cases now d with ⟨e, -, heq⟩ | ⟨key, hkey, hcheck, heq⟩
  · rw [heq]
  · rw [heq]
    exact .single (.write hkey hcheck)

theorem steps_remove (c : Collection) (key : String) : Steps c (c.remove key).2 := by
  cases h : c.get? key with
  | none => rw [remove_of_get?_eq_none h]
  | some d => exact .single (.remove h)

theorem steps_delete (c : Collection) (key : String) : Steps c (c.delete key).2 := by
  have h := steps_remove c key
  unfold delete
  split
  · next he => rw [he] at h; exact h
  · next he => rw [he] at h; exact h

theorem steps_removeKeys (keys : List String) : ∀ c : Collection, Steps c (c.removeKeys keys).2 := by
  induction keys with
  | nil => exact fun _ => .refl
  | cons key keys ih => exact fun c => (steps_remove c key).trans (ih (c.remove key).2)

theorem steps_removeQuery (c : Collection) (text : String) (params : Document) :
    Steps c (c.removeQuery text params).2 := by
  unfold removeQuery
  split
  · exact .refl
  · exact steps_removeKeys _ c

theorem steps_removeOneEqual (c : Collection) (predicate : Document) : Steps c (c.removeOneEqual predicate).2 := by
  unfold removeOneEqual
  split
  · exact .refl
  · next key _ =>
    have h := steps_remove c key
    split
    · next he => rw [he] at h; exact h
    · next he => rw [he] at h; exact h

theorem steps_addIndex (c : Collection) (names : List String) (unique : Bool) : Steps c (c.addIndex names unique).2 := by
  rcases c.addIndex_cases names unique with ⟨e, -, heq⟩ | ⟨fields, ixs, -, hcreate, heq⟩
  · rw [heq]
  · rw [heq]
    exact .single (.create hcreate)

theorem steps_removeIndex (c : Collection) (names : List String) : Steps c (c.removeIndex names).2 := by
  rcases c.removeIndex_cases names with ⟨e, -, heq⟩ | ⟨fields, ixs, -, hdrop, heq⟩
  · rw [heq]
  · rw [heq]
    exact .single (.drop hdrop)

/-- **Every action is a sequence of steps.** -/
theorem steps_perform [Like.Engine] (c : Collection) (a : Action) : Steps c (c.perform a).2 := by
  cases a with
  | upsert now d => exact steps_upsert c now d
  | delete key => exact steps_delete c key
  | addIndex names unique => exact steps_addIndex c names unique
  | removeIndex names => exact steps_removeIndex c names
  | removeQuery text params => exact steps_removeQuery c text params
  | removeEqual p => exact steps_removeKeys _ c
  | removeOneEqual p => exact steps_removeOneEqual c p
  | _ => exact .refl

theorem steps_run [Like.Engine] (actions : List Action) : ∀ c : Collection, Steps c (c.run actions) := by
  induction actions with
  | nil => exact fun _ => .refl
  | cons a as ih => exact fun c => (steps_perform c a).trans (ih (c.perform a).2)

/-! ## Names and configurations -/

/-- A step changes neither the name nor the configuration. -/
theorem Step.name_config_eq (h : Step c c') : c'.name = c.name ∧ c'.config = c.config := by
  cases h with
  | write _ _ =>
    unfold advance
    split <;> exact ⟨rfl, rfl⟩
  | remove hd =>
    rw [remove_of_get?_eq_some hd]
    exact ⟨rfl, rfl⟩
  | create _ => exact ⟨rfl, rfl⟩
  | drop _ => exact ⟨rfl, rfl⟩

theorem Steps.name_config_eq (h : Steps c c') : c'.name = c.name ∧ c'.config = c.config := by
  induction h with
  | refl => exact ⟨rfl, rfl⟩
  | tail _ hs ih => exact ⟨hs.name_config_eq.1.trans ih.1, hs.name_config_eq.2.trans ih.2⟩

theorem name_perform [Like.Engine] (c : Collection) (a : Action) : (c.perform a).2.name = c.name :=
  (steps_perform c a).name_config_eq.1

theorem config_perform [Like.Engine] (c : Collection) (a : Action) : (c.perform a).2.config = c.config :=
  (steps_perform c a).name_config_eq.2

theorem name_run [Like.Engine] (c : Collection) (actions : List Action) : (c.run actions).name = c.name :=
  (steps_run actions c).name_config_eq.1

theorem config_run [Like.Engine] (c : Collection) (actions : List Action) : (c.run actions).config = c.config :=
  (steps_run actions c).name_config_eq.2

/-! ## Reachable collections -/

/-- The collections that runs of actions lead to, each from an empty one under settings that a store accepts. -/
def Reachable [Like.Engine] (c : Collection) : Prop :=
  ∃ name settings config actions, Config.setAll {} settings = .ok config ∧ c = (empty name config.freeze).run actions

/-- What holds of empty collections and is kept by every step holds of reachable collections. -/
theorem Reachable.induction [Like.Engine] {P : Collection → Prop} (h : c.Reachable)
    (empty : ∀ name config, config.timestampField ≠ some keyField → P (empty name config))
    (step : ∀ c c', P c → Step c c' → P c') : P c := by
  obtain ⟨name, settings, config, actions, hset, rfl⟩ := h
  have hc := Config.timestampField_ne_keyField hset
  have hsteps := steps_run actions (Collection.empty name config.freeze)
  generalize (Collection.empty name config.freeze).run actions = c at hsteps ⊢
  induction hsteps with
  | refl => exact empty name config.freeze hc
  | tail _ hs ih => exact step _ _ ih hs

theorem Reachable.perform [Like.Engine] (h : c.Reachable) (a : Action) : (c.perform a).2.Reachable := by
  obtain ⟨name, settings, config, actions, hset, rfl⟩ := h
  refine ⟨name, settings, config, actions ++ [a], hset, ?_⟩
  unfold run
  rw [List.foldl_append]
  rfl

/-! ## A reachable collection -/

/-- A run with timestamps, two indexes, inner documents, equal numbers of both kinds and a missing field. -/
def sampleActions : List Action :=
  [.upsert 5 (.ofList [("_key", .string "a"), ("size", .document [("w", .int 1)]), ("n", .float ⟨0x4000000000000000⟩)]),
   .addIndex ["size.w", "n"] false,
   .upsert 3 (.ofList [("_key", .string "b"), ("size.w", .int 1), ("n", .int 2)]),
   .upsert 4 (.ofList [("_key", .string "c"), ("n", .int 2)]),
   .delete "b",
   .addIndex ["n"] false,
   .upsert 4 (.ofList [("_key", .string "b"), ("size.w", .float ⟨0x3FF0000000000000⟩), ("n", .int 2)])]

open Like.Sized

/-- The collection after the run. -/
def sample : Collection := (empty "sample" (Config.freeze { timestampField := some "at" })).run sampleActions

theorem reachable_sample : sample.Reachable :=
  ⟨"sample", [.timestampField "at"], { timestampField := some "at" }, sampleActions, rfl, rfl⟩

end DocStore.Collection
