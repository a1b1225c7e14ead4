import DocStore.Proofs.Collection.Refusals
import DocStore.Store.Action

/-!
# What fails changes nothing

An operation that fails leaves the collection as it was (`KeepsOnFailure`, `keepsOnFailure_perform`), so the actions that
fail can be left out of a run (`run_successes`). Main statement: `failure_changes_nothing`.
-/

namespace DocStore

namespace Collection

variable {c : Collection}

/-! ## Operations -/

/-- What fails leaves a collection as it was. -/
def KeepsOnFailure {α : Type} (c : Collection) (x : Except StoreError α × Collection) : Prop := Fails x.1 → x.2 = c

theorem keepsOnFailure_ok {α : Type} {a : α} {c' : Collection} : c.KeepsOnFailure (.ok a, c') :=
  fun h => absurd h not_fails_ok

theorem keepsOnFailure_self {α : Type} {x : Except StoreError α} : c.KeepsOnFailure (x, c) := fun _ => rfl

theorem KeepsOnFailure.map {α β : Type} {x : Except StoreError α × Collection} {f : α → β} (h : c.KeepsOnFailure x) :
    c.KeepsOnFailure (x.map (·.map f) id) :=
  fun hx => h (fails_map.mp hx)

theorem keepsOnFailure_upsert (now : Int64) (d : Document) : c.KeepsOnFailure (c.upsert now d) := by
  rcases c.upsert_cases now d with ⟨e, -, heq⟩ | ⟨key, -, -, heq⟩
  · rw [heq]
    exact keepsOnFailure_self
  · rw [heq]
    exact keepsOnFailure_ok

theorem keepsOnFailure_delete (key : String) : c.KeepsOnFailure (c.delete key) := by
  unfold delete
  cases hget : c.get? key with
  | none =>
    rw [remove_of_get?_eq_none hget]
    exact keepsOnFailure_self
  | some d =>
    rw [remove_of_get?_eq_some hget]
    exact keepsOnFailure_ok

theorem keepsOnFailure_addIndex (names : List String) (unique : Bool) :
    c.KeepsOnFailure (c.addIndex names unique) := by
  rcases c.addIndex_cases names unique with ⟨e, -, heq⟩ | ⟨fields, ixs, -, -, heq⟩
  · rw [heq]
    exact keepsOnFailure_self
  · rw [heq]
    exact keepsOnFailure_ok

theorem keepsOnFailure_removeIndex (names : List String) : c.KeepsOnFailure (c.removeIndex names) := by
  rcases c.removeIndex_cases names with ⟨e, -, heq⟩ | ⟨fields, ixs, -, -, heq⟩
  · rw [heq]
    exact keepsOnFailure_self
  · rw [heq]
    exact keepsOnFailure_ok

theorem keepsOnFailure_removeQuery (text : String) (params : Document) :
    c.KeepsOnFailure (c.removeQuery text params) := by
  unfold removeQuery
  split
  · exact keepsOnFailure_self
  · exact keepsOnFailure_ok

theorem keepsOnFailure_removeOneEqual (predicate : Document) : c.KeepsOnFailure (c.removeOneEqual predicate) := by
  unfold removeOneEqual
  split
  · exact keepsOnFailure_self
  · next key _ =>
    cases hget : c.get? key with
    | none =>
      rw [remove_of_get?_eq_none hget]
      exact keepsOnFailure_self
    | some d =>
      rw [remove_of_get?_eq_some hget]
      exact keepsOnFailure_ok

/-- An action that fails leaves the collection as it was. -/
theorem keepsOnFailure_perform [Like.Engine] (a : Action) : c.KeepsOnFailure (c.perform a) := by
  cases a with
  | upsert now d => exact (keepsOnFailure_upsert now d).map
  | delete key => exact (keepsOnFailure_delete key).map
  | addIndex names unique => exact (keepsOnFailure_addIndex names unique).map
  | removeIndex names => exact (keepsOnFailure_removeIndex names).map
  | removeQuery text params => exact (keepsOnFailure_removeQuery text params).map
  | removeEqual predicate => exact keepsOnFailure_ok
  | removeOneEqual predicate => exact (keepsOnFailure_removeOneEqual predicate).map
  | _ => exact keepsOnFailure_self

/-! ## Runs -/

/-- The actions of a run that do not fail. -/
def successes [Like.Engine] (c : Collection) : List Action → List Action
  | [] => []
  | a :: actions =>
    match (c.perform a).1 with
    | .ok _ => a :: (c.perform a).2.successes actions
    | .error _ => (c.perform a).2.successes actions

/-- Actions that fail can be left out of a run. -/
theorem run_successes [Like.Engine] (actions : List Action) :
    ∀ c : Collection, c.run (c.successes actions) = c.run actions := by
  induction actions with
  | nil => exact fun _ => rfl
  | cons a actions ih =>
    intro c
    show c.run (c.successes (a :: actions)) = (c.perform a).2.run actions
    rw [← ih, successes]
    cases h : (c.perform a).1 with
    | ok reply => rfl
    | error e =>
      have hself := keepsOnFailure_perform a ⟨e, h⟩
      simp only [hself]

end Collection

/-- To do something with a collection that leaves it as it was leaves the store as it was. -/
theorem Store.update_eq_self {α : Type} {s : Store} {handle : Handle} {f : Collection → α × Collection}
    (h : (f (s.cell handle)).2 = s.cell handle) : (s.update handle f).2 = s := by
  show { s with cells := s.cells.set handle.index (f (s.cell handle)).2 } = s
  rw [h]
  congr 1
  unfold cell
  by_cases hi : handle.index < s.cells.length
  · rw [List.getD_eq_getElem?_getD, List.getElem?_eq_getElem hi, Option.getD_some, List.set_getElem_self]
  · exact List.set_eq_of_length_le (Nat.le_of_not_lt hi)

open Collection

/-- **What fails changes nothing.** In a reachable collection an action fails exactly when it is one that the collection
refuses, and then the collection is as it was: its documents in their order, its indexes in theirs with all of their
entries, and the last timestamp. So a run ends where it ends without the actions that fail, and in a store no other
collection is touched either. -/
theorem failure_changes_nothing [Like.Engine] {c : Collection} (h : c.Reachable) :
    (∀ a, (∃ e, (c.perform a).1 = .error e) ↔ c.Refuses a) ∧
    (∀ a e, (c.perform a).1 = .error e → (c.perform a).2 = c) ∧
    (∀ actions, c.run (c.successes actions) = c.run actions) ∧
    ∀ (s : Store) handle a e, (s.perform (.on handle a)).1 = .error e → (s.perform (.on handle a)).2 = s := by
  refine ⟨h.consistent.fails_perform_iff, fun a e he => keepsOnFailure_perform a ⟨e, he⟩, fun actions =>
    run_successes actions c, fun s handle a e he => ?_⟩
  have hfails : Fails ((s.cell handle).perform a).1 := fails_map.mp ⟨e, he⟩
  exact Store.update_eq_self (f := (·.perform a)) (keepsOnFailure_perform a hfails)

open Like.Sized

/-- The timestamps of the sample are all the same, which is found out after the first document was taken in. A text of a
million characters is no pattern that could be counted. -/
theorem failure_changes_nothing_sample :
    (sample.Refuses (.addIndex ["at"] true) ∧ (sample.perform (.addIndex ["at"] true)).2 = sample) ∧
    ∃ e, (sample.perform (.countLike (.ofList [("n", .string longText)]))).1 = .error e ∧
      (sample.perform (.countLike (.ofList [("n", .string longText)]))).2 = sample := by
  obtain ⟨hrefuses, hkeeps, -, -⟩ := failure_changes_nothing reachable_sample
  constructor
  · have heval : (sample.perform (.addIndex ["at"] true)).1.toOption.isNone = true := by decide +kernel
    cases he : (sample.perform (.addIndex ["at"] true)).1 with
    | ok reply =>
      rw [he] at heval
      cases heval
    | error e => exact ⟨(hrefuses _).mp ⟨e, he⟩, hkeeps _ e he⟩
  · have hrefused : sample.Refuses (.countLike (.ofList [("n", .string longText)])) :=
      ⟨_, List.mem_singleton.mpr rfl, _, refused_longText "n"⟩
    obtain ⟨e, he⟩ := (hrefuses _).mpr hrefused
    exact ⟨e, he, hkeeps _ e he⟩

end DocStore
