import DocStore.Proofs.Store.Iteration
import Mathlib.Data.List.GetD

/-!
# What events answer and change

What an action can make of a store is said once (`Store.becomes_perform`). It changes a collection only through the
handle of its cell (`Store.cell_perform`), so a collection becomes what the actions on its handle make of it, whatever
else happens in between (`Store.cell_run`). Every event of a session has an answer (`Session.answer`). Iterations leave
the store alone, so the store after some events is the one after the actions among them (`Session.store_run`), and what
an iteration gives comes down to its own steps and its collection (`Session.given_keys`).
-/

namespace DocStore

namespace Store

variable {s : Store} {h : Handle}

/-! ## Cells -/

/-- What an action asks of the collection at a handle, if it is about that one. -/
def Action.on? (h : Handle) : Action → Option Collection.Action
  | .on h' b => if h' = h then some b else none
  | _ => none

/-- The actions on the collection at a handle, in their order. -/
def actionsOn (h : Handle) (actions : List Action) : List Collection.Action := actions.filterMap (·.on? h)

/-- An action refers to a name: it asks for the collection of that name or poses a query over it. -/
def Action.RefersTo (separator name : String) : Action → Prop
  | .collection n => n = name
  | .query text _ => ∃ q, Query.parse text separator = .ok q ∧ q.collection = name
  | _ => False

theorem Action.RefersTo.on?_eq_none {a : Action} {separator name : String} (hr : a.RefersTo separator name)
    (h : Handle) : a.on? h = none := by
  cases a with
  | on h' b => exact hr.elim
  | _ => rfl

/-- An action that refers to a name does nothing to a store but ask for the collection of that name. -/
theorem perform_snd_of_refersTo [Like.Engine] {a : Action} {name : String} (hr : a.RefersTo s.config.separator name) :
    (s.perform a).2 = (s.collection name).2 := by
  cases a with
  | collection n => exact congrArg (fun n => (s.collection n).2) hr
  | query text params =>
    obtain ⟨q, hparse, rfl⟩ := hr
    show (s.query text params).2 = _
    unfold Store.query
    rw [hparse]
  | _ => exact hr.elim

/-- What actions can make of a store: they ask for a collection, drop a name, change the configuration or the collection
at a handle, or leave the store as it is. -/
inductive Becomes [Like.Engine] (s : Store) : Action → Store → Prop
  | refer {a : Action} {name : String} : a.RefersTo s.config.separator name → Becomes s a (s.collection name).2
  | drop (name : String) : Becomes s (.dropCollection name) (s.dropCollection name).2
  | configure (setting : Setting) {config : Config} : s.config.set setting = .ok config →
      Becomes s (.configure setting) { s with config := config }
  | on (h : Handle) (b : Collection.Action) : Becomes s (.on h b) (s.update h (·.perform b)).2
  | same {a : Action} : (∀ name, ¬ a.RefersTo s.config.separator name) → (∀ h, a.on? h = none) → Becomes s a s

theorem becomes_perform [Like.Engine] (s : Store) (a : Action) : s.Becomes a (s.perform a).2 := by
  cases a with
  | collection name => exact .refer rfl
  | hasCollection name => exact .same (fun _ => id) fun _ => rfl
  | collectionNames => exact .same (fun _ => id) fun _ => rfl
  | dropCollection name => exact .drop name
  | configure setting =>
    show s.Becomes _ (s.configure setting).2
    unfold Store.configure
    split
    · exact .same (fun _ => id) fun _ => rfl
    · next config hset => exact .configure setting hset
  | query text params =>
    cases hparse : Query.parse text s.config.separator with
    | error e =>
      show s.Becomes _ (s.query text params).2
      unfold Store.query
      rw [hparse]
      refine .same ?_ fun _ => rfl
      rintro name ⟨q, hq, -⟩
      rw [hparse] at hq
      cases hq
    | ok q =>
      have hr : (Action.query text params).RefersTo s.config.separator q.collection := ⟨q, hparse, rfl⟩
      rw [perform_snd_of_refersTo hr]
      exact .refer hr
  | on h b => exact .on h b

theorem cell_eq_getElem (hlt : h.index < s.cells.length) : s.cell h = s.cells[h.index] := List.getD_eq_getElem _ _ hlt

theorem cell_collection (hlt : h.index < s.cells.length) (name : String) : (s.collection name).2.cell h = s.cell h := by
  unfold Store.collection
  split
  · rfl
  · exact List.getD_append _ _ _ _ hlt

theorem cell_update {α : Type} (hlt : h.index < s.cells.length) (h' : Handle) (f : Collection → α × Collection) :
    (s.update h' f).2.cell h = if h' = h then (f (s.cell h)).2 else s.cell h := by
  have hset : h.index < (s.cells.set h'.index (f (s.cell h')).2).length := by rwa [List.length_set]
  have hcell : (s.update h' f).2.cell h = (s.cells.set h'.index (f (s.cell h')).2)[h.index] := cell_eq_getElem hset
  rw [hcell]
  by_cases he : h' = h
  · subst he
    rw [if_pos rfl, List.getElem_set_self]
  · have hne : h'.index ≠ h.index := fun hi => he (by cases h; cases h'; exact congrArg Handle.mk hi)
    rw [if_neg he, List.getElem_set_ne hne, cell_eq_getElem hlt]

/-- An action changes a collection only through its handle. -/
theorem cell_perform [Like.Engine] (hlt : h.index < s.cells.length) (a : Action) :
    (s.perform a).2.cell h = ((a.on? h).elim (s.cell h) fun b => ((s.cell h).perform b).2) := by
  have hbecomes := becomes_perform s a
  generalize (s.perform a).2 = t at hbecomes ⊢
  cases hbecomes with
  | @refer a name hr =>
    rw [hr.on?_eq_none]
    exact cell_collection hlt name
  | drop name => rfl
  | configure setting _ =>
    show s.cells.getD h.index _ = s.cells.getD h.index _
    rw [List.getD_eq_getElem _ _ hlt, List.getD_eq_getElem _ _ hlt]
  | on h' b =>
    rw [cell_update hlt, Action.on?]
    split <;> rfl
  | same _ hon =>
    rw [hon]
    rfl

theorem length_cells_collection (s : Store) (name : String) : s.cells.length ≤ (s.collection name).2.cells.length := by
  unfold Store.collection
  split
  · exact Nat.le_refl _
  · rw [List.length_append]
    exact Nat.le_add_right ..

/-- No action takes a cell away. -/
theorem length_cells_perform [Like.Engine] (s : Store) (a : Action) :
    s.cells.length ≤ (s.perform a).2.cells.length := by
  have hbecomes := becomes_perform s a
  generalize (s.perform a).2 = t at hbecomes ⊢
  cases hbecomes with
  | refer _ => exact length_cells_collection s _
  | on h' b => exact Nat.le_of_eq List.length_set.symm
  | _ => exact Nat.le_refl _

theorem length_cells_run [Like.Engine] (actions : List Action) :
    ∀ s : Store, s.cells.length ≤ (s.run actions).cells.length := by
  induction actions with
  | nil => exact fun s => Nat.le_refl _
  | cons a actions ih => exact fun s => Nat.le_trans (length_cells_perform s a) (ih _)

/-- A collection becomes what the actions on its handle make of it. -/
theorem cell_run [Like.Engine] (hlt : h.index < s.cells.length) (actions : List Action) :
    (s.run actions).cell h = (s.cell h).run (actionsOn h actions) := by
  induction actions generalizing s with
  | nil => rfl
  | cons a actions ih =>
    show ((s.perform a).2.run actions).cell h = _
    rw [ih (Nat.lt_of_lt_of_le hlt (length_cells_perform s a)), cell_perform hlt, actionsOn, actionsOn]
    cases ha : a.on? h with
    | none => rw [List.filterMap_cons_none ha, Option.elim_none]
    | some b =>
      rw [List.filterMap_cons_some ha, Option.elim_some]
      rfl

end Store

namespace Session

variable {σ : Session} {i : Nat}

/-! ## Answers -/

/-- What an event answers: an action its reply, a step of an iteration the next document. -/
inductive Answer where
  | begun
  | reply (r : Except StoreError Store.Reply)
  | next (d? : Option Document)

/-- The answer of an event. -/
def answer [Like.Engine] (σ : Session) : Event → Answer
  | .act a => .reply (σ.store.perform a).1
  | .beginEqual _ _ => .begun
  | .beginScan _ => .begun
  | .next i => .next (σ.upcoming? i)

/-! ## Events and iterations -/

/-- An event is a step of an iteration. -/
def Event.isNext (i : Nat) : Event → Bool
  | .next j => j == i
  | _ => false

/-- An event is a step of an iteration, or leaves it where it is. -/
theorem cursor_perform [Like.Engine] {c : Cursor} (hi : σ.cursors[i]? = some c) (e : Event) :
    (e = .next i ∧ (σ.perform e).cursors[i]? = some (c.next σ.store).2 ∧ σ.gives i e = (c.next σ.store).1.toList) ∨
    (e.isNext i = false ∧ (σ.perform e).cursors[i]? = some c ∧ σ.gives i e = []) := by
  have hlt : i < σ.cursors.length := (List.getElem?_eq_some_iff.mp hi).1
  cases e with
  | act a => exact Or.inr ⟨rfl, hi, rfl⟩
  | beginEqual h predicate => exact Or.inr ⟨rfl, (List.getElem?_append_left hlt).trans hi, rfl⟩
  | beginScan h => exact Or.inr ⟨rfl, (List.getElem?_append_left hlt).trans hi, rfl⟩
  | next j =>
    by_cases hj : j = i
    · subst hj
      refine Or.inl ⟨rfl, ?_, ?_⟩
      · show (σ.cursors.modify j fun c => (c.next σ.store).2)[j]? = _
        rw [List.getElem?_modify_eq, hi]
        rfl
      · rw [gives, if_pos rfl, upcoming?, hi]
        rfl
    · refine Or.inr ⟨beq_false_of_ne hj, ?_, if_neg hj⟩
      show (σ.cursors.modify j fun c => (c.next σ.store).2)[i]? = _
      rw [List.getElem?_modify_ne _ _ hj, hi]

/-- The action that an event is, if it is one. -/
def Event.action? : Event → Option Store.Action
  | .act a => some a
  | _ => none

/-- Iterations leave the store alone. -/
theorem store_run [Like.Engine] (σ : Session) (events : List Event) :
    (σ.run events).store = σ.store.run (events.filterMap Event.action?) := by
  induction events generalizing σ with
  | nil => rfl
  | cons e es ih =>
    show ((σ.perform e).run es).store = _
    rw [ih]
    cases e <;> rfl

end Session

/-! ## Courses of iterations -/

/-- What an iteration over keys gives when its steps, written as none, alternate with actions on its collection. -/
def Collection.course [Like.Engine] : Collection → List String → List (Option Collection.Action) → List Document
  | _, _, [] => []
  | c, left, none :: rest => (c.nextOf left).1.toList ++ c.course (c.nextOf left).2 rest
  | c, left, some b :: rest => (c.perform b).2.course left rest

namespace Session

variable {σ : Session} {i : Nat} {h : Handle} {left : List String}

/-- An event as one in the course of an iteration over the collection at a handle, if it is one. -/
def Event.course? (h : Handle) (i : Nat) : Event → Option (Option Collection.Action)
  | .act a => (a.on? h).map some
  | .next j => if j = i then some none else none
  | _ => none

/-- An event takes an iteration one step of its course further, or leaves it where it is. -/
theorem keys_perform [Like.Engine] (hlt : h.index < σ.store.cells.length) (hi : σ.cursors[i]? = some (.keys h left))
    (e : Event) :
    ∃ left', (σ.perform e).cursors[i]? = some (.keys h left') ∧
      ∀ rest, (σ.store.cell h).course left ((e.course? h i).toList ++ rest) =
        σ.gives i e ++ ((σ.perform e).store.cell h).course left' rest := by
  rcases cursor_perform hi e with ⟨rfl, hnext, hgives⟩ | ⟨hother, hsame, hgives⟩
  · refine ⟨((σ.store.cell h).nextOf left).2, hnext, fun rest => ?_⟩
    rw [hgives, Event.course?, if_pos rfl]
    rfl
  · refine ⟨left, hsame, fun rest => ?_⟩
    rw [hgives, List.nil_append]
    cases e with
    | act a =>
      show _ = ((σ.store.perform a).2.cell h).course left rest
      rw [Store.cell_perform hlt, Event.course?]
      cases a.on? h <;> rfl
    | next j =>
      rw [Event.course?, if_neg (ne_of_beq_false hother)]
      rfl
    | _ => rfl

/-- What an iteration gives depends on its collection and its own steps only. -/
theorem given_keys [Like.Engine] (hlt : h.index < σ.store.cells.length) (hi : σ.cursors[i]? = some (.keys h left))
    (events : List Event) :
    given i σ events = (σ.store.cell h).course left (events.filterMap (Event.course? h i)) := by
  induction events generalizing σ left with
  | nil => rfl
  | cons e es ih =>
    obtain ⟨left', hi', hstep⟩ := keys_perform hlt hi e
    have hlt' : h.index < (σ.perform e).store.cells.length := by
      cases e with
      | act a => exact Nat.lt_of_lt_of_le hlt (Store.length_cells_perform σ.store a)
      | _ => exact hlt
    have hcons : (e :: es).filterMap (Event.course? h i) =
        (e.course? h i).toList ++ es.filterMap (Event.course? h i) := by
      rw [List.filterMap_cons]
      cases e.course? h i <;> rfl
    rw [given, ih hlt' hi', hcons, hstep]

end Session
end DocStore
