import DocStore.Proofs.Collection.Iteration
import DocStore.Proofs.Store.Reachable
import DocStore.Store.Cursor

/-!
# Iterations among other actions

A session is a store with the iterations that were begun, and in its events steps of the iterations alternate with actions
on the store in any order. Whatever the events, an iteration over keys takes them from the front (`Session.delivers_run`),
so that it gives documents with some of the keys it began with, each as it is stored when its turn comes. An iteration
with a callback does the same when every call comes down to events, and then comes down to events itself, so callbacks may
iterate in turn. Main statement: `Session.iteration_exact`.
-/

namespace DocStore

/-- A store with the iterations begun on it, in the order of their beginnings. -/
structure Session where
  store : Store
  cursors : List Cursor

namespace Session

/-- Something that happens in a session. -/
inductive Event where
  | act (a : Store.Action)
  | beginEqual (h : Handle) (predicate : Document)
  | beginScan (h : Handle)
  /-- A step of an iteration. -/
  | next (i : Nat)

/-- The session after an event. -/
def perform [Like.Engine] (σ : Session) : Event → Session
  | .act a => { σ with store := (σ.store.perform a).2 }
  | .beginEqual h predicate => { σ with cursors := σ.cursors ++ [.ofEqual σ.store h predicate] }
  | .beginScan h => { σ with cursors := σ.cursors ++ [.ofScan σ.store h] }
  | .next i => { σ with cursors := σ.cursors.modify i fun c => (c.next σ.store).2 }

/-- The session after some events. -/
def run [Like.Engine] (σ : Session) (events : List Event) : Session := events.foldl perform σ

/-- The document that a step of an iteration gives, if it gives one. -/
def upcoming? (σ : Session) (i : Nat) : Option Document := (σ.cursors[i]?).bind fun c => (c.next σ.store).1

/-- What an event has an iteration give. -/
def gives (σ : Session) (i : Nat) : Event → List Document
  | .next j => if j = i then (σ.upcoming? i).toList else []
  | _ => []

/-- What an iteration gives in the course of some events. -/
def given [Like.Engine] (i : Nat) : Session → List Event → List Document
  | _, [] => []
  | σ, e :: es => σ.gives i e ++ given i (σ.perform e) es

variable {σ : Session} {i : Nat} {h : Handle} {left : List String}

theorem run_append [Like.Engine] (σ : Session) (es fs : List Event) : σ.run (es ++ fs) = (σ.run es).run fs :=
  List.foldl_append ..

/-! ## Events -/

theorem reachable_perform [Like.Engine] (hσ : σ.store.Reachable) (e : Event) : (σ.perform e).store.Reachable := by
  cases e with
  | act a => exact hσ.perform a
  | _ => exact hσ

theorem reachable_run [Like.Engine] (hσ : σ.store.Reachable) (events : List Event) :
    (σ.run events).store.Reachable := by
  induction events generalizing σ with
  | nil => exact hσ
  | cons e es ih => exact ih (reachable_perform hσ e)

/-- A step of an iteration over keys is one in the collection as it is. -/
theorem takes_next [Like.Engine] (hi : σ.cursors[i]? = some (.keys h left)) :
    ∃ left', (σ.store.cell h).Takes left (σ.upcoming? i) left' ∧
      (σ.perform (.next i)).cursors[i]? = some (.keys h left') := by
  have ht := Collection.takes_nextOf (σ.store.cell h) left
  have hup : σ.upcoming? i = ((σ.store.cell h).nextOf left).1 := by
    unfold upcoming?
    rw [hi]
    rfl
  refine ⟨_, hup ▸ ht, ?_⟩
  show (σ.cursors.modify i fun c => (c.next σ.store).2)[i]? = _
  rw [List.getElem?_modify_eq, hi]
  rfl

/-- Every event leaves an iteration over keys where it is or has it take a step. -/
theorem delivers_perform [Like.Engine] (hσ : σ.store.Reachable) (hi : σ.cursors[i]? = some (.keys h left)) (e : Event) :
    ∃ left', (σ.perform e).cursors[i]? = some (.keys h left') ∧ Collection.Delivers left (σ.gives i e) left' := by
  have hlt : i < σ.cursors.length := (List.getElem?_eq_some_iff.mp hi).1
  cases e with
  | act a => exact ⟨left, hi, .refl left⟩
  | beginEqual h' predicate => exact ⟨left, (List.getElem?_append_left hlt).trans hi, .refl left⟩
  | beginScan h' => exact ⟨left, (List.getElem?_append_left hlt).trans hi, .refl left⟩
  | next j =>
    by_cases hj : j = i
    · subst hj
      obtain ⟨left', ht, hleft'⟩ := takes_next hi
      refine ⟨left', hleft', ?_⟩
      rw [gives, if_pos rfl]
      exact ht.delivers (hσ.sound.cell h).consistent
    · refine ⟨left, ?_, ?_⟩
      · show (σ.cursors.modify j fun c => (c.next σ.store).2)[i]? = _
        rw [List.getElem?_modify_ne _ _ hj, hi]
      · rw [gives, if_neg hj]
        exact .refl left

/-- In the course of any events an iteration takes keys from the front. -/
theorem delivers_run [Like.Engine] (hσ : σ.store.Reachable) (hi : σ.cursors[i]? = some (.keys h left))
    (events : List Event) :
    ∃ left', (σ.run events).cursors[i]? = some (.keys h left') ∧ Collection.Delivers left (given i σ events) left' := by
  induction events generalizing σ left with
  | nil => exact ⟨left, hi, .refl left⟩
  | cons e es ih =>
    obtain ⟨mid, hmid, hfirst⟩ := delivers_perform hσ hi e
    obtain ⟨left', hleft', hrest⟩ := ih (reachable_perform hσ e) hmid
    exact ⟨left', hleft', hfirst.trans hrest⟩

/-! ## Where an iteration stands -/

/-- An iteration over the collection at a handle with some keys left. -/
structure Stands [Like.Engine] (σ : Session) (i : Nat) (h : Handle) (left : List String) : Prop where
  cursor : σ.cursors[i]? = some (.keys h left)
  /-- A step now takes keys by what is stored now. -/
  step : ∃ left', (σ.store.cell h).Takes left (σ.upcoming? i) left' ∧
    (σ.perform (.next i)).cursors[i]? = some (.keys h left')
  /-- After a step that gives nothing, no step gives anything. -/
  ended : σ.upcoming? i = none → ∀ more, ((σ.perform (.next i)).run more).upcoming? i = none
  /-- The bounds are true of all that may come. -/
  bounds : ∀ more, (Cursor.keys h left).bounds.1 ≤ (given i σ more).length ∧
    (given i σ more).length ≤ (Cursor.keys h left).bounds.2

theorem upcoming?_eq_none (hi : σ.cursors[i]? = some (.keys h [])) : σ.upcoming? i = none := by
  unfold upcoming?
  rw [hi]
  rfl

theorem stands [Like.Engine] (hσ : σ.store.Reachable) (hi : σ.cursors[i]? = some (.keys h left)) :
    σ.Stands i h left where
  cursor := hi
  step := takes_next hi
  ended hnone more := by
    obtain ⟨left', ht, hleft'⟩ := takes_next hi
    rw [hnone] at ht
    cases ht
    obtain ⟨left'', hleft'', hd⟩ := delivers_run (reachable_perform hσ _) hleft' more
    exact upcoming?_eq_none (hd.left_eq_nil ▸ hleft'')
  bounds more := by
    obtain ⟨left', -, hd⟩ := delivers_run hσ hi more
    exact ⟨Nat.zero_le _, hd.length_le⟩

/-! ## Callbacks -/

section ForEach

variable {α : Type} {callback : Document → Session × α → Value × Session × α} {s s' : Session × α}
  {keys : List String} {ds : List Document}

/-- When every call comes down to events, so does the iteration. -/
theorem exists_run_of_drives [Like.Engine]
    (hcall : ∀ d (s : Session × α), s.1.store.Reachable → ∃ events, (callback d s).2.1 = s.1.run events)
    (hd : Collection.Drives (fun s => s.1.store.cell h) callback keys s ds s') (hs : s.1.store.Reachable) :
    ∃ events, s'.1 = s.1.run events := by
  refine hd.induction (r := fun s s' => s.1.store.Reachable → ∃ events, s'.1 = s.1.run events)
    (fun s _ => ⟨[], rfl⟩) ?_ hcall hs
  intro s s' s'' hfirst hrest hs
  obtain ⟨events, he⟩ := hfirst hs
  obtain ⟨events', he'⟩ := hrest (he ▸ reachable_run hs events)
  exact ⟨events ++ events', by rw [he', he, run_append]⟩

theorem exists_delivers_of_drives [Like.Engine]
    (hcall : ∀ d (s : Session × α), s.1.store.Reachable → ∃ events, (callback d s).2.1 = s.1.run events)
    (hd : Collection.Drives (fun s => s.1.store.cell h) callback keys s ds s') (hs : s.1.store.Reachable) :
    ∃ left, Collection.Delivers keys ds left := by
  refine hd.delivers (fun s => s.1.store.Reachable) (fun s hs => (hs.sound.cell h).consistent)
    (fun d s hs => ?_) hs
  obtain ⟨events, he⟩ := hcall d s hs
  show (callback d s).2.1.store.Reachable
  rw [he]
  exact reachable_run hs events

end ForEach

/-! ## Iterations over matches -/

/-- **Iteration among any other actions.** An iteration begins over the keys of the documents that match then, every one
once. Whatever happens afterwards, it has taken some of these keys from the front and has given documents with some of
those, none twice; its next step takes keys by what is stored at that moment, and nothing comes after a step that gives
nothing. A callback is driven along the same steps up to its first truthy answer, and what it does together is some
events again. -/
theorem iteration_exact [Like.Engine] (σ : Session) (hσ : σ.store.Reachable) (h : Handle) (predicate : Document) :
    let c := σ.store.cell h
    let keys := c.equalKeys predicate
    let start := σ.perform (.beginEqual h predicate)
    let i := σ.cursors.length
    keys.Nodup ∧ (∀ k, k ∈ keys ↔ ∃ d, c.get? k = some d ∧ predicate.satisfies c.separator d = true) ∧
    (∀ events, ∃ left, (start.run events).Stands i h left ∧ Collection.Delivers keys (given i start events) left ∧
      ((given i start events).map Document.key).Nodup) ∧
    ∀ (α : Type) (callback : Document → Session × α → Value × Session × α),
      (∀ d s, s.1.store.Reachable → ∃ events, (callback d s).2.1 = s.1.run events) →
      ∀ a : α, ∃ ds s' left events,
        Collection.forEachEqual (fun s => s.1.store.cell h) callback predicate (σ, a) = (ds, s') ∧
        Collection.Drives (fun s => s.1.store.cell h) callback keys (σ, a) ds s' ∧
        Collection.Delivers keys ds left ∧ (ds.map Document.key).Nodup ∧ s'.1 = σ.run events := by
  intro c keys start i
  have hc : c.Consistent := (hσ.sound.cell h).consistent
  have hnodup : keys.Nodup := hc.nodup_equalKeys predicate
  refine ⟨hnodup, fun k => hc.mem_equalKeys_iff, fun events => ?_, fun α callback hcall a => ?_⟩
  · have hi : start.cursors[i]? = some (.keys h keys) := by
      show (σ.cursors ++ [Cursor.keys h keys])[σ.cursors.length]? = _
      rw [List.getElem?_concat_length]
    have hstart : start.store.Reachable := hσ
    obtain ⟨left, hleft, hd⟩ := delivers_run hstart hi events
    exact ⟨left, stands (reachable_run hstart events) hleft, hd, hd.nodup hnodup⟩
  · have hdrives : Collection.Drives (fun s : Session × α => s.1.store.cell h) callback keys (σ, a) _ _ :=
      Collection.drives_forEach keys (σ, a)
    obtain ⟨left, hd⟩ := exists_delivers_of_drives hcall hdrives hσ
    obtain ⟨events, he⟩ := exists_run_of_drives hcall hdrives hσ
    exact ⟨_, _, left, events, rfl, hdrives, hd, hd.nodup hnodup, he⟩

open Like.Sized

/-- Four documents with the same number, under the keys from `a` to `d`. -/
def sample : Session where
  store := (Store.ofConfig {}).run <| .collection "c" :: ["a", "b", "c", "d"].map fun key =>
    .on ⟨0⟩ (.upsert 1 (.ofList [("_key", .string key), ("n", .int 1)]))
  cursors := []

/-- The first match goes, the third one changes, the last one goes and comes back, the collection is dropped. -/
def sampleEvents : List Event :=
  [.act (.on ⟨0⟩ (.delete "a")), .act (.on ⟨0⟩ (.upsert 2 (.ofList [("_key", .string "e"), ("n", .int 1)]))), .next 0,
   .act (.dropCollection "c"), .act (.on ⟨0⟩ (.upsert 3 (.ofList [("_key", .string "c"), ("n", .int 2)]))),
   .act (.on ⟨0⟩ (.delete "d")), .next 0, .act (.on ⟨0⟩ (.upsert 4 (.ofList [("_key", .string "d"), ("n", .int 3)]))),
   .next 0, .next 0]

/-- A callback that removes a document at each call and wants no third one. -/
def sampleCallback (_ : Document) (s : Session × Nat) : Value × Session × Nat :=
  (.bool (s.2 == 1), s.1.run [.act (.on ⟨0⟩ (.delete "b"))], s.2 + 1)

def samplePredicate : Document := .ofList [("n", .int 1)]

/-- What was deleted before its turn is skipped, what was changed or put back comes as it is then, what was added does not
come; and the callback is called for the first and the third match. -/
theorem iteration_exact_sample :
    (given 0 (sample.perform (.beginEqual ⟨0⟩ samplePredicate)) sampleEvents).map
      (fun d => (d.key.toOption, (d.get? "n").bind Value.int?)) =
        [(some "b", some 1), (some "c", some 2), (some "d", some 3)] ∧
    ((given 0 (sample.perform (.beginEqual ⟨0⟩ samplePredicate)) sampleEvents).map Document.key).Nodup ∧
    ∃ ds s' events,
      Collection.forEachEqual (fun s => s.1.store.cell ⟨0⟩) sampleCallback samplePredicate (sample, 0) = (ds, s') ∧
      ds.map (·.key.toOption) = [some "a", some "c"] ∧ s'.1 = sample.run events := by
  have hreach : sample.store.Reachable := ⟨[], Store.ofConfig {}, _, rfl, rfl⟩
  have hcall : ∀ d (s : Session × Nat), s.1.store.Reachable → ∃ events, (sampleCallback d s).2.1 = s.1.run events :=
    fun _ _ _ => ⟨_, rfl⟩
  obtain ⟨-, -, hgiven, hcalls⟩ := iteration_exact sample hreach ⟨0⟩ samplePredicate
  obtain ⟨left, -, -, hnodup⟩ := hgiven sampleEvents
  obtain ⟨ds, s', left', events, heq, -, -, -, hrun⟩ := hcalls Nat sampleCallback hcall 0
  refine ⟨by decide +kernel, hnodup, ds, s', events, heq, ?_, hrun⟩
  have hds : (Collection.forEachEqual (fun s => s.1.store.cell ⟨0⟩) sampleCallback samplePredicate (sample, 0)).1.map
      (·.key.toOption) = [some "a", some "c"] := by decide +kernel
  rw [heq] at hds
  exact hds

end Session
end DocStore
