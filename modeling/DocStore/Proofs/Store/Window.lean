import DocStore.Proofs.Collection.Window
import DocStore.Proofs.Store.Naming

/-!
# Stores with and without a result window

A store with a result window (`Store.windowed`) goes through the same states as the one without, event by event
(`Session.perform_windowed`, `Session.run_windowed`), and its answers are the same but for the searches that the window
cuts (`Action.cut`, `Session.answer_windowed`). Iterations with a callback are not cut either
(`Session.forEachEqual_windowed`). Main statement: `window_truncates`.
-/

namespace DocStore

namespace Store

variable {s : Store}

/-- A store with a result window. -/
def windowed (w : Nat) (s : Store) : Store := ⟨s.config.windowed w, s.registry, s.cells.map (Collection.windowed w)⟩

/-- The reply to an action under a result window. -/
def Action.cut (w : Nat) : Action → Reply → Reply
  | .query _ _, .documents ds => .documents (ds.take w)
  | .on _ b, .ofCollection r => .ofCollection (b.cut w r)
  | _, r => r

/-- A reachable store without a result window. -/
structure Unlimited (s : Store) : Prop where
  filed : s.Filed
  window : s.config.resultWindow = none

theorem Unlimited.perform [Like.Engine] (hs : s.Unlimited) (a : Action) : (s.perform a).2.Unlimited :=
  ⟨hs.filed.perform a, by rw [hs.filed.config_perform]; exact hs.window⟩

theorem Unlimited.window_cell (hs : s.Unlimited) (h : Handle) : (s.cell h).config.resultWindow = none := by
  rw [hs.filed.config_cell]
  exact hs.window

/-! ## Actions -/

theorem cell_windowed (s : Store) (w : Nat) (h : Handle) : (s.windowed w).cell h = (s.cell h).windowed w :=
  List.getD_map s.cells (Collection.empty "" s.config) (Collection.windowed w)

theorem collection_windowed (s : Store) (w : Nat) (name : String) :
    (s.windowed w).collection name = (s.collection name).map id (windowed w) := by
  have hregistry : (s.windowed w).registry = s.registry := rfl
  unfold Store.collection
  rw [hregistry]
  cases s.registry.lookup name with
  | some h => rfl
  | none =>
    have hlength : (s.windowed w).cells.length = s.cells.length := List.length_map _
    have hcells : s.cells.map (Collection.windowed w) ++ [Collection.empty name (s.config.windowed w)] =
        (s.cells ++ [Collection.empty name s.config]).map (Collection.windowed w) := by
      rw [List.map_append]
      rfl
    dsimp only
    rw [hlength]
    exact Prod.ext rfl (congrArg (Store.mk _ _) hcells)

theorem query_windowed (hs : s.Unlimited) (w : Nat) (text : String) (params : Document) :
    (s.windowed w).query text params = (s.query text params).map (·.map (·.take w)) (windowed w) := by
  have hparse : Query.parse text (s.windowed w).config.separator = Query.parse text s.config.separator := rfl
  unfold Store.query
  rw [hparse]
  cases Query.parse text s.config.separator with
  | error e => rfl
  | ok q =>
    have hnext : (s.collection q.collection).2.Unlimited :=
      ⟨hs.filed.collection q.collection, (congrArg _ (config_collection s q.collection)).trans hs.window⟩
    dsimp only
    rw [collection_windowed]
    refine Prod.ext ?_ rfl
    show (((s.collection q.collection).2.windowed w).cell (s.collection q.collection).1).find text params = _
    rw [cell_windowed, Collection.find_windowed (hnext.window_cell _)]
    rfl

theorem on_windowed [Like.Engine] (hs : s.Unlimited) (w : Nat) (h : Handle) (b : Collection.Action) :
    (s.windowed w).update h (·.perform b) = (s.update h (·.perform b)).map (·.map (b.cut w)) (windowed w) := by
  unfold Store.update
  dsimp only
  rw [cell_windowed, Collection.perform_windowed (hs.window_cell h)]
  have hcells : (s.cells.map (Collection.windowed w)).set h.index (((s.cell h).perform b).2.windowed w) =
      (s.cells.set h.index ((s.cell h).perform b).2).map (Collection.windowed w) := List.map_set.symm
  exact Prod.ext rfl (congrArg (Store.mk _ _) hcells)

/-- An action does the same under a result window, and some searches reply with less. -/
theorem perform_windowed [Like.Engine] (hs : s.Unlimited) (w : Nat) (a : Action) :
    (s.windowed w).perform a = (s.perform a).map (·.map (a.cut w)) (windowed w) := by
  cases a with
  | collection name => exact congrArg (Prod.map _ id) (collection_windowed s w name)
  | configure setting =>
    have hfrozen : (s.windowed w).config.frozen = true := hs.filed.frozen
    unfold perform Store.configure Config.set
    rw [hfrozen, hs.filed.frozen]
    rfl
  | query text params =>
    unfold perform
    dsimp only
    rw [query_windowed hs]
    refine Prod.ext ?_ rfl
    show ((s.query text params).1.map _).map _ = ((s.query text params).1.map _).map _
    cases (s.query text params).1 <;> rfl
  | on h b =>
    unfold perform
    dsimp only
    rw [on_windowed hs]
    refine Prod.ext ?_ rfl
    show ((s.update h (·.perform b)).1.map _).map _ = ((s.update h (·.perform b)).1.map _).map _
    cases (s.update h (·.perform b)).1 <;> rfl
  | _ => rfl

end Store

namespace Session

variable {σ : Session}

/-- A session in a store with a result window. -/
def windowed (w : Nat) (σ : Session) : Session := { σ with store := σ.store.windowed w }

/-- An answer under a result window. -/
def Answer.cut (w : Nat) : Event → Answer → Answer
  | .act a, .reply r => .reply (r.map (a.cut w))
  | _, answer => answer

/-! ## Events and answers -/

theorem next_windowed (s : Store) (w : Nat) (c : Cursor) : c.next (s.windowed w) = c.next s := by
  cases c with
  | keys h left =>
    have hnext : ((s.cell h).windowed w).nextOf left = (s.cell h).nextOf left := by
      induction left with
      | nil => rfl
      | cons k left ih =>
        unfold Collection.nextOf
        rw [ih]
        rfl
    unfold Cursor.next
    dsimp only
    rw [Store.cell_windowed, hnext]
  | snapshot left => rfl

theorem perform_windowed [Like.Engine] (hs : σ.store.Unlimited) (w : Nat) (e : Event) :
    (σ.windowed w).perform e = (σ.perform e).windowed w := by
  cases e with
  | act a =>
    have hact := congrArg Prod.snd (Store.perform_windowed hs w a)
    exact congrArg (Session.mk · σ.cursors) hact
  | beginEqual h predicate =>
    have hcursor : Cursor.ofEqual (σ.store.windowed w) h predicate = .ofEqual σ.store h predicate := by
      unfold Cursor.ofEqual
      rw [Store.cell_windowed]
      rfl
    exact congrArg (fun c => Session.mk (σ.store.windowed w) (σ.cursors ++ [c])) hcursor
  | beginScan h =>
    have hcursor : Cursor.ofScan (σ.store.windowed w) h = .ofScan σ.store h := by
      unfold Cursor.ofScan
      rw [Store.cell_windowed]
      rfl
    exact congrArg (fun c => Session.mk (σ.store.windowed w) (σ.cursors ++ [c])) hcursor
  | next i =>
    show Session.mk (σ.store.windowed w) (σ.cursors.modify i fun c => (c.next (σ.store.windowed w)).2) = _
    simp only [next_windowed]
    rfl

theorem unlimited_perform [Like.Engine] (hs : σ.store.Unlimited) (e : Event) : (σ.perform e).store.Unlimited := by
  cases e with
  | act a => exact hs.perform a
  | _ => exact hs

theorem unlimited_run [Like.Engine] (hs : σ.store.Unlimited) (events : List Event) :
    (σ.run events).store.Unlimited := by
  induction events generalizing σ with
  | nil => exact hs
  | cons e es ih => exact ih (unlimited_perform hs e)

/-- The states of a store with a result window are those of the store without. -/
theorem run_windowed [Like.Engine] (hs : σ.store.Unlimited) (w : Nat) (events : List Event) :
    (σ.windowed w).run events = (σ.run events).windowed w := by
  induction events generalizing σ with
  | nil => rfl
  | cons e es ih =>
    show ((σ.windowed w).perform e).run es = _
    rw [perform_windowed hs, ih (unlimited_perform hs e)]
    rfl

theorem answer_windowed [Like.Engine] (hs : σ.store.Unlimited) (w : Nat) (e : Event) :
    (σ.windowed w).answer e = (σ.answer e).cut w e := by
  cases e with
  | act a => exact congrArg (fun r => Answer.reply r.1) (Store.perform_windowed hs w a)
  | next i =>
    show Answer.next ((σ.cursors[i]?).bind fun c => (c.next (σ.store.windowed w)).1) = _
    simp only [next_windowed]
    rfl
  | _ => rfl

/-! ## Callbacks -/

/-- The state of an iteration with a callback after some events, and the same one under a result window. -/
def Mirrored [Like.Engine] {α : Type} (σ : Session) (w : Nat) (s t : Session × α) : Prop :=
  (∃ more, s.1 = σ.run more) ∧ t = (s.1.windowed w, s.2)

/-- An iteration with a callback calls it for the same documents under a result window, as long as each call does the
same in both stores. -/
theorem forEachEqual_windowed [Like.Engine] (hs : σ.store.Unlimited) (w : Nat) (h : Handle) {α : Type}
    {callback : Document → Session × α → Value × Session × α}
    (hcall : ∀ d a more, ∃ verdict events a', callback d (σ.run more, a) = (verdict, (σ.run more).run events, a') ∧
      callback d ((σ.run more).windowed w, a) = (verdict, ((σ.run more).windowed w).run events, a'))
    (predicate : Document) (a : α) :
    Collection.forEachEqual (fun s : Session × α => s.1.store.cell h) callback predicate (σ.windowed w, a) =
      (Collection.forEachEqual (fun s : Session × α => s.1.store.cell h) callback predicate (σ, a)).map id
        (Prod.map (windowed w) id) := by
  have hcell (σ : Session) : (σ.windowed w).store.cell h = (σ.store.cell h).windowed w :=
    Store.cell_windowed σ.store w h
  have hkeys : ((σ.windowed w).store.cell h).equalKeys predicate = (σ.store.cell h).equalKeys predicate := by
    rw [hcell]
    rfl
  have hget (s t : Session × α) (hst : σ.Mirrored w s t) (k : String) :
      Option.Rel Eq ((s.1.store.cell h).get? k) ((t.1.store.cell h).get? k) := by
    obtain ⟨-, rfl⟩ := hst
    rw [hcell]
    show Option.Rel Eq ((s.1.store.cell h).get? k) ((s.1.store.cell h).get? k)
    cases (s.1.store.cell h).get? k with
    | none => exact .none
    | some d => exact .some rfl
  have hnext (d e : Document) (s t : Session × α) (hde : d = e) (hst : σ.Mirrored w s t) :
      (callback d s).1.isTruthy = (callback e t).1.isTruthy ∧ σ.Mirrored w (callback d s).2 (callback e t).2 := by
    obtain ⟨_, b⟩ := s
    obtain ⟨⟨more, rfl⟩, rfl⟩ := hst
    obtain ⟨verdict, events, a', hleft, hright⟩ := hcall d b more
    rw [← hde, hleft, hright]
    refine ⟨rfl, ⟨more ++ events, (run_append σ more events).symm⟩, ?_⟩
    exact congrArg (·, a') (run_windowed (unlimited_run hs more) w events)
  have hstart : σ.Mirrored w (σ, a) (σ.windowed w, a) := ⟨⟨[], rfl⟩, rfl⟩
  obtain ⟨hds, -, hlast⟩ := Collection.rel_forEach hget hnext ((σ.store.cell h).equalKeys predicate) _ _ hstart
  rw [List.forall₂_eq_eq_eq] at hds
  unfold Collection.forEachEqual
  rw [hkeys]
  exact Prod.ext hds.symm hlast

/-! ## The result window -/

/-- **The result window only truncates.** Two stores that were opened with configurations that differ in the result
window, which one of them lacks, go through the same states in the course of any events. Their answers are the same but
for the searches that the window limits, which answer the first documents of what they answer without it. A callback is
called for the same documents in both. -/
theorem window_truncates [Like.Engine] {settings settings' : List Setting} {s s' : Store} {w : Nat}
    (hopen : Store.openWith settings = .ok s) (hopen' : Store.openWith settings' = .ok s')
    (hnone : s.config.resultWindow = none) (hw : s'.config = s.config.windowed w) (events : List Event) :
    let σ := (Session.mk s []).run events
    let σ' := (Session.mk s' []).run events
    σ' = σ.windowed w ∧
    (∀ e, σ'.answer e = (σ.answer e).cut w e) ∧
    (∀ h b, b.limited = false → σ'.answer (.act (.on h b)) = σ.answer (.act (.on h b))) ∧
    ∀ (α : Type) (callback : Document → Session × α → Value × Session × α) (h : Handle) (predicate : Document) (a : α),
      (∀ d a more, ∃ verdict events a', callback d (σ.run more, a) = (verdict, (σ.run more).run events, a') ∧
        callback d (σ'.run more, a) = (verdict, (σ'.run more).run events, a')) →
      Collection.forEachEqual (fun s : Session × α => s.1.store.cell h) callback predicate (σ', a) =
        (Collection.forEachEqual (fun s : Session × α => s.1.store.cell h) callback predicate (σ, a)).map id
          (Prod.map (windowed w) id) := by
  intro σ σ'
  have hstart : (Session.mk s []).store.Unlimited := ⟨Store.filed_of_openWith hopen, hnone⟩
  have hs : σ.store.Unlimited := unlimited_run hstart events
  have hs' : s' = s.windowed w := by
    obtain ⟨config, -, rfl⟩ := Store.exists_of_openWith hopen
    obtain ⟨config', -, rfl⟩ := Store.exists_of_openWith hopen'
    exact congrArg (Store.mk · [] []) hw
  have hσ : σ' = σ.windowed w := by
    show (Session.mk s' []).run events = _
    rw [hs']
    exact run_windowed hstart w events
  have hanswer (e : Event) : σ'.answer e = (σ.answer e).cut w e := by
    rw [hσ]
    exact answer_windowed hs w e
  refine ⟨hσ, hanswer, fun h b hb => ?_, fun α callback h predicate a hcall => ?_⟩
  · rw [hanswer]
    have hcut (r : Collection.Reply) : (Store.Action.on h b).cut w (.ofCollection r) = .ofCollection r := by
      show Store.Reply.ofCollection (b.cut w r) = _
      rw [Collection.Action.cut_eq_id hb]
      rfl
    show Answer.reply ((((σ.store.cell h).perform b).1.map Store.Reply.ofCollection).map _) =
      Answer.reply (((σ.store.cell h).perform b).1.map Store.Reply.ofCollection)
    cases ((σ.store.cell h).perform b).1 with
    | error e => rfl
    | ok r => exact congrArg (fun r => Answer.reply (.ok r)) (hcut r)
  · rw [hσ]
    refine forEachEqual_windowed hs w h (fun d a more => ?_) predicate a
    obtain ⟨verdict, events', a', hleft, hright⟩ := hcall d a more
    rw [hσ, run_windowed hs] at hright
    exact ⟨verdict, events', a', hleft, hright⟩

/-- Three documents with the same number in a collection. -/
def windowEvents : List Event :=
  .act (.collection "c") :: ["a", "b", "d"].map fun key =>
    .act (.on ⟨0⟩ (.upsert 1 (.ofList [("_key", .string key), ("n", .int 1)])))

open Like.Sized

/-- A callback that removes the document that it is called for. -/
def windowCallback (d : Document) (s : Session × Nat) : Value × Session × Nat :=
  (.bool false, s.1.run (d.key.toOption.toList.map fun key => .act (.on ⟨0⟩ (.delete key))), s.2 + 1)

theorem window_truncates_two :
    let σ := (Session.mk (Store.ofConfig {}) []).run windowEvents
    let σ' := (Session.mk (Store.ofConfig { resultWindow := some 2 }) []).run windowEvents
    σ' = σ.windowed 2 ∧
    (∀ b, σ'.answer (.act (.on ⟨0⟩ b)) = (σ.answer (.act (.on ⟨0⟩ b))).cut 2 (.act (.on ⟨0⟩ b))) ∧
    ((σ.store.cell ⟨0⟩).findAllEqual samplePredicate).length = 3 ∧
    ((σ'.store.cell ⟨0⟩).findAllEqual samplePredicate).length = 2 ∧
    (Collection.forEachEqual (fun s => s.1.store.cell ⟨0⟩) windowCallback samplePredicate (σ', 0)).1 =
      (Collection.forEachEqual (fun s => s.1.store.cell ⟨0⟩) windowCallback samplePredicate (σ, 0)).1 ∧
    (Collection.forEachEqual (fun s => s.1.store.cell ⟨0⟩) windowCallback samplePredicate (σ', 0)).2.2 = 3 := by
  intro σ σ'
  obtain ⟨hstates, hanswers, -, hcalls⟩ :=
    @window_truncates engine [] [.resultWindow 2] (Store.ofConfig {}) (Store.ofConfig { resultWindow := some 2 }) 2 rfl
      rfl rfl
      rfl windowEvents
  have hforEach := hcalls Nat windowCallback ⟨0⟩ samplePredicate 0 fun _ _ _ => ⟨_, _, _, rfl, rfl⟩
  exact ⟨hstates, fun b => hanswers _, by decide +kernel, by decide +kernel,
    (congrArg Prod.fst hforEach).trans rfl, by decide +kernel⟩

end Session
end DocStore
