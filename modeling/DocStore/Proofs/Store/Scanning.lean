import DocStore.Proofs.Collection.Contents
import DocStore.Proofs.Store.Effects

/-!
# Scans of an ordered map

An iteration over a scan gives the documents that it began with, whatever happens meanwhile (`Session.given_snapshot`).
With what the replies of a collection tell about its documents, this makes a collection a map in the order of insertion.
Main statement: `Collection.insertion_ordered`.
-/

namespace DocStore

namespace Session

variable {σ : Session} {i : Nat} {left : List Document}

/-- How many steps of an iteration are among some events. -/
def steps (i : Nat) (events : List Event) : Nat := events.countP (·.isNext i)

theorem steps_cons (i : Nat) (e : Event) (es : List Event) : steps i (e :: es) = (e.isNext i).toNat + steps i es := by
  rw [steps, List.countP_cons, Nat.add_comm]
  cases e.isNext i <;> rfl

/-- A step of an iteration over a scan gives its first document, and every other event leaves it where it is. -/
theorem snapshot_perform [Like.Engine] (hi : σ.cursors[i]? = some (.snapshot left)) (e : Event) :
    (σ.perform e).cursors[i]? = some (.snapshot (left.drop (e.isNext i).toNat)) ∧
      σ.gives i e = left.take (e.isNext i).toNat := by
  rcases cursor_perform hi e with ⟨rfl, hnext, hgives⟩ | ⟨hother, hsame, hgives⟩
  · have hstep : (Event.next i).isNext i = true := beq_self_eq_true i
    rw [hstep, Bool.toNat_true, List.drop_one]
    refine ⟨hnext, hgives.trans ?_⟩
    cases left <;> rfl
  · rw [hother, Bool.toNat_false, List.drop_zero, List.take_zero]
    exact ⟨hsame, hgives⟩

/-- In the course of any events an iteration over a scan gives one of its documents at each of its steps, from the
front. -/
theorem given_snapshot [Like.Engine] (hi : σ.cursors[i]? = some (.snapshot left)) (events : List Event) :
    given i σ events = left.take (steps i events) := by
  induction events generalizing σ left with
  | nil => exact List.take_zero.symm
  | cons e es ih =>
    obtain ⟨hnext, hfirst⟩ := snapshot_perform hi e
    rw [given, ih hnext, hfirst, steps_cons, List.take_add]

/-- An iteration that begins a scan gives the documents that are stored when it begins. -/
theorem given_beginScan [Like.Engine] (σ : Session) (h : Handle) (events : List Event) :
    given σ.cursors.length (σ.perform (.beginScan h)) events =
      (σ.store.cell h).scan.take (steps σ.cursors.length events) := by
  refine given_snapshot ?_ events
  show (σ.cursors ++ [Cursor.snapshot (σ.store.cell h).scan])[σ.cursors.length]? = _
  rw [List.getElem?_concat_length]

end Session

namespace Collection

/-- **A collection is a map in the order of insertion.** After any run its documents are those that the replies tell of:
an upsert that went well has set the document it answered, in the place of the one with its key or at the end, a removal
has left out what it answered, and nothing else has changed anything. All reads answer from that list, and an iteration
over a scan gives the list as it was when it began, one document at each step. -/
theorem insertion_ordered [Like.Engine] {settings : List Setting} {config : Config}
    (hset : Config.setAll {} settings = .ok config)
    (name : String) (actions : List Action) :
    let c := (empty name config.freeze).run actions
    let m := Contents.ofLog ((empty name config.freeze).log actions)
    c.documents = m.entries ∧
    (∀ a, (c.perform a).2.documents = (m.after a (c.perform a).1).entries) ∧
    (∀ now d stored, (c.perform (.upsert now d)).1 = .ok (.document stored) → stored = c.stamped now d) ∧
    (c.perform .scan).1 = .ok (.documents (m.entries.map (·.2))) ∧
    (∀ key d, (c.perform (.get key)).1 = .ok (.document d) ↔ (key, d) ∈ m.entries) ∧
    (∀ key, key ∉ m.keys → (c.perform (.get key)).1 = .error (.documentNotFound key name)) ∧
    (∀ key, (c.perform (.contains key)).1 = .ok (.flag (decide (key ∈ m.keys)))) ∧
    (c.perform .count).1 = .ok (.count m.entries.length) ∧
    (c.perform .isEmpty).1 = .ok (.flag m.entries.isEmpty) ∧
    ∀ (σ : Session) (h : Handle), σ.store.cell h = c → ∀ events,
      Session.given σ.cursors.length (σ.perform (.beginScan h)) events =
        (m.entries.map (·.2)).take (Session.steps σ.cursors.length events) := by
  intro c m
  have hstart : (empty name config.freeze).Reachable := ⟨name, settings, config, [], hset, rfl⟩
  have hc : c.Reachable := ⟨name, settings, config, actions, hset, rfl⟩
  have hm : m.entries = c.documents := hstart.entries_foldl_after rfl actions
  have hname : c.name = name := name_run (empty name config.freeze) actions
  have hnd := hc.consistent.keys_nodup
  refine ⟨hm.symm, fun a => (hc.consistent.entries_after hm a).symm, ?_, ?_, ?_, ?_, ?_, ?_, ?_, ?_⟩
  · intro now d stored h
    obtain ⟨stored', hstored, he⟩ := Query.exists_of_map_eq_ok h
    cases he
    obtain ⟨-, -, hstamped, -⟩ := upsert_eq_ok hstored
    exact hstamped
  · rw [hm]
    rfl
  · intro key d
    rw [hm]
    exact reply_get_iff hc.consistent.keys_nodup
  · intro key hkey
    rw [Contents.keys, hm] at hkey
    rw [← hname]
    exact reply_get_of_notMem hkey
  · intro key
    rw [Contents.keys, hm]
    exact reply_contains
  · rw [hm]
    rfl
  · rw [hm]
    exact reply_isEmpty
  · intro σ h hcell events
    rw [Session.given_beginScan, hcell, hm]
    rfl

/-- A document is replaced, one is deleted and comes in again, and one is removed by its fields. -/
def shuffleActions : List Action :=
  [.upsert 1 (.ofList [("_key", .string "a"), ("n", .int 1)]),
   .upsert 2 (.ofList [("_key", .string "b"), ("n", .int 1)]),
   .upsert 3 (.ofList [("_key", .string "c"), ("n", .int 2)]),
   .upsert 4 (.ofList [("_key", .string "d"), ("n", .int 3)]),
   .delete "a", .delete "e", .upsert 5 (.ofList [("_key", .string "b"), ("n", .int 2)]),
   .upsert 6 (.ofList [("_key", .string "a"), ("n", .int 2)]), .removeOneEqual (.ofList [("n", .int 3)])]

open Like.Sized

theorem insertion_ordered_shuffle :
    (((empty "c" (Config.freeze {})).run shuffleActions).perform .scan).1 =
      .ok (.documents ((Contents.ofLog ((empty "c" (Config.freeze {})).log shuffleActions)).entries.map (·.2))) ∧
    (Contents.ofLog ((empty "c" (Config.freeze {})).log shuffleActions)).entries.map
      (fun e => (e.1, (e.2.get? "n").bind Value.int?)) = [("b", some 2), ("c", some 2), ("a", some 2)] := by
  obtain ⟨-, -, -, hscan, -⟩ := @insertion_ordered engine [] {} rfl "c" shuffleActions
  exact ⟨hscan, by decide +kernel⟩

end Collection
end DocStore
