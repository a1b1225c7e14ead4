import DocStore.Proofs.Collection.Reads
import DocStore.Proofs.Store.Scanning

/-!
# Iterations that nothing disturbs

As long as no action changes a collection, an iteration over the keys of stored documents gives these documents in their
order (`Collection.course_eq_take`), so one over the matches of a predicate gives the matches (`Session.given_beginEqual`).
With the other reads of a collection this is `Collection.Reachable.reads_agree`.
-/

namespace DocStore

variable {c : Collection}

/-- Stored documents come in the order of their keys, one at each step, when the actions in between change nothing. -/
theorem Collection.course_eq_take [Like.Engine] {es : List Entry} {rest : List (Option Action)}
    (hkeep : ∀ b, some b ∈ rest → (c.perform b).2 = c) (hes : ∀ e ∈ es, c.get? e.1 = some e.2) :
    c.course (es.map (·.1)) rest = (es.map (·.2)).take (rest.countP (·.isNone)) := by
  induction rest generalizing es with
  | nil => rw [course, List.countP_nil, List.take_zero]
  | cons step rest ih =>
    have hrest : ∀ b, some b ∈ rest → (c.perform b).2 = c := fun b hb => hkeep b (List.mem_cons_of_mem _ hb)
    cases step with
    | some b => simp [course, hkeep b List.mem_cons_self, ih hrest hes]
    | none =>
      cases es with
      | nil => simpa [course, nextOf] using ih hrest hes
      | cons e es =>
        obtain ⟨he, hes⟩ := List.forall_mem_cons.mp hes
        simp [course, nextOf, he, ih hrest hes]

namespace Session

variable {σ : Session} {h : Handle}

/-- An event leaves a collection at a handle as it is. -/
def Event.Keeps [Like.Engine] (h : Handle) (c : Collection) (e : Event) : Prop :=
  ∀ a b, e = .act a → a.on? h = some b → (c.perform b).2 = c

/-- The steps in the course of an iteration are those of the iteration. -/
theorem countP_course? (h : Handle) (i : Nat) (events : List Event) :
    (events.filterMap (Event.course? h i)).countP (·.isNone) = steps i events := by
  rw [List.countP_filterMap, steps]
  refine List.countP_congr fun e _ => ?_
  cases e with
  | act a => cases ha : a.on? h <;> simp [Event.course?, Event.isNext, ha]
  | next j => by_cases hj : j = i <;> simp [Event.course?, Event.isNext, hj]
  | _ => simp [Event.course?, Event.isNext]

/-- An iteration over the matches of a predicate gives them in their order when nothing changes the collection. -/
theorem given_beginEqual [Like.Engine] (hc : (σ.store.cell h).Consistent) (hlt : h.index < σ.store.cells.length)
    (predicate : Document)
    {events : List Event} (hkeep : ∀ e ∈ events, e.Keeps h (σ.store.cell h)) :
    given σ.cursors.length (σ.perform (.beginEqual h predicate)) events =
      (((σ.store.cell h).equalMatches predicate).map (·.2)).take (steps σ.cursors.length events) := by
  have hi : (σ.perform (.beginEqual h predicate)).cursors[σ.cursors.length]? =
      some (.keys h ((σ.store.cell h).equalKeys predicate)) := List.getElem?_concat_length
  have hstart : h.index < (σ.perform (.beginEqual h predicate)).store.cells.length := hlt
  rw [given_keys hstart hi, ← countP_course? h]
  apply Collection.course_eq_take
  · intro b hb
    obtain ⟨e, he, hb⟩ := List.mem_filterMap.mp hb
    cases e with
    | act a =>
      have hon : a.on? h = some b := by simpa [Event.course?] using hb
      exact hkeep _ he a b rfl hon
    | _ => simp [Event.course?] at hb
  · intro e he
    exact (Collection.get?_eq_some_iff hc.keys_nodup).mpr ((hc.equalMatches_subperm predicate).subset he)

end Session

namespace Collection

/-- **The reads of the same matches agree.** In a reachable collection without a result window the search for one match
gives the first of all matches, an iteration that no action disturbs gives all of them in their order, their count is their
number, and what is not counted are the other stored documents. The answers of a query are found, found first and counted in
the same way, and a text that is no query of the collection has one error in all three reads. -/
theorem Reachable.reads_agree [Like.Engine] (h : c.Reachable) (hwindow : c.config.resultWindow = none) :
    (∀ predicate, GivesFirst (c.findEqual predicate) (c.findAllEqual predicate)) ∧
    (∀ predicate (σ : Session) (handle : Handle), handle.index < σ.store.cells.length → σ.store.cell handle = c →
      ∀ events, (∀ e ∈ events, Session.Event.Keeps handle c e) →
        Session.given σ.cursors.length (σ.perform (.beginEqual handle predicate)) events =
          (c.findAllEqual predicate).take (Session.steps σ.cursors.length events)) ∧
    (∀ predicate, c.countEqual predicate = (c.findAllEqual predicate).length ∧ c.countEqual predicate ≤ c.count ∧
      c.countEqual predicate + c.countNotEqual predicate = c.count ∧
      ∃ others, (c.findAllEqual predicate ++ others).Perm c.scan ∧ (∀ d ∈ others, d ∉ c.findAllEqual predicate) ∧
        c.countNotEqual predicate = others.length) ∧
    ∀ text params,
      (∃ q ds, c.Poses text params q ∧ c.find text params = .ok ds ∧ GivesFirst (c.findOne text params) ds ∧
        c.countQuery text params = .ok ds.length) ∨
      (∀ q, ¬ c.Poses text params q) ∧ ∃ e, c.find text params = .error e ∧ c.findOne text params = .error e ∧
        c.countQuery text params = .error e := by
  have hc := h.consistent
  refine ⟨givesFirst_findEqual hwindow, ?_, fun predicate => ?_, query_reads hwindow⟩
  · intro predicate σ handle hlt hcell events hkeep
    subst hcell
    rw [findAllEqual_eq hwindow]
    exact Session.given_beginEqual hc hlt predicate hkeep
  · have hle := hc.countEqual_le predicate
    exact ⟨(hc.length_findAllEqual hwindow predicate).symm, hle, Nat.add_sub_cancel' hle,
      hc.exists_others hwindow predicate⟩

open Like.Sized

/-- Three matches come in the order of an index, with reads in between, and are counted without the scan. -/
theorem reads_agree_sample :
    let predicate := .ofList [("n", .int 2)]
    let σ : Session := ⟨⟨sample.config, [("c", ⟨0⟩)], [sample]⟩, []⟩
    (sample.findAllEqual predicate).map (·.key.toOption) = [some "a", some "c", some "b"] ∧
    GivesFirst (sample.findEqual predicate) (sample.findAllEqual predicate) ∧
    Session.given 0 (σ.perform (.beginEqual ⟨0⟩ predicate))
      [.next 0, .act (.on ⟨0⟩ .count), .next 0, .next 0, .next 0] = sample.findAllEqual predicate ∧
    sample.countEqual predicate = 3 ∧ sample.countNotEqual predicate = 0 := by
  intro predicate σ
  obtain ⟨hfirst, hiteration, -, -⟩ := reachable_sample.reads_agree rfl
  refine ⟨by decide +kernel, hfirst predicate, ?_, by decide +kernel, by decide +kernel⟩
  refine (hiteration predicate σ ⟨0⟩ Nat.one_pos rfl _ fun e he => ?_).trans (List.take_of_length_le ?_)
  · rintro a b rfl hon
    have ha : a = .on ⟨0⟩ .count := by simpa using he
    cases ha
    cases hon
    rfl
  · decide +kernel

end Collection
end DocStore
