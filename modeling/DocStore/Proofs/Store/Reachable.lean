import DocStore.Proofs.Collection.Steps
import DocStore.Store.Action

/-!
# Reachable stores

A store is reachable when a run of actions leads to it from one that was just opened (`Store.Reachable`). Its configuration
is then a frozen one that was accepted, and all of its cells hold reachable collections (`Sound`, `Sound.perform`,
`Reachable.sound`).
-/

namespace DocStore.Store

variable {s : Store}

/-- The stores that runs of actions lead to, each from one that was opened with some settings. -/
def Reachable [Like.Engine] (s : Store) : Prop := ∃ settings s₀ actions, openWith settings = .ok s₀ ∧ s = s₀.run actions

/-- The configuration was accepted and is frozen, and the cells hold reachable collections. -/
structure Sound [Like.Engine] (s : Store) : Prop where
  config : ∃ settings config, Config.setAll {} settings = .ok config ∧ s.config = config.freeze
  cells : ∀ c ∈ s.cells, c.Reachable

theorem Sound.empty [Like.Engine] (h : s.Sound) (name : String) : (Collection.empty name s.config).Reachable := by
  obtain ⟨settings, config, hset, hc⟩ := h.config
  rw [hc]
  exact ⟨name, settings, config, [], hset, rfl⟩

theorem Sound.cell [Like.Engine] (h : s.Sound) (handle : Handle) : (s.cell handle).Reachable := by
  unfold Store.cell
  rw [List.getD_eq_getElem?_getD]
  cases hc : s.cells[handle.index]? with
  | none => exact h.empty ""
  | some c => exact h.cells c (List.mem_of_getElem? hc)

/-- A store opens when its settings are accepted, and is then without collections. -/
theorem exists_of_openWith {settings : List Setting} (h : openWith settings = .ok s) :
    ∃ config, Config.setAll {} settings = .ok config ∧ s = ofConfig config := by
  unfold openWith at h
  cases hset : Config.setAll {} settings with
  | error e => rw [hset] at h; cases h
  | ok config =>
    rw [hset] at h
    cases h
    exact ⟨config, rfl, rfl⟩

theorem sound_of_openWith [Like.Engine] {settings : List Setting} (h : openWith settings = .ok s) : s.Sound := by
  obtain ⟨config, hset, rfl⟩ := exists_of_openWith h
  exact ⟨⟨settings, config, hset, rfl⟩, fun c hc => by cases hc⟩

/-- Asking for a collection makes an empty one at most. -/
theorem Sound.collection [Like.Engine] (h : s.Sound) (name : String) : (s.collection name).2.Sound := by
  unfold Store.collection
  split
  · exact h
  · refine ⟨h.config, fun c hc => ?_⟩
    rcases List.mem_append.mp hc with hc | hc
    · exact h.cells c hc
    · rw [List.mem_singleton.mp hc]
      exact h.empty name

/-- The configuration is frozen, so no change of it is accepted. -/
theorem Sound.configure [Like.Engine] (h : s.Sound) (setting : Setting) : (s.configure setting).2.Sound := by
  obtain ⟨settings, config, -, hc⟩ := h.config
  unfold Store.configure Config.set
  rw [hc]
  exact h

theorem Sound.on [Like.Engine] (h : s.Sound) (handle : Handle) (a : Collection.Action) :
    (s.update handle (·.perform a)).2.Sound := by
  refine ⟨h.config, fun c hc => ?_⟩
  rcases List.mem_or_eq_of_mem_set hc with hc | rfl
  · exact h.cells c hc
  · exact (h.cell handle).perform a

/-- Every action keeps a store sound. -/
theorem Sound.perform [Like.Engine] (h : s.Sound) (a : Action) : (s.perform a).2.Sound := by
  cases a with
  | collection name => exact h.collection name
  | dropCollection name => exact ⟨h.config, h.cells⟩
  | configure setting => exact h.configure setting
  | query text params =>
    show (s.query text params).2.Sound
    unfold Store.query
    split
    · exact h
    · exact h.collection _
  | on handle a => exact h.on handle a
  | _ => exact h

theorem Reachable.perform [Like.Engine] (h : s.Reachable) (a : Action) : (s.perform a).2.Reachable := by
  obtain ⟨settings, s₀, actions, hopen, rfl⟩ := h
  refine ⟨settings, s₀, actions ++ [a], hopen, ?_⟩
  unfold run
  rw [List.foldl_append]
  rfl

theorem Reachable.sound [Like.Engine] (h : s.Reachable) : s.Sound := by
  obtain ⟨settings, s₀, actions, hopen, rfl⟩ := h
  have hs := sound_of_openWith hopen
  clear hopen
  induction actions generalizing s₀ with
  | nil => exact hs
  | cons a actions ih => exact ih _ (hs.perform a)

end DocStore.Store
