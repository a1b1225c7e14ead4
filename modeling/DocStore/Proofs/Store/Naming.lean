import DocStore.Proofs.Store.Effects
import Mathlib.Data.List.Induction

/-!
# Registered names

In a reachable store the registered names stand in order and each has a cell of its own, which holds a collection of
that name (`Filed`, `Filed.perform`). What an action does to the place of a name depends on whether it refers to the
name, drops it or does neither (`lookup_perform_of_refersTo`, `lookup_perform_of_not`), and so a name is registered
exactly when it was referred to since it was last dropped (`mem_collectionNames_run`).
-/

namespace DocStore

namespace Store

variable {s : Store} {name n : String} {h : Handle} {a : Action}

/-! ## The registry -/

theorem mem_collectionNames_iff : name ∈ s.collectionNames ↔ s.registry.lookup name ≠ none := by
  rw [ne_eq, lookup_eq_none_iff, not_not]
  rfl

/-- Dropping a name answers whether it was registered. -/
theorem reply_dropCollection [Like.Engine] (s : Store) (name : String) :
    (s.perform (.dropCollection name)).1 = .ok (.flag (decide (name ∈ s.collectionNames))) := by
  show Except.ok (Reply.flag (s.registry.lookup name).isSome) = _
  rw [Except.ok.injEq, Reply.flag.injEq, Bool.eq_iff_iff, decide_eq_true_iff, mem_collectionNames_iff,
    Option.isSome_iff_ne_none]

theorem lookup_collection : (s.collection n).2.registry.lookup name =
    if name = n then some (s.collection n).1 else s.registry.lookup name := by
  unfold Store.collection
  split
  · next h hn =>
    split
    · next he => rw [he, hn]
    · rfl
  · exact lookup_setEntry

/-- An action that refers to a name leaves it registered. -/
theorem lookup_perform_of_refersTo [Like.Engine] (hr : a.RefersTo s.config.separator name) :
    (s.perform a).2.registry.lookup name = some (s.collection name).1 := by
  rw [perform_snd_of_refersTo hr]
  exact lookup_collection.trans (if_pos rfl)

theorem lookup_perform_dropCollection [Like.Engine] :
    (s.perform (.dropCollection name)).2.registry.lookup name = none :=
  lookup_eraseEntry.trans (if_pos rfl)

/-- An action that neither refers to a name nor drops it leaves its place alone. -/
theorem lookup_perform_of_not [Like.Engine] (hr : ¬ a.RefersTo s.config.separator name)
    (hd : a ≠ .dropCollection name) :
    (s.perform a).2.registry.lookup name = s.registry.lookup name := by
  have hbecomes := becomes_perform s a
  generalize (s.perform a).2 = t at hbecomes ⊢
  cases hbecomes with
  | @refer a n hr' =>
    refine lookup_collection.trans (if_neg fun he => hr ?_)
    rw [he]
    exact hr'
  | drop n => exact lookup_eraseEntry.trans (if_neg fun he => hd (congrArg _ he.symm))
  | _ => rfl

/-! ## Places of names -/

/-- The configuration is frozen and every collection has it; names stand in order, each with a cell of its own that
holds a collection of the name. -/
structure Filed (s : Store) : Prop where
  frozen : s.config.frozen = true
  config : ∀ c ∈ s.cells, c.config = s.config
  sorted : SortedNames s.registry
  cell : ∀ name h, s.registry.lookup name = some h → h.index < s.cells.length ∧ (s.cell h).name = name

theorem filed_of_openWith {settings : List Setting} (hopen : openWith settings = .ok s) : s.Filed := by
  obtain ⟨config, -, rfl⟩ := exists_of_openWith hopen
  exact { frozen := rfl, config := nofun, sorted := List.Pairwise.nil, cell := nofun }

theorem Filed.config_cell (hs : s.Filed) (h : Handle) : (s.cell h).config = s.config := by
  unfold Store.cell
  rw [List.getD_eq_getElem?_getD]
  cases hcell : s.cells[h.index]? with
  | none => rfl
  | some c => exact hs.config c (List.mem_of_getElem? hcell)

/-- Asking for a collection gives a cell that is there, with a collection of the name. -/
theorem Filed.cell_collection_self (hs : s.Filed) (name : String) :
    (s.collection name).1.index < (s.collection name).2.cells.length ∧
      ((s.collection name).2.cell (s.collection name).1).name = name := by
  unfold Store.collection
  split
  · next h hn => exact hs.cell name h hn
  · have hlt : s.cells.length < (s.cells ++ [Collection.empty name s.config]).length := by simp
    refine ⟨hlt, ?_⟩
    show ((s.cells ++ [Collection.empty name s.config]).getD s.cells.length _).name = name
    rw [List.getD_eq_getElem _ _ hlt, List.getElem_concat_length rfl]
    rfl

theorem config_collection (s : Store) (n : String) : (s.collection n).2.config = s.config := by
  unfold Store.collection
  split <;> rfl

theorem Filed.collection (hs : s.Filed) (n : String) : (s.collection n).2.Filed := by
  have hself := hs.cell_collection_self n
  refine ⟨?_, ?_, ?_, fun name h hlookup => ?_⟩
  · rw [config_collection]
    exact hs.frozen
  · unfold Store.collection
    split
    · exact hs.config
    · intro c hc
      rcases List.mem_append.mp hc with hc | hc
      · exact hs.config c hc
      · rw [List.mem_singleton.mp hc]
        rfl
  · unfold Store.collection
    split
    · exact hs.sorted
    · exact hs.sorted.setEntry
  · rw [lookup_collection] at hlookup
    split at hlookup
    · next he =>
      cases hlookup
      exact he ▸ hself
    · obtain ⟨hlt, hname⟩ := hs.cell name h hlookup
      exact ⟨Nat.lt_of_lt_of_le hlt (length_cells_collection s n), (congrArg _ (cell_collection hlt n)).trans hname⟩

/-- The configuration of a store that is filed lets no setting change. -/
theorem Filed.set_ne_ok (hs : s.Filed) (setting : Setting) (config : Config) : s.config.set setting ≠ .ok config := by
  unfold Config.set
  rw [hs.frozen]
  nofun

theorem Filed.on [Like.Engine] (hs : s.Filed) (h : Handle) (b : Collection.Action) :
    (s.update h (·.perform b)).2.Filed := by
  refine ⟨hs.frozen, fun c hc => ?_, hs.sorted, fun name h' hlookup => ?_⟩
  · rcases List.mem_or_eq_of_mem_set hc with hc | rfl
    · exact hs.config c hc
    · exact (Collection.config_perform (s.cell h) b).trans (hs.config_cell h)
  · obtain ⟨hlt, hname⟩ := hs.cell name h' hlookup
    have hlength : (s.update h (·.perform b)).2.cells.length = s.cells.length := List.length_set
    refine ⟨hlength ▸ hlt, ?_⟩
    rw [cell_update hlt, ← hname]
    split
    · exact Collection.name_perform ..
    · rfl

theorem Filed.perform [Like.Engine] (hs : s.Filed) (a : Action) : (s.perform a).2.Filed := by
  have hbecomes := becomes_perform s a
  generalize (s.perform a).2 = t at hbecomes ⊢
  cases hbecomes with
  | refer _ => exact hs.collection _
  | drop n =>
    refine ⟨hs.frozen, hs.config, hs.sorted.eraseEntry, fun name h hlookup => ?_⟩
    have he : (s.dropCollection n).2.registry.lookup name = _ := lookup_eraseEntry
    rw [he] at hlookup
    split at hlookup
    · cases hlookup
    · exact hs.cell name h hlookup
  | configure setting hset => exact absurd hset (hs.set_ne_ok setting _)
  | on h b => exact hs.on h b
  | same _ _ => exact hs

theorem Filed.run [Like.Engine] (hs : s.Filed) (actions : List Action) : (s.run actions).Filed := by
  induction actions generalizing s with
  | nil => exact hs
  | cons a actions ih => exact ih (hs.perform a)

/-- Collections of different names have different handles. -/
theorem Filed.name_inj (hs : s.Filed) (hn : s.registry.lookup name = some h) (hm : s.registry.lookup n = some h) :
    name = n :=
  (hs.cell name h hn).2.symm.trans (hs.cell n h hm).2

theorem Filed.config_perform [Like.Engine] (hs : s.Filed) (a : Action) : (s.perform a).2.config = s.config := by
  have hbecomes := becomes_perform s a
  generalize (s.perform a).2 = t at hbecomes ⊢
  cases hbecomes with
  | refer _ => exact config_collection s _
  | configure setting hset => exact absurd hset (hs.set_ne_ok setting _)
  | _ => rfl

theorem Filed.config_run [Like.Engine] (hs : s.Filed) (actions : List Action) : (s.run actions).config = s.config := by
  induction actions generalizing s with
  | nil => rfl
  | cons a actions ih => exact (ih (hs.perform a)).trans (hs.config_perform a)

/-! ## Registered names -/

theorem mem_collectionNames_perform [Like.Engine] : name ∈ (s.perform a).2.collectionNames ↔
    a.RefersTo s.config.separator name ∨ name ∈ s.collectionNames ∧ a ≠ .dropCollection name := by
  rw [mem_collectionNames_iff, mem_collectionNames_iff]
  by_cases hr : a.RefersTo s.config.separator name
  · rw [lookup_perform_of_refersTo hr]
    exact iff_of_true (Option.some_ne_none _) (Or.inl hr)
  · rw [or_iff_right hr]
    by_cases hd : a = .dropCollection name
    · rw [hd, lookup_perform_dropCollection]
      exact iff_of_false (fun h => h rfl) (fun h => h.2 rfl)
    · rw [lookup_perform_of_not hr hd, and_iff_left hd]

/-- Among some actions is one that refers to a name, and the name is not dropped after it. -/
def LastReferred (separator name : String) (actions : List Action) : Prop :=
  ∃ before a after, actions = before ++ a :: after ∧ a.RefersTo separator name ∧ .dropCollection name ∉ after

theorem lastReferred_concat {separator : String} {actions : List Action} :
    LastReferred separator name (actions ++ [a]) ↔
      a.RefersTo separator name ∨ LastReferred separator name actions ∧ a ≠ .dropCollection name := by
  constructor
  · rintro ⟨before, b, after, he, hb, hno⟩
    rcases List.eq_nil_or_concat after with rfl | ⟨after, c, rfl⟩
    · obtain ⟨-, rfl⟩ := List.append_inj' he rfl |>.imp_right List.singleton_inj.mp
      exact Or.inl hb
    · rw [List.concat_eq_append] at he hno
      rw [← List.cons_append, ← List.append_assoc] at he
      obtain ⟨rfl, hc⟩ := List.append_inj' he rfl
      cases hc
      rw [List.mem_append, List.mem_singleton, not_or] at hno
      exact Or.inr ⟨⟨before, b, after, rfl, hb, hno.1⟩, Ne.symm hno.2⟩
  · rintro (ha | ⟨⟨before, b, after, rfl, hb, hno⟩, ha⟩)
    · exact ⟨actions, a, [], rfl, ha, List.not_mem_nil⟩
    · refine ⟨before, b, after ++ [a], by simp, hb, ?_⟩
      rw [List.mem_append, List.mem_singleton, not_or]
      exact ⟨hno, Ne.symm ha⟩

/-- In a store that began without collections, a name is registered when it was referred to since it was last dropped.
-/
theorem mem_collectionNames_run [Like.Engine] (hs : s.Filed) (hnone : s.collectionNames = []) (actions : List Action) :
    name ∈ (s.run actions).collectionNames ↔ LastReferred s.config.separator name actions := by
  induction actions using List.reverseRecOn with
  | nil =>
    refine iff_of_false ?_ ?_
    · show name ∉ s.collectionNames
      rw [hnone]
      exact List.not_mem_nil
    · rintro ⟨before, a, after, he, -⟩
      exact List.append_ne_nil_of_right_ne_nil before (List.cons_ne_nil a after) he.symm
  | append_singleton actions a ih =>
    rw [Store.run, List.foldl_append, lastReferred_concat, ← ih, ← hs.config_run actions]
    exact mem_collectionNames_perform

end Store
end DocStore
