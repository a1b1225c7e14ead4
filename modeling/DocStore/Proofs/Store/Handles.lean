import DocStore.Proofs.Store.Naming
import DocStore.Proofs.Store.Scanning

/-!
# Handles and dropping

A name that is not dropped keeps its cell (`lookup_run_of_not_drops`), one that is dropped comes back in a later cell
(`Newer.perform`), which is empty as long as nobody asked for it (`Untouched.perform`). The cells of dropped collections
stay where they are, so handles and iterations go on with them. Main statement: `handles_exact`.
-/

namespace DocStore

namespace Store

variable {s : Store} {name n : String} {h : Handle} {a : Action}

/-! ## Dropping -/

/-- Among some actions is one that drops a name while it is registered. -/
def Drops [Like.Engine] (s : Store) (name : String) (actions : List Action) : Prop :=
  ∃ before after, actions = before ++ .dropCollection name :: after ∧
    ((s.run before).perform (.dropCollection name)).1 = .ok (.flag true)

theorem collection_of_lookup (hn : s.registry.lookup name = some h) : s.collection name = (h, s) := by
  unfold Store.collection
  rw [hn]

theorem Drops.cons [Like.Engine] {actions : List Action} (hd : (s.perform a).2.Drops name actions) :
    s.Drops name (a :: actions) := by
  obtain ⟨before, after, rfl, hreply⟩ := hd
  exact ⟨a :: before, after, rfl, hreply⟩

/-- A name that is not dropped keeps its place. -/
theorem lookup_run_of_not_drops [Like.Engine] {actions : List Action} (hn : s.registry.lookup name = some h)
    (hd : ¬ s.Drops name actions) : (s.run actions).registry.lookup name = some h := by
  induction actions generalizing s with
  | nil => exact hn
  | cons a actions ih =>
    refine ih ?_ fun hrest => hd hrest.cons
    by_cases ha : a = .dropCollection name
    · subst ha
      refine absurd ⟨[], actions, rfl, ?_⟩ hd
      show Except.ok (Reply.flag (s.registry.lookup name).isSome) = _
      rw [hn]
      rfl
    · by_cases hr : a.RefersTo s.config.separator name
      · rw [lookup_perform_of_refersTo hr, collection_of_lookup hn]
      · rw [lookup_perform_of_not hr ha, hn]

/-- A name has its place at or after some cell, if it has one. -/
structure Newer (s : Store) (name : String) (bound : Nat) : Prop where
  le_length : bound ≤ s.cells.length
  le_index : ∀ h, s.registry.lookup name = some h → bound ≤ h.index

theorem Newer.le_collection {bound : Nat} (hs : s.Newer name bound) : bound ≤ (s.collection name).1.index := by
  cases hn : s.registry.lookup name with
  | some h =>
    rw [collection_of_lookup hn]
    exact hs.le_index h hn
  | none =>
    unfold Store.collection
    rw [hn]
    exact hs.le_length

theorem Newer.perform [Like.Engine] {bound : Nat} (hs : s.Newer name bound) (a : Action) :
    (s.perform a).2.Newer name bound := by
  refine ⟨Nat.le_trans hs.le_length (length_cells_perform s a), fun h hn => ?_⟩
  by_cases hr : a.RefersTo s.config.separator name
  · rw [lookup_perform_of_refersTo hr] at hn
    cases hn
    exact hs.le_collection
  · by_cases hd : a = .dropCollection name
    · rw [hd, lookup_perform_dropCollection] at hn
      cases hn
    · rw [lookup_perform_of_not hr hd] at hn
      exact hs.le_index h hn

theorem Newer.run [Like.Engine] {bound : Nat} (hs : s.Newer name bound) (actions : List Action) :
    (s.run actions).Newer name bound := by
  induction actions generalizing s with
  | nil => exact hs
  | cons a actions ih => exact ih (hs.perform a)

/-- A name that was dropped has its place after all cells that were there. -/
theorem newer_dropCollection [Like.Engine] (s : Store) (name : String) :
    (s.perform (.dropCollection name)).2.Newer name s.cells.length := by
  refine ⟨Nat.le_refl _, fun h hn => ?_⟩
  rw [lookup_perform_dropCollection] at hn
  cases hn

/-- A later handle of a name is the earlier one as long as the name was not dropped, and never that of another name. -/
theorem Filed.collection_fst_eq_iff [Like.Engine] (hs : s.Filed) {m : String} {actions : List Action} :
    (((s.collection n).2.run actions).collection m).1 = (s.collection n).1 ↔
      n = m ∧ ¬ (s.collection n).2.Drops n actions := by
  obtain ⟨hlt, hname⟩ := hs.cell_collection_self n
  have hstart := hs.collection n
  generalize hh : (s.collection n).1 = h at hlt hname ⊢
  have hn : (s.collection n).2.registry.lookup n = some h := by rw [lookup_collection, if_pos rfl, hh]
  generalize (s.collection n).2 = start at hlt hname hstart hn ⊢
  constructor
  · intro heq
    have hend := hstart.run actions
    have hlt' : h.index < (start.run actions).cells.length := Nat.lt_of_lt_of_le hlt (length_cells_run actions start)
    -- a cell keeps its name, so both names are that of the collection in it
    have hm := (hend.cell_collection_self m).2
    rw [heq, cell_collection hlt', cell_run hlt, Collection.name_run, hname] at hm
    subst hm
    refine ⟨rfl, ?_⟩
    rintro ⟨before, after, rfl, -⟩
    have hnewer := (newer_dropCollection (start.run before) n).run after
    have hle := hnewer.le_collection
    have hbefore := length_cells_run before start
    rw [Store.run, List.foldl_append] at heq
    have hindex : h.index = _ := congrArg Handle.index heq.symm
    have hrun : (start.run before).cells.length ≤ h.index := hindex ▸ hle
    omega
  · rintro ⟨rfl, hd⟩
    rw [collection_of_lookup (lookup_run_of_not_drops hn hd)]

/-! ## Collections that nobody asked for -/

/-- Every handle that actions use is known from before or has been replied to one of the actions before. -/
def UsesHandles [Like.Engine] : Store → (Handle → Prop) → List Action → Prop
  | _, _, [] => True
  | s, known, a :: actions =>
    (∀ h b, a = .on h b → known h) ∧
      (s.perform a).2.UsesHandles (fun h => known h ∨ (s.perform a).1 = .ok (.handle h)) actions

theorem reply_eq_handle_iff [Like.Engine] :
    (s.perform a).1 = .ok (.handle h) ↔ ∃ n, a = .collection n ∧ (s.collection n).1 = h := by
  cases a with
  | collection m =>
    show Except.ok (Reply.handle (s.collection m).1) = _ ↔ _
    simp
  | configure setting =>
    refine iff_of_false ?_ (by simp)
    show (s.configure setting).1.map _ ≠ _
    cases (s.configure setting).1 <;> nofun
  | query text params =>
    refine iff_of_false ?_ (by simp)
    show (s.query text params).1.map _ ≠ _
    cases (s.query text params).1 <;> nofun
  | on h' b =>
    refine iff_of_false ?_ (by simp)
    show ((s.cell h').perform b).1.map _ ≠ _
    cases ((s.cell h').perform b).1 <;> nofun
  | _ => exact iff_of_false nofun (by simp)

/-- If a name is registered, its collection is still empty, and no known handle leads to it. -/
structure Untouched (s : Store) (name : String) (known : Handle → Prop) : Prop where
  known_lt : ∀ h, known h → h.index < s.cells.length
  fresh : ∀ h, s.registry.lookup name = some h → ¬ known h ∧ s.cell h = .empty name s.config

/-- A name that nobody asked for has an empty collection when it is asked for, and no known handle leads to it. -/
theorem Untouched.collection {known : Handle → Prop} (hu : s.Untouched name known) :
    ¬ known (s.collection name).1 ∧ (s.collection name).2.cell (s.collection name).1 = .empty name s.config := by
  cases hn : s.registry.lookup name with
  | some h =>
    rw [collection_of_lookup hn]
    exact hu.fresh h hn
  | none =>
    unfold Store.collection
    rw [hn]
    refine ⟨fun hk => Nat.lt_irrefl _ (hu.known_lt _ hk), ?_⟩
    show (s.cells ++ [Collection.empty name s.config]).getD s.cells.length _ = _
    have hlt : s.cells.length < (s.cells ++ [Collection.empty name s.config]).length := by simp
    rw [List.getD_eq_getElem _ _ hlt, List.getElem_concat_length rfl]

/-- The collection of a name stays empty until somebody asks for it. -/
theorem Untouched.perform [Like.Engine] {known : Handle → Prop} (hs : s.Filed) (hu : s.Untouched name known)
    (ha : a ≠ .collection name) (hknown : ∀ h b, a = .on h b → known h) :
    (s.perform a).2.Untouched name fun h => known h ∨ (s.perform a).1 = .ok (.handle h) := by
  have hlength := length_cells_perform s a
  refine ⟨?_, fun h hn => ?_⟩
  · rintro h (hk | hreply)
    · exact Nat.lt_of_lt_of_le (hu.known_lt h hk) hlength
    · obtain ⟨n, rfl, rfl⟩ := reply_eq_handle_iff.mp hreply
      exact (hs.cell_collection_self n).1
  · rw [hs.config_perform]
    -- no handle that was just replied leads to the collection, for it would have another name
    have hreply : (s.perform a).1 ≠ .ok (.handle h) := by
      intro hreply
      obtain ⟨n, rfl, rfl⟩ := reply_eq_handle_iff.mp hreply
      have hself : (s.collection n).2.registry.lookup n = some (s.collection n).1 :=
        lookup_collection.trans (if_pos rfl)
      exact ha (congrArg _ ((hs.collection n).name_inj hself hn))
    rw [or_iff_left hreply]
    by_cases hr : a.RefersTo s.config.separator name
    · rw [lookup_perform_of_refersTo hr] at hn
      cases hn
      rw [perform_snd_of_refersTo hr]
      exact hu.collection
    · by_cases hd : a = .dropCollection name
      · rw [hd, lookup_perform_dropCollection] at hn
        cases hn
      · rw [lookup_perform_of_not hr hd] at hn
        obtain ⟨hnot, hempty⟩ := hu.fresh h hn
        refine ⟨hnot, ?_⟩
        rw [cell_perform (hs.cell name h hn).1, hempty]
        cases a with
        | on h' b =>
          have hne : h' ≠ h := fun he => hnot (he ▸ hknown h' b rfl)
          rw [Action.on?, if_neg hne, Option.elim_none]
        | _ => rfl

theorem Untouched.run [Like.Engine] {known : Handle → Prop} {actions : List Action} (hs : s.Filed)
    (hu : s.Untouched name known)
    (ha : .collection name ∉ actions) (huses : s.UsesHandles known actions) :
    ∃ known', (∀ h, known h → known' h) ∧ (s.run actions).Untouched name known' := by
  induction actions generalizing s known with
  | nil => exact ⟨known, fun _ => id, hu⟩
  | cons a actions ih =>
    rw [List.mem_cons, not_or] at ha
    obtain ⟨known', hsub, hrun⟩ := ih (hs.perform a) (hu.perform hs (Ne.symm ha.1) huses.1) ha.2 huses.2
    exact ⟨known', fun h hk => hsub h (Or.inl hk), hrun⟩

/-- After a name was dropped, the next collection that is asked for under it is an empty one, in a cell of its own. -/
theorem Filed.collection_after_drop [Like.Engine] (hs : s.Filed) {mid : List Action} (hmid : .collection name ∉ mid)
    (huses : (s.perform (.dropCollection name)).2.UsesHandles (·.index < s.cells.length) mid) :
    let t := (s.perform (.dropCollection name)).2.run mid
    s.cells.length ≤ (t.collection name).1.index ∧
      (t.collection name).2.cell (t.collection name).1 = .empty name s.config := by
  intro t
  have hdropped : (s.perform (.dropCollection name)).2.Filed := hs.perform _
  have hu : (s.perform (.dropCollection name)).2.Untouched name (·.index < s.cells.length) := by
    refine ⟨fun h hlt => hlt, fun h hn => ?_⟩
    rw [lookup_perform_dropCollection] at hn
    cases hn
  obtain ⟨known', hsub, hrun⟩ := hu.run hdropped hmid huses
  obtain ⟨hnot, hempty⟩ := hrun.collection
  refine ⟨Nat.le_of_not_lt fun hlt => hnot (hsub _ hlt), ?_⟩
  rw [hempty, hdropped.config_run, hs.config_perform]

/-! ## Handles -/

/-- **Handles, names and dropping.** At any moment of any run the registered names are those that were referred to since
they were last dropped, in increasing order. Two handles are one exactly when they were asked for by one name that was
not dropped in between. What is done through a handle changes the collection in its cell and no other one, and a
collection, like an iteration over its keys, goes on by what is done to it alone, whatever happens to its name; an
iteration over a scan goes on by its own steps alone. Dropping a name changes no cell, and the next collection that is
asked for under the name is an empty one. -/
theorem handles_exact [Like.Engine] {settings : List Setting} {s₀ : Store} (hopen : openWith settings = .ok s₀)
    (actions : List Action) :
    let s := s₀.run actions
    (∃ names, (s.perform .collectionNames).1 = .ok (.names names) ∧ names.Pairwise (· < ·) ∧
      ∀ name, name ∈ names ↔ LastReferred s₀.config.separator name actions) ∧
    (∀ n, (s.collection n).1.index < (s.collection n).2.cells.length ∧
      ((s.collection n).2.cell (s.collection n).1).name = n) ∧
    (∀ n m more, (((s.collection n).2.run more).collection m).1 = (s.collection n).1 ↔
      n = m ∧ ¬ (s.collection n).2.Drops n more) ∧
    (∀ h b h', h'.index < s.cells.length →
      (s.perform (.on h b)).1 = ((s.cell h).perform b).1.map .ofCollection ∧
      (s.perform (.on h b)).2.cell h' = if h = h' then ((s.cell h).perform b).2 else s.cell h') ∧
    (∀ h more, h.index < s.cells.length → (s.run more).cell h = (s.cell h).run (actionsOn h more)) ∧
    (∀ cursors i h left events, h.index < s.cells.length → cursors[i]? = some (.keys h left) →
      Session.given i ⟨s, cursors⟩ events =
        (s.cell h).course left (events.filterMap (Session.Event.course? h i))) ∧
    (∀ cursors i left events, cursors[i]? = some (.snapshot left) →
      Session.given i ⟨s, cursors⟩ events = left.take (Session.steps i events)) ∧
    ∀ name, (s.perform (.dropCollection name)).1 = .ok (.flag (decide (name ∈ s.collectionNames))) ∧
      (s.perform (.dropCollection name)).2.cells = s.cells ∧
      ∀ mid, .collection name ∉ mid →
        (s.perform (.dropCollection name)).2.UsesHandles (·.index < s.cells.length) mid →
        let t := (s.perform (.dropCollection name)).2.run mid
        s.cells.length ≤ (t.collection name).1.index ∧
          (t.collection name).2.cell (t.collection name).1 = .empty name s₀.config := by
  intro s
  have hstart := filed_of_openWith hopen
  have hs : s.Filed := hstart.run actions
  have hnone : s₀.collectionNames = [] := by
    obtain ⟨config, -, rfl⟩ := exists_of_openWith hopen
    rfl
  refine ⟨⟨s.collectionNames, rfl, ?_, fun name => mem_collectionNames_run hstart hnone actions⟩,
    fun n => hs.cell_collection_self n, fun n m more => hs.collection_fst_eq_iff, ?_,
    fun h more hlt => cell_run hlt more, fun cursors i h left events hlt hi => Session.given_keys hlt hi events, ?_, ?_⟩
  · exact List.pairwise_map.mpr hs.sorted
  · intro h b h' hlt
    refine ⟨rfl, (cell_update hlt h (·.perform b)).trans ?_⟩
    by_cases he : h = h'
    · rw [if_pos he, if_pos he, he]
    · rw [if_neg he, if_neg he]
  · intro cursors i left events hi
    have hi' : (Session.mk s cursors).cursors[i]? = some (.snapshot left) := hi
    exact Session.given_snapshot hi' events
  · intro name
    refine ⟨reply_dropCollection s name, rfl, fun mid hmid huses => ?_⟩
    have hfresh := hs.collection_after_drop hmid huses
    rw [hstart.config_run actions] at hfresh
    exact hfresh

/-- A collection is dropped while it holds a document, another one was named by a query only. -/
def dropActions : List Action :=
  [.collection "a", .on ⟨0⟩ (.upsert 1 (.ofList [("_key", .string "k")])), .query "FOR x IN b RETURN x" .empty,
   .dropCollection "a"]

/-- The handle of the dropped collection is still good; the query names the collection again without asking for it. -/
def laterActions : List Action :=
  [.on ⟨0⟩ (.upsert 2 (.ofList [("_key", .string "l")])), .query "FOR x IN b RETURN x" .empty]

open Like.Sized

theorem handles_exact_dropped :
    let s := (ofConfig {}).run dropActions
    let t := (s.perform (.dropCollection "b")).2.run laterActions
    (s.perform .collectionNames).1 = .ok (.names ["b"]) ∧
    LastReferred "." "b" dropActions ∧ ¬ LastReferred "." "a" dropActions ∧
    (t.cell ⟨0⟩).documents.map (·.1) = ["k", "l"] ∧
    2 ≤ (t.collection "b").1.index ∧
      (t.collection "b").2.cell (t.collection "b").1 = .empty "b" (Config.freeze {}) := by
  intro s t
  obtain ⟨⟨names, hreply, -, hmem⟩, -, -, -, -, -, -, hdrop⟩ := @handles_exact engine [] (ofConfig {}) rfl dropActions
  have hb : s.collectionNames = ["b"] := by decide +kernel
  have hnames : (s.perform .collectionNames).1 = .ok (.names ["b"]) := by
    rw [← hb]
    rfl
  have hlength : s.cells.length = 2 := by decide +kernel
  rw [hnames] at hreply
  cases hreply
  obtain ⟨-, -, hnext⟩ := hdrop "b"
  have huses : (s.perform (.dropCollection "b")).2.UsesHandles (·.index < s.cells.length) laterActions := by
    refine ⟨fun h b he => ?_, ?_, trivial⟩
    · cases he
      rw [hlength]
      decide
    · nofun
  obtain ⟨hle, hempty⟩ := hnext laterActions (by simp [laterActions]) huses
  refine ⟨hnames, (hmem "b").mp (by decide), fun h => ?_, by decide +kernel, hlength ▸ hle, hempty⟩
  exact absurd ((hmem "a").mpr h) (by decide)

end Store
end DocStore
