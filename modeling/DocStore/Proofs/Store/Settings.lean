import DocStore.Proofs.Collection.Paging
import DocStore.Proofs.Collection.Queries
import DocStore.Proofs.FirstFailure
import DocStore.Proofs.Store.Naming

/-!
# Settings from the opening on

A store opens with the settings given last, unless one of them makes no sense: then it fails as the first of these
(`openWith_eq_error_iff`, `openWith_eq_ok_iff`). From then on no action changes a setting, and all collections, those of
dropped names included, read paths with the separator of the configuration wherever they read any (`ReadsWith`,
`Reachable.readsWith`, `Filed.query_eq`).
-/

namespace DocStore

/-! ## One setting -/

namespace Setting

variable {s : Setting} {e : StoreError}

/-- A setting whose value makes sense. -/
def Valid : Setting → Prop
  | separator text => text ≠ ""
  | timestampField name => name ≠ "" ∧ name ≠ keyField
  | resultWindow size => size ≠ 0

/-- A setting whose value makes no sense, with the error that says so. -/
inductive Invalid : Setting → StoreError → Prop where
  | separator : Invalid (.separator "") .separatorEmpty
  | timestampField : Invalid (.timestampField "") .timestampFieldEmpty
  | keyField : Invalid (.timestampField keyField) .timestampFieldIsKey
  | resultWindow : Invalid (.resultWindow 0) .windowZero

theorem Invalid.kind_eq (h : s.Invalid e) : e.kind = .invalidOperation := by cases h <;> rfl

theorem valid_or_invalid (s : Setting) : s.Valid ∨ ∃ e, s.Invalid e := by
  cases s with
  | separator text =>
    by_cases h : text = ""
    · subst h
      exact Or.inr ⟨_, .separator⟩
    · exact Or.inl h
  | timestampField name =>
    by_cases h : name = ""
    · subst h
      exact Or.inr ⟨_, .timestampField⟩
    · by_cases hk : name = DocStore.keyField
      · subst hk
        exact Or.inr ⟨_, .keyField⟩
      · exact Or.inl ⟨h, hk⟩
  | resultWindow size =>
    by_cases h : size = 0
    · subst h
      exact Or.inr ⟨_, .resultWindow⟩
    · exact Or.inl h

/-- The separator that a setting gives. -/
def separator? : Setting → Option String
  | separator text => some text
  | _ => none

/-- The timestamp field that a setting gives. -/
def timestampField? : Setting → Option String
  | timestampField name => some name
  | _ => none

/-- The result window that a setting gives. -/
def resultWindow? : Setting → Option Nat
  | resultWindow size => some size
  | _ => none

/-- What the last of some settings gives that gives anything of a kind. -/
def lastGiven {α : Type} (f : Setting → Option α) (settings : List Setting) : Option α :=
  (settings.filterMap f).getLast?

theorem lastGiven_concat {α : Type} (f : Setting → Option α) (settings : List Setting) (s : Setting) :
    lastGiven f (settings ++ [s]) = (f s).or (lastGiven f settings) := by
  unfold lastGiven
  rw [List.filterMap_append]
  cases hs : f s with
  | none => rw [List.filterMap_cons_none hs, List.filterMap_nil, List.append_nil, Option.none_or]
  | some a => rw [List.filterMap_cons_some hs, List.filterMap_nil, List.getLast?_concat, Option.some_or]

end Setting

/-! ## All settings -/

namespace Config

variable {c : Config} {s : Setting} {settings : List Setting} {e : StoreError}

/-- The configuration with the value of a setting, whatever it is. -/
def given (c : Config) : Setting → Config
  | .separator text => { c with separator := text }
  | .timestampField name => { c with timestampField := some name }
  | .resultWindow size => { c with resultWindow := some size }

theorem frozen_given (c : Config) (s : Setting) : (c.given s).frozen = c.frozen := by cases s <;> rfl

theorem set_of_valid (hc : c.frozen = false) (hs : s.Valid) : c.set s = .ok (c.given s) := by
  unfold set
  rw [if_neg (Bool.eq_false_iff.mp hc)]
  cases s with
  | separator text => exact if_neg hs
  | timestampField name => exact (if_neg hs.1).trans (if_neg hs.2)
  | resultWindow size => exact if_neg hs

theorem set_of_invalid (hc : c.frozen = false) (hs : s.Invalid e) : c.set s = .error e := by
  unfold set
  rw [if_neg (Bool.eq_false_iff.mp hc)]
  cases hs <;> rfl

theorem setAll_of_valid (hc : c.frozen = false) (hs : ∀ s ∈ settings, s.Valid) :
    c.setAll settings = .ok (settings.foldl given c) := by
  induction settings generalizing c with
  | nil => rfl
  | cons s ss ih =>
    obtain ⟨hs, hss⟩ := List.forall_mem_cons.mp hs
    rw [setAll, set_of_valid hc hs]
    exact ih ((frozen_given c s).trans hc) hss

theorem setAll_of_firstFailing (hc : c.frozen = false) (h : FirstFailing Setting.Valid Setting.Invalid settings e) :
    c.setAll settings = .error e := by
  induction settings generalizing c with
  | nil => exact absurd h not_firstFailing_nil
  | cons s ss ih =>
    rcases firstFailing_cons.mp h with hs | ⟨hs, hss⟩
    · rw [setAll, set_of_invalid hc hs]
      rfl
    · rw [setAll, set_of_valid hc hs]
      exact ih ((frozen_given c s).trans hc) hss

/-- The configuration that settings make of the default one: of each setting the last value given. -/
def ofSettings (settings : List Setting) : Config where
  separator := (Setting.lastGiven Setting.separator? settings).getD "."
  timestampField := Setting.lastGiven Setting.timestampField? settings
  resultWindow := Setting.lastGiven Setting.resultWindow? settings

theorem ofSettings_concat (settings : List Setting) (s : Setting) :
    ofSettings (settings ++ [s]) = (ofSettings settings).given s := by
  unfold ofSettings
  rw [Setting.lastGiven_concat, Setting.lastGiven_concat, Setting.lastGiven_concat]
  cases s <;> rfl

theorem foldl_given_eq_ofSettings (settings : List Setting) : settings.foldl given {} = ofSettings settings := by
  induction settings using List.reverseRecOn with
  | nil => rfl
  | append_singleton ss s ih => rw [List.foldl_concat, ih, ofSettings_concat]

end Config

/-! ## Paths in a collection -/

namespace Collection

/-- A collection reads every path with this separator: to parse the queries put to it, to test and sort its documents,
and to find the tuples under which they stand in its indexes. -/
structure ReadsWith [Like.Engine] (separator : String) (c : Collection) : Prop where
  badSyntax : ∀ text params e, Query.parse text separator = .error e → c.bindQuery text params = .error (.badSyntax e)
  bindQuery : ∀ text params q, Query.parse text separator = .ok q → c.bindQuery text params =
    if q.collection = c.name then q.bind params else .error (.otherCollection q.collection c.name)
  evaluate : ∀ b answers, answers = c.evaluate b ↔
    ∃ sorted, IsStableSort (fun e f => Query.sortOrder separator b.sort e.2 f.2)
        (c.documents.filter fun e => b.conditions.all fun cond =>
          cond.op.test (compare (Value.ofOption (e.2.getPath cond.field separator)) cond.value)) sorted ∧
      answers = window b sorted
  equalMatches : ∀ predicate,
    (c.equalMatches predicate).Perm (c.documents.filter fun e => predicate.satisfies separator e.2)
  likeMatches : ∀ predicate, c.likeMatches predicate =
    (Like.clauses predicate).map fun cs => c.documents.filter fun e => Like.matchesAny separator cs e.2
  sorted : ∀ order fields es, IsStableSort
    (fun d e => order.apply (compare (Query.sortTuple separator fields d) (Query.sortTuple separator fields e)))
    (es.map (·.2)) ((c.sorted order fields es).map (·.2))
  tuples : ∀ ix ∈ c.indexes, ∀ t k, k ∈ ix.keysAt t ↔
    ∃ d, c.get? k = some d ∧ (t == Index.Tuple.ofDocument separator ix.descriptor.fields d) = true

theorem bindQuery_of_parse {c : Collection} {text : String} {q : Query} (hq : Query.parse text c.separator = .ok q)
    (params : Document) : c.bindQuery text params =
      if q.collection = c.name then q.bind params else .error (.otherCollection q.collection c.name) := by
  unfold Collection.bindQuery
  rw [hq]
  by_cases hname : q.collection = c.name
  · rw [if_pos hname]
    exact if_neg (not_not.mpr hname)
  · rw [if_neg hname]
    exact if_pos hname

theorem Consistent.readsWith [Like.Engine] {c : Collection} (h : c.Consistent) : c.ReadsWith c.separator where
  badSyntax text params e he := by
    unfold Collection.bindQuery
    rw [he]
    rfl
  bindQuery text params q hq := bindQuery_of_parse hq params
  evaluate b answers := h.eq_evaluate_iff
  equalMatches := h.equalMatches_perm
  likeMatches predicate := rfl
  sorted order fields es := isSorted_sorted order fields es
  tuples ix hix := (h.tracks ix hix).mem_keysAt

end Collection

namespace Store

variable {s : Store} {settings : List Setting} {e : StoreError}

/-! ## Opening -/

theorem openWith_of_valid (h : ∀ x ∈ settings, x.Valid) : openWith settings = .ok (ofConfig (Config.ofSettings settings)) := by
  rw [openWith, Config.setAll_of_valid rfl h, Config.foldl_given_eq_ofSettings]
  rfl

theorem openWith_of_firstFailing (h : FirstFailing Setting.Valid Setting.Invalid settings e) :
    openWith settings = .error e := by
  rw [openWith, Config.setAll_of_firstFailing rfl h]
  rfl

/-- The store that some settings open, if each of them makes sense. -/
def Opens (settings : List Setting) (s : Store) : Prop :=
  (∀ x ∈ settings, x.Valid) ∧ s = ofConfig (Config.ofSettings settings)

theorem Opens.openWith_eq (h : Opens settings s) : openWith settings = .ok s := h.2 ▸ openWith_of_valid h.1

theorem opens_or_firstFailing (settings : List Setting) :
    (∃ s, Opens settings s) ∨ ∃ e, FirstFailing Setting.Valid Setting.Invalid settings e :=
  (accepted_or_firstFailing Setting.valid_or_invalid settings).imp_left fun hvalid => ⟨_, hvalid, rfl⟩

theorem openWith_eq_ok_iff : openWith settings = .ok s ↔ Opens settings s :=
  eq_ok_iff_of_total (fun _ => Opens.openWith_eq) (fun _ => openWith_of_firstFailing) (opens_or_firstFailing settings)

theorem openWith_eq_error_iff : openWith settings = .error e ↔
    FirstFailing Setting.Valid Setting.Invalid settings e :=
  eq_error_iff_of_total (fun _ => Opens.openWith_eq) (fun _ => openWith_of_firstFailing) (opens_or_firstFailing settings)

/-! ## From the opening on -/

/-- A query put to a store is parsed once more by the collection that it names, in the same way: it is answered as bound. -/
theorem Filed.query_eq (hs : s.Filed) {text : String} {q : Query} (hq : Query.parse text s.config.separator = .ok q)
    (params : Document) : (s.query text params).1 = (q.bind params).map fun b =>
      s.config.cap ((((s.collection q.collection).2.cell (s.collection q.collection).1).evaluate b).map (·.2)) := by
  have hconfig := (hs.collection q.collection).config_cell (s.collection q.collection).1
  rw [config_collection] at hconfig
  have hname := (hs.cell_collection_self q.collection).2
  have hbind : ((s.collection q.collection).2.cell (s.collection q.collection).1).bindQuery text params =
      q.bind params := by
    rw [Collection.bindQuery_of_parse (by rw [Collection.separator, hconfig, hq]), if_pos hname.symm]
  unfold Store.query
  rw [hq]
  show ((s.collection q.collection).2.cell (s.collection q.collection).1).find text params = _
  rw [Collection.find, hbind, hconfig]
  cases q.bind params <;> rfl

theorem Reachable.readsWith [Like.Engine] (hs : s.Reachable) (hf : s.Filed) {c : Collection} (hc : c ∈ s.cells) :
    c.ReadsWith s.config.separator := by
  have hreads := (hs.sound.cells c hc).consistent.readsWith
  rw [Collection.separator, hf.config c hc] at hreads
  exact hreads

/-- **The settings of a store are settled when it opens, and seen alike everywhere.** A store does not open exactly when
some setting makes no sense, and then the first such one gives the error. Otherwise each setting is the last value given
or its default, and it stays so whatever is done with the store: every change of a setting is refused and changes
nothing, and every collection ever made, those of dropped names included, reads all paths with the separator of the
configuration, as do the queries put to the store. -/
theorem settings_exact [Like.Engine] (settings : List Setting) :
    (∀ e, openWith settings = .error e ↔ FirstFailing Setting.Valid Setting.Invalid settings e) ∧
    (∀ x e, Setting.Invalid x e → e.kind = .invalidOperation) ∧
    ((∃ s, openWith settings = .ok s) ↔ ∀ x ∈ settings, x.Valid) ∧
    ∀ s₀, openWith settings = .ok s₀ → ∀ actions s, s = s₀.run actions →
      s.config.separator = (Setting.lastGiven Setting.separator? settings).getD "." ∧
      s.config.timestampField = Setting.lastGiven Setting.timestampField? settings ∧
      s.config.resultWindow = Setting.lastGiven Setting.resultWindow? settings ∧
      (∀ setting, s.perform (.configure setting) = (.error (.settingFrozen setting), s) ∧
        (StoreError.settingFrozen setting).kind = .invalidOperation) ∧
      (∀ c ∈ s.cells, c.ReadsWith s.config.separator) ∧
      (∀ text params e, Query.parse text s.config.separator = .error e →
        s.query text params = (.error (.badSyntax e), s)) ∧
      ∀ text params q, Query.parse text s.config.separator = .ok q →
        (s.query text params).1 = (q.bind params).map fun b =>
          s.config.cap ((((s.collection q.collection).2.cell (s.collection q.collection).1).evaluate b).map (·.2)) := by
  refine ⟨fun e => openWith_eq_error_iff, fun x e h => h.kind_eq, ?_, fun s₀ hopen actions s hs => ?_⟩
  · exact ⟨fun ⟨s, h⟩ => (openWith_eq_ok_iff.mp h).1, fun h => ⟨_, openWith_of_valid h⟩⟩
  · have hreachable : s.Reachable := ⟨settings, s₀, actions, hopen, hs⟩
    have hopened := filed_of_openWith hopen
    have hfiled : s.Filed := hs ▸ hopened.run actions
    have hconfig : s.config = (Config.ofSettings settings).freeze := by
      rw [hs, hopened.config_run, (openWith_eq_ok_iff.mp hopen).2]
      rfl
    refine ⟨?_, ?_, ?_, fun setting => ⟨?_, rfl⟩, fun c hc => hreachable.readsWith hfiled hc, fun text params e he => ?_,
      fun text params q hq => hfiled.query_eq hq params⟩
    · rw [hconfig]
      rfl
    · rw [hconfig]
      rfl
    · rw [hconfig]
      rfl
    · have hset : s.config.set setting = .error (.settingFrozen setting) := if_pos hfiled.frozen
      show (s.configure setting).map (·.map fun _ => Reply.done) id = _
      rw [configure, hset]
      rfl
    · rw [Store.query, he]

open Like.Sized

/-- The first of two settings that make no sense gives the error. Of two separators the later one counts, also for a
collection whose name was dropped and after another separator was tried. -/
theorem settings_exact_sample :
    openWith [.separator "/", .timestampField keyField, .resultWindow 0] = .error .timestampFieldIsKey ∧
    ∃ s₀, openWith [.separator "/", .resultWindow 3, .separator "::"] = .ok s₀ ∧
      ∃ c ∈ (s₀.run [.collection "c", .dropCollection "c", .configure (.separator "/")]).cells,
        c.name = "c" ∧ c.ReadsWith "::" := by
  constructor
  · refine ((settings_exact _).1 _).mpr ⟨[.separator "/"], _, [.resultWindow 0], rfl, ?_, .keyField⟩
    exact List.forall_mem_singleton.mpr (show "/" ≠ "" by decide)
  · have hopen : openWith [.separator "/", .resultWindow 3, .separator "::"] =
        .ok (ofConfig ⟨"::", none, some 3, false⟩) := rfl
    obtain ⟨-, -, -, -, hreads, -⟩ := (settings_exact _).2.2.2 _ hopen
      [.collection "c", .dropCollection "c", .configure (.separator "/")] _ rfl
    refine ⟨_, hopen, .empty "c" ⟨"::", none, some 3, true⟩, List.mem_singleton.mpr rfl, rfl, ?_⟩
    exact hreads _ (List.mem_singleton.mpr rfl)

end Store

end DocStore
