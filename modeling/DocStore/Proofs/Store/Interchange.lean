import DocStore.Proofs.Collection.Interchange
import DocStore.Proofs.Collection.Iteration
import DocStore.Proofs.Store.Naming
import DocStore.Proofs.Store.Queries

/-!
# Equal values are interchangeable

Sessions are alike when their stores have alike collections at every handle and their iterations have the same keys or
equal documents left (`Session.Alike`). Events that differ in nothing but equal values keep sessions alike
(`Session.Alike.perform`, `Session.Alike.run`) and have answers that show equal documents or errors of one kind
(`Session.Alike.answer`), also with iterations that call back (`Session.Alike.forEachEqual`). Main statement:
`equal_values_interchangeable`.
-/

namespace DocStore

namespace Store

variable {s s' : Store}

/-- Stores with the same names and handles under one configuration, and alike collections at every handle. -/
structure Alike (s s' : Store) : Prop where
  config : s.config = s'.config
  registry : s.registry = s'.registry
  cells : List.Forall₂ Collection.Alike s.cells s'.cells

/-- Actions that differ in nothing but equal values, and in parameters no query names. -/
inductive Action.Alike (separator : String) : Action → Action → Prop
  | collection (name : String) : Alike separator (.collection name) (.collection name)
  | hasCollection (name : String) : Alike separator (.hasCollection name) (.hasCollection name)
  | collectionNames : Alike separator .collectionNames .collectionNames
  | dropCollection (name : String) : Alike separator (.dropCollection name) (.dropCollection name)
  | configure (setting : Setting) : Alike separator (.configure setting) (.configure setting)
  | query {text : String} {params params' : Document} : Query.TextParamsAlike separator text params params' →
      Alike separator (.query text params) (.query text params')
  | on (h : Handle) {b b' : Collection.Action} : b.Alike separator b' → Alike separator (.on h b) (.on h b')

/-- Replies that show the same, with equal documents. -/
inductive Reply.Alike : Reply → Reply → Prop
  | done : Alike .done .done
  | flag (b : Bool) : Alike (.flag b) (.flag b)
  | names (ns : List String) : Alike (.names ns) (.names ns)
  | handle (h : Handle) : Alike (.handle h) (.handle h)
  | documents {ds es : List Document} : List.Forall₂ Same ds es → Alike (.documents ds) (.documents es)
  | ofCollection {r r' : Collection.Reply} : r.Alike r' → Alike (.ofCollection r) (.ofCollection r')

namespace Alike

theorem cell (h : s.Alike s') (handle : Handle) : (s.cell handle).Alike (s'.cell handle) := by
  unfold Store.cell
  rw [h.config]
  exact rel_getD h.cells ⟨rfl, rfl, .nil, .nil, rfl⟩ handle.index

theorem collection (h : s.Alike s') (name : String) :
    (s.collection name).1 = (s'.collection name).1 ∧ (s.collection name).2.Alike (s'.collection name).2 := by
  unfold Store.collection
  rw [h.registry, h.config, h.cells.length_eq]
  cases s'.registry.lookup name with
  | some handle => exact ⟨rfl, h⟩
  | none => exact ⟨rfl, rfl, rfl, List.rel_append h.cells (.cons ⟨rfl, rfl, .nil, .nil, rfl⟩ .nil)⟩

theorem hasCollection (h : s.Alike s') (name : String) :
    Reply.Alike (.flag (s.hasCollection name)) (.flag (s'.hasCollection name)) := by
  unfold Store.hasCollection
  rw [h.registry]
  exact .flag _

theorem configure (h : s.Alike s') (setting : Setting) :
    Outcome Eq (s.configure setting).1 (s'.configure setting).1 ∧
      (s.configure setting).2.Alike (s'.configure setting).2 := by
  unfold Store.configure
  rw [h.config]
  cases s'.config.set setting with
  | error e => exact ⟨.error rfl, h⟩
  | ok config => exact ⟨.ok rfl, rfl, h.registry, h.cells⟩

theorem query (h : s.Alike s') (hs' : s'.Filed) {text : String} {params params' : Document}
    (hparams : Query.TextParamsAlike s'.config.separator text params params') :
    Outcome (List.Forall₂ Same) (s.query text params).1 (s'.query text params').1 ∧
      (s.query text params).2.Alike (s'.query text params').2 := by
  unfold Store.query
  rw [h.config]
  cases Query.parse text s'.config.separator with
  | error e => exact ⟨.error rfl, h⟩
  | ok q =>
    obtain ⟨hhandle, hnext⟩ := h.collection q.collection
    refine ⟨?_, hnext⟩
    show Outcome _ (((s.collection q.collection).2.cell (s.collection q.collection).1).find text params)
      (((s'.collection q.collection).2.cell (s'.collection q.collection).1).find text params')
    rw [hhandle]
    refine (hnext.cell _).outcome_find ?_
    have hconfig := (hs'.collection q.collection).config_cell (s'.collection q.collection).1
    rw [Collection.separator, hconfig, config_collection]
    exact hparams

theorem on [Like.Engine] (h : s.Alike s') (hs' : s'.Filed) (handle : Handle) {b b' : Collection.Action}
    (hb : b.Alike s'.config.separator b') :
    Outcome Collection.Reply.Alike (s.update handle (·.perform b)).1 (s'.update handle (·.perform b')).1 ∧
      (s.update handle (·.perform b)).2.Alike (s'.update handle (·.perform b')).2 := by
  have hseparator : (s'.cell handle).separator = s'.config.separator :=
    congrArg Config.separator (hs'.config_cell handle)
  obtain ⟨hreply, hcell⟩ := (h.cell handle).perform (hseparator ▸ hb)
  exact ⟨hreply, h.config, h.registry, rel_set hcell h.cells handle.index⟩

/-- Alike actions on alike stores have alike outcomes and leave alike stores. -/
theorem perform [Like.Engine] (h : s.Alike s') (hs' : s'.Filed) {a a' : Action} (ha : a.Alike s'.config.separator a') :
    Outcome Reply.Alike (s.perform a).1 (s'.perform a').1 ∧ (s.perform a).2.Alike (s'.perform a').2 := by
  cases ha with
  | collection name =>
    obtain ⟨hhandle, hnext⟩ := h.collection name
    have hreply : Reply.Alike (.handle (s.collection name).1) (.handle (s'.collection name).1) := hhandle ▸ .handle _
    exact ⟨.ok hreply, hnext⟩
  | hasCollection name => exact ⟨.ok (h.hasCollection name), h⟩
  | collectionNames =>
    have hreply : Reply.Alike (.names s.collectionNames) (.names s'.collectionNames) := by
      unfold collectionNames
      rw [h.registry]
      exact .names _
    exact ⟨.ok hreply, h⟩
  | dropCollection name =>
    exact ⟨.ok (h.hasCollection name), h.config, congrArg (eraseEntry name) h.registry, h.cells⟩
  | configure setting => exact (h.configure setting).imp (·.map fun _ _ _ => .done) id
  | query hparams => exact (h.query hs' hparams).imp (·.map fun _ _ => .documents) id
  | on handle hb => exact (h.on hs' handle hb).imp (·.map fun _ _ => .ofCollection) id

end Alike
end Store

/-! ## Iterations -/

theorem Collection.Alike.nextOf {c c' : Collection} (h : c.Alike c') (keys : List String) :
    Option.Rel Same (c.nextOf keys).1 (c'.nextOf keys).1 ∧ (c.nextOf keys).2 = (c'.nextOf keys).2 := by
  induction keys with
  | nil => exact ⟨.none, rfl⟩
  | cons key keys ih =>
    have hget := h.rel_get? key
    unfold Collection.nextOf
    generalize c.get? key = a at hget ⊢
    generalize c'.get? key = b at hget ⊢
    cases hget with
    | none => exact ih
    | some hde => exact ⟨.some hde, rfl⟩

/-- Iterations with the same keys left, or with equal documents left. -/
inductive Cursor.Alike : Cursor → Cursor → Prop
  | keys (h : Handle) (left : List String) : Alike (.keys h left) (.keys h left)
  | snapshot {left left' : List Document} : List.Forall₂ Same left left' → Alike (.snapshot left) (.snapshot left')

theorem Cursor.Alike.next {s s' : Store} {c c' : Cursor} (hs : s.Alike s') (hc : c.Alike c') :
    Option.Rel Same (c.next s).1 (c'.next s').1 ∧ (c.next s).2.Alike (c'.next s').2 := by
  cases hc with
  | keys h left =>
    obtain ⟨hdoc, hleft⟩ := (hs.cell h).nextOf left
    refine ⟨hdoc, ?_⟩
    show Cursor.Alike (.keys h ((s.cell h).nextOf left).2) (.keys h ((s'.cell h).nextOf left).2)
    rw [hleft]
    exact .keys h _
  | snapshot hleft =>
    refine ⟨rel_head? hleft, .snapshot ?_⟩
    cases hleft with
    | nil => exact .nil
    | cons _ hrest => exact hrest

/-! ## Sessions -/

namespace Session

variable {σ σ' : Session}

/-- Sessions in alike stores, with alike iterations. -/
structure Alike (σ σ' : Session) : Prop where
  store : σ.store.Alike σ'.store
  cursors : List.Forall₂ Cursor.Alike σ.cursors σ'.cursors

/-- Events that differ in nothing but equal values, and in parameters no query names. -/
inductive Event.Alike (separator : String) : Event → Event → Prop
  | act {a a' : Store.Action} : a.Alike separator a' → Alike separator (.act a) (.act a')
  | beginEqual (h : Handle) {p p' : Document} : Same p p' → Alike separator (.beginEqual h p) (.beginEqual h p')
  | beginScan (h : Handle) : Alike separator (.beginScan h) (.beginScan h)
  | next (i : Nat) : Alike separator (.next i) (.next i)

/-- Answers that show the same, with equal documents, or errors of one kind. -/
inductive Answer.Alike : Answer → Answer → Prop
  | begun : Alike .begun .begun
  | reply {r r' : Except StoreError Store.Reply} : Outcome Store.Reply.Alike r r' → Alike (.reply r) (.reply r')
  | next {d? e? : Option Document} : Option.Rel Same d? e? → Alike (.next d?) (.next e?)

theorem Alike.perform [Like.Engine] (h : σ.Alike σ') (hs' : σ'.store.Filed) {e e' : Event}
    (he : e.Alike σ'.store.config.separator e') : (σ.perform e).Alike (σ'.perform e') := by
  cases he with
  | act ha => exact ⟨(h.store.perform hs' ha).2, h.cursors⟩
  | beginEqual handle hp =>
    have hkeys := (h.store.cell handle).equalKeys_eq hp
    refine ⟨h.store, List.rel_append h.cursors (.cons ?_ .nil)⟩
    unfold Cursor.ofEqual
    rw [hkeys]
    exact .keys handle _
  | beginScan handle =>
    exact ⟨h.store, List.rel_append h.cursors (.cons (.snapshot (h.store.cell handle).rel_scan) .nil)⟩
  | next i => exact ⟨h.store, rel_modify (fun _ _ hc => (hc.next h.store).2) h.cursors i⟩

theorem Alike.answer [Like.Engine] (h : σ.Alike σ') (hs' : σ'.store.Filed) {e e' : Event}
    (he : e.Alike σ'.store.config.separator e') : (σ.answer e).Alike (σ'.answer e') := by
  cases he with
  | act ha => exact .reply (h.store.perform hs' ha).1
  | beginEqual handle hp => exact .begun
  | beginScan handle => exact .begun
  | next i =>
    have hcursor := rel_getElem? h.cursors i
    refine .next ?_
    unfold upcoming?
    generalize σ.cursors[i]? = a at hcursor ⊢
    generalize σ'.cursors[i]? = b at hcursor ⊢
    cases hcursor with
    | none => exact .none
    | some hc => exact (hc.next h.store).1

theorem filed_run [Like.Engine] {σ : Session} (hs : σ.store.Filed) (events : List Event) :
    (σ.run events).store.Filed ∧ (σ.run events).store.config = σ.store.config := by
  rw [store_run]
  exact ⟨hs.run _, hs.config_run _⟩

/-- Runs of alike events in alike sessions lead to alike sessions. -/
theorem Alike.run [Like.Engine] {separator : String} {events events' : List Event} (h : σ.Alike σ')
    (hs' : σ'.store.Filed)
    (hseparator : σ'.store.config.separator = separator)
    (hevents : List.Forall₂ (Event.Alike separator) events events') : (σ.run events).Alike (σ'.run events') := by
  induction hevents generalizing σ σ' with
  | nil => exact h
  | @cons e e' events events' he _ ih =>
    obtain ⟨hfiled, hconfig⟩ := filed_run hs' [e']
    have hnext : (σ'.perform e').store.config.separator = separator :=
      (congrArg Config.separator hconfig).trans hseparator
    exact ih (h.perform hs' (hseparator ▸ he)) hfiled hnext

/-! ## Callbacks -/

section ForEach

variable {α α' : Type} {callback : Document → Session × α → Value × Session × α}
  {callback' : Document → Session × α' → Value × Session × α'} {M : α → α' → Prop}

/-- Two callbacks do alike: called for equal documents after alike events, with related states of their own, they answer
equal verdicts, do alike events and have related states afterwards. -/
def CallsAlike [Like.Engine] (σ σ' : Session) (M : α → α' → Prop)
    (callback : Document → Session × α → Value × Session × α)
    (callback' : Document → Session × α' → Value × Session × α') : Prop :=
  ∀ d d' a a' events events', Same d d' → M a a' →
    List.Forall₂ (Event.Alike σ'.store.config.separator) events events' →
    ∃ v v' more more' b b', callback d (σ.run events, a) = (v, (σ.run events).run more, b) ∧
      callback' d' (σ'.run events', a') = (v', (σ'.run events').run more', b') ∧
      Same v v' ∧ List.Forall₂ (Event.Alike σ'.store.config.separator) more more' ∧ M b b'

/-- Sessions after alike events, with related states of the callbacks. -/
def AfterAlike [Like.Engine] (σ σ' : Session) (M : α → α' → Prop) (s : Session × α) (t : Session × α') : Prop :=
  (∃ events events', List.Forall₂ (Event.Alike σ'.store.config.separator) events events' ∧
    s.1 = σ.run events ∧ t.1 = σ'.run events') ∧ M s.2 t.2

theorem AfterAlike.alike [Like.Engine] {s : Session × α} {t : Session × α'} (h : σ.Alike σ') (hs' : σ'.store.Filed)
    (hst : AfterAlike σ σ' M s t) : s.1.Alike t.1 := by
  obtain ⟨⟨events, events', hevents, hleft, hright⟩, -⟩ := hst
  rw [hleft, hright]
  exact h.run hs' rfl hevents

/-- Iterations over the matches of equal predicates call alike callbacks for equal documents. -/
theorem Alike.forEachEqual [Like.Engine] (h : σ.Alike σ') (hs' : σ'.store.Filed)
    (hcall : CallsAlike σ σ' M callback callback')
    (handle : Handle) {p p' : Document} (hp : Same p p') {a : α} {a' : α'} (ha : M a a') :
    let result := Collection.forEachEqual (fun s => s.1.store.cell handle) callback p (σ, a)
    let result' := Collection.forEachEqual (fun s => s.1.store.cell handle) callback' p' (σ', a')
    List.Forall₂ Same result.1 result'.1 ∧ result.2.1.Alike result'.2.1 ∧ M result.2.2 result'.2.2 := by
  have hget (s : Session × α) (t : Session × α') (hst : AfterAlike σ σ' M s t) (k : String) :
      Option.Rel Same ((s.1.store.cell handle).get? k) ((t.1.store.cell handle).get? k) :=
    ((hst.alike h hs').store.cell handle).rel_get? k
  have hnext (d d' : Document) (s : Session × α) (t : Session × α') (hd : Same d d') (hst : AfterAlike σ σ' M s t) :
      (callback d s).1.isTruthy = (callback' d' t).1.isTruthy ∧
        AfterAlike σ σ' M (callback d s).2 (callback' d' t).2 := by
    obtain ⟨_, b⟩ := s
    obtain ⟨_, b'⟩ := t
    obtain ⟨⟨events, events', hevents, rfl, rfl⟩, hb⟩ := hst
    obtain ⟨v, v', more, more', e, e', hleft, hright, hv, hmore, he⟩ := hcall d d' b b' events events' hd hb hevents
    rw [hleft, hright]
    refine ⟨Value.isTruthy_eq_of_same hv, ⟨events ++ more, events' ++ more', List.rel_append hevents hmore, ?_, ?_⟩, he⟩
    · exact (run_append σ events more).symm
    · exact (run_append σ' events' more').symm
  have hstart : AfterAlike σ σ' M (σ, a) (σ', a') := ⟨⟨[], [], .nil, rfl, rfl⟩, ha⟩
  obtain ⟨hdocs, hlast⟩ := Collection.rel_forEach hget hnext ((σ'.store.cell handle).equalKeys p') _ _ hstart
  unfold Collection.forEachEqual
  dsimp only
  rw [(h.store.cell handle).equalKeys_eq hp]
  exact ⟨hdocs, hlast.alike h hs', hlast.2⟩

end ForEach

end Session

/-! ## Interchange -/

/-- **Equal values are interchangeable.** Runs of actions on collections that differ in nothing but equal values lead
from empty collections to ones with equal documents under the same keys in the same order and with the same keys under
equal tuples, and their replies show equal documents or are errors of one kind. The same holds of stores with their
iterations, and of callbacks that answer equal verdicts. -/
theorem equal_values_interchangeable [Like.Engine] {settings : List Setting} {s : Store}
    (hopen : Store.openWith settings = .ok s) :
    (∀ name actions actions', List.Forall₂ (Collection.Action.Alike s.config.separator) actions actions' →
      let c := (Collection.empty name s.config).run actions
      let c' := (Collection.empty name s.config).run actions'
      c.Alike c' ∧ ∀ a a', a.Alike s.config.separator a' →
        Outcome Collection.Reply.Alike (c.perform a).1 (c'.perform a').1) ∧
    ∀ events events', List.Forall₂ (Session.Event.Alike s.config.separator) events events' →
      let σ := (Session.mk s []).run events
      let σ' := (Session.mk s []).run events'
      σ.Alike σ' ∧ (∀ e e', e.Alike s.config.separator e' → (σ.answer e).Alike (σ'.answer e')) ∧
      ∀ (α α' : Type) (M : α → α' → Prop) callback callback', Session.CallsAlike σ σ' M callback callback' →
        ∀ handle p p' a a', Same p p' → M a a' →
          let result := Collection.forEachEqual (fun s => s.1.store.cell handle) callback p (σ, a)
          let result' := Collection.forEachEqual (fun s => s.1.store.cell handle) callback' p' (σ', a')
          List.Forall₂ Same result.1 result'.1 ∧ result.2.1.Alike result'.2.1 ∧ M result.2.2 result'.2.2 := by
  refine ⟨fun name actions actions' hactions => ?_, fun events events' hevents => ?_⟩
  · have hempty : (Collection.empty name s.config).Alike (Collection.empty name s.config) := ⟨rfl, rfl, .nil, .nil, rfl⟩
    have hrun := hempty.run rfl hactions
    refine ⟨hrun, fun a a' ha => (hrun.perform ?_).1⟩
    have hconfig := Collection.config_run (Collection.empty name s.config) actions'
    rw [Collection.separator, hconfig]
    exact ha
  · have hs : s.Filed := Store.filed_of_openWith hopen
    have hstart : (Session.mk s []).Alike (Session.mk s []) := by
      obtain ⟨config, -, rfl⟩ := Store.exists_of_openWith hopen
      exact ⟨⟨rfl, rfl, .nil⟩, .nil⟩
    have hrun := hstart.run hs rfl hevents
    obtain ⟨hfiled, hconfig⟩ := Session.filed_run (σ := ⟨s, []⟩) hs events'
    refine ⟨hrun, fun e e' he => hrun.answer hfiled ?_, ?_⟩
    · rw [hconfig]
      exact he
    · intro α α' M callback callback' hcall handle p p' a a' hp ha
      exact hrun.forEachEqual hfiled hcall handle hp ha

/-! ## A run with integers and one with words -/

namespace Session

/-- A document with a value, and with the value inside a list of an inner document. -/
def wrapping (key : String) (v : Value) : Document :=
  .ofList [("_key", .string key), ("n", v), ("in", .document [("list", .array [v])])]

/-- Documents with a value come under an index, and one of them again after an iteration took a step. -/
def wrappingEvents (v : Value) : List Event :=
  [.act (.collection "c"), .act (.on ⟨0⟩ (.upsert 1 (wrapping "a" v))), .act (.on ⟨0⟩ (.addIndex ["in.list"] false)),
   .act (.on ⟨0⟩ (.upsert 2 (wrapping "b" v))), .beginEqual ⟨0⟩ (.ofList [("n", v)]), .next 0,
   .act (.on ⟨0⟩ (.upsert 3 (wrapping "a" v)))]

open Like.Sized

/-- A callback that takes a step of the first iteration and answers a value. -/
def steppingCallback (v : Value) (_ : Document) (s : Session × Nat) : Value × Session × Nat :=
  (v, s.1.run [.next 0], s.2 + 1)

end Session

open Session Like.Sized

theorem equal_values_interchangeable_one :
    let int : Value := .int 1
    let word : Value := .float ⟨0x3FF0000000000000⟩
    let text := "FOR x IN c FILTER x.n == @p RETURN x"
    let σ := (Session.mk (Store.ofConfig {}) []).run (wrappingEvents int)
    let σ' := (Session.mk (Store.ofConfig {}) []).run (wrappingEvents word)
    σ.Alike σ' ∧
    (σ.answer (.act (.on ⟨0⟩ (.find text (.ofList [("p", word)]))))).Alike
      (σ'.answer (.act (.on ⟨0⟩ (.find text (.ofList [("p", int)]))))) ∧
    ((σ.store.cell ⟨0⟩).findAllEqual (.ofList [("n", word)])).length = 2 ∧
    List.Forall₂ Same
      (Collection.forEachEqual (·.1.store.cell ⟨0⟩) (steppingCallback int) (.ofList [("n", word)]) (σ, 0)).1
      (Collection.forEachEqual (·.1.store.cell ⟨0⟩) (steppingCallback word) (.ofList [("n", int)]) (σ', 0)).1 := by
  intro int word text σ σ'
  have hfield (name : String) : Same (Document.ofList [(name, int)]) (.ofList [(name, word)]) :=
    Document.same_iff.mpr (.cons ⟨rfl, (by decide +kernel : Same int word)⟩ .nil)
  have hevents : List.Forall₂ (Event.Alike ".") (wrappingEvents int) (wrappingEvents word) :=
    .cons (.act (.collection "c")) <| .cons (.act (.on ⟨0⟩ (.upsert 1 (by decide +kernel)))) <|
      .cons (.act (.on ⟨0⟩ (.addIndex ["in.list"] false))) <| .cons (.act (.on ⟨0⟩ (.upsert 2 (by decide +kernel)))) <|
      .cons (.beginEqual ⟨0⟩ (hfield "n")) <| .cons (.next 0) <|
      .cons (.act (.on ⟨0⟩ (.upsert 3 (by decide +kernel)))) .nil
  have hparams : Query.TextParamsAlike "." text (.ofList [("p", word)]) (.ofList [("p", int)]) := by
    intro q hq
    have hlimit : ((Query.parse text ".").toOption.bind (·.limit)).isNone = true := by decide +kernel
    rw [hq] at hlimit
    refine ⟨fun _ _ name _ => Document.rel_get? (BEq.symm (hfield "p")) name, fun l hl => ?_⟩
    rw [Except.toOption, Option.bind_some, hl] at hlimit
    cases hlimit
  have hcall : CallsAlike σ σ' Eq (steppingCallback int) (steppingCallback word) := by
    intro d d' a a' events events' _ ha _
    exact ⟨int, word, [.next 0], [.next 0], _, _, rfl, rfl, by decide +kernel, .cons (.next 0) .nil,
      congrArg (· + 1) ha⟩
  obtain ⟨-, hsessions⟩ := @equal_values_interchangeable engine [] (Store.ofConfig {}) rfl
  obtain ⟨halike, hanswers, hcalls⟩ := hsessions _ _ hevents
  obtain ⟨hdocs, -, -⟩ := hcalls Nat Nat Eq _ _ hcall ⟨0⟩ _ _ 0 0 (BEq.symm (hfield "n")) rfl
  exact ⟨halike, hanswers _ _ (.act (.on ⟨0⟩ (.find hparams))), by decide +kernel, hdocs⟩

end DocStore
