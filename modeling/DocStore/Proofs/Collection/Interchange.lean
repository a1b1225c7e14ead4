import DocStore.Proofs.Collection.Alike

/-!
# Actions with equal values

Actions are alike when they differ in nothing but equal values (`Action.Alike`), and replies when they show equal
documents (`Reply.Alike`). Alike actions on alike collections have alike replies, or errors of one kind, and leave alike
collections (`Alike.perform`), and so do runs of them (`Alike.run`).
-/

namespace DocStore

variable {key : String} {d e : Document} {es fs : List (String × Document)}

/-! ## Entries -/

theorem rel_writeEntry (key : String) (hde : Same d e) (h : List.Forall₂ (Named Same) es fs) :
    List.Forall₂ (Named Same) (writeEntry key d es) (writeEntry key e fs) := by
  induction h with
  | nil => exact .cons ⟨rfl, hde⟩ .nil
  | @cons a b es fs hab hes ih =>
    obtain ⟨m, x⟩ := a
    obtain ⟨_, y⟩ := b
    obtain ⟨rfl, hxy⟩ := hab
    unfold writeEntry
    split
    · exact .cons ⟨rfl, hde⟩ hes
    · exact .cons ⟨rfl, hxy⟩ ih

theorem rel_removeEntry (key : String) (h : List.Forall₂ (Named Same) es fs) :
    List.Forall₂ (Named Same) (removeEntry key es) (removeEntry key fs) := by
  induction h with
  | nil => exact .nil
  | @cons a b es fs hab hes ih =>
    obtain ⟨m, x⟩ := a
    obtain ⟨_, y⟩ := b
    obtain ⟨rfl, hxy⟩ := hab
    rw [removeEntry_cons, removeEntry_cons]
    split
    · exact hes
    · exact .cons ⟨rfl, hxy⟩ ih

theorem rel_cap (config : Config) {ds ds' : List Document} (h : List.Forall₂ Same ds ds') :
    List.Forall₂ Same (config.cap ds) (config.cap ds') := by
  unfold Config.cap
  cases config.resultWindow with
  | none => exact h
  | some w => exact List.forall₂_take w h

namespace Collection

variable {c c' : Collection} {p p' params params' : Document}

namespace Alike

/-! ## Writing -/

theorem write (h : c.Alike c') (key : String) (hde : Same d e) : (c.write key d).Alike (c'.write key e) where
  name := h.name
  config := h.config
  documents := rel_writeEntry key hde h.documents
  indexes := by
    refine List.rel_map (fun ix jx hij => ?_) h.indexes
    rw [h.separator]
    exact hij.write c'.separator key (h.rel_get? key) hde
  lastStamp := h.lastStamp

/-- A key is stored in neither collection, or equal documents are removed and leave the collections alike. -/
theorem remove_cases (h : c.Alike c') (key : String) :
    (c.remove key = (none, c) ∧ c'.remove key = (none, c')) ∨
      ∃ d e c₁ c₁', Same d e ∧ c₁.Alike c₁' ∧ c.remove key = (some d, c₁) ∧ c'.remove key = (some e, c₁') := by
  have hget := h.rel_get? key
  generalize ha : c.get? key = a at hget
  generalize hb : c'.get? key = b at hget
  cases hget with
  | none => exact .inl ⟨remove_of_get?_eq_none ha, remove_of_get?_eq_none hb⟩
  | some hde =>
    refine .inr ⟨_, _, _, _, hde, ?_, remove_of_get?_eq_some ha, remove_of_get?_eq_some hb⟩
    refine ⟨h.name, h.config, rel_removeEntry key h.documents, ?_, h.lastStamp⟩
    refine List.rel_map (fun ix jx hij => ?_) h.indexes
    rw [h.separator]
    exact hij.remove c'.separator key hde

theorem remove (h : c.Alike c') (key : String) :
    Option.Rel Same (c.remove key).1 (c'.remove key).1 ∧ (c.remove key).2.Alike (c'.remove key).2 := by
  rcases h.remove_cases key with ⟨hc, hc'⟩ | ⟨d, e, c₁, c₁', hde, hnext, hc, hc'⟩
  · rw [hc, hc']
    exact ⟨.none, h⟩
  · rw [hc, hc']
    exact ⟨.some hde, hnext⟩

theorem stampAt_eq (h : c.Alike c') (now : Int64) : c.stampAt now = c'.stampAt now := by
  unfold stampAt
  rw [h.lastStamp]

theorem same_stamped (h : c.Alike c') (now : Int64) (hde : Same d e) : Same (c.stamped now d) (c'.stamped now e) := by
  unfold stamped
  rw [h.config, h.stampAt_eq]
  cases c'.config.timestampField with
  | none => exact hde
  | some field => exact Document.same_insert hde field _

theorem advance (h : c.Alike c') (now : Int64) : (c.advance now).Alike (c'.advance now) := by
  have hfield : c.config.timestampField = c'.config.timestampField := congrArg _ h.config
  unfold Collection.advance
  rw [hfield]
  cases c'.config.timestampField with
  | none => exact h
  | some field => exact ⟨h.name, h.config, h.documents, h.indexes, h.stampAt_eq now⟩

theorem upsert (h : c.Alike c') (now : Int64) (hde : Same d e) :
    Outcome Same (c.upsert now d).1 (c'.upsert now e).1 ∧ (c.upsert now d).2.Alike (c'.upsert now e).2 := by
  have hstamped := h.same_stamped now hde
  unfold Collection.upsert
  rw [Document.key_eq_of_same hde]
  cases e.key with
  | error err => exact ⟨.error rfl, h⟩
  | ok key =>
    dsimp only
    rw [h.separator, Index.checkWrite_eq_of_same c'.separator key hstamped h.indexes]
    cases Index.checkWrite c'.separator key (c'.stamped now e) c'.indexes with
    | error err => exact ⟨.error rfl, h⟩
    | ok _ => exact ⟨.ok hstamped, (h.advance now).write key hstamped⟩

theorem delete (h : c.Alike c') (key : String) :
    Outcome Same (c.delete key).1 (c'.delete key).1 ∧ (c.delete key).2.Alike (c'.delete key).2 := by
  unfold Collection.delete
  rcases h.remove_cases key with ⟨hc, hc'⟩ | ⟨d, e, c₁, c₁', hde, hnext, hc, hc'⟩
  · rw [hc, hc']
    exact ⟨.error rfl, h⟩
  · rw [hc, hc']
    exact ⟨.ok hde, hnext⟩

theorem removeKeys (keys : List String) (h : c.Alike c') :
    List.Forall₂ Same (c.removeKeys keys).1 (c'.removeKeys keys).1 ∧
      (c.removeKeys keys).2.Alike (c'.removeKeys keys).2 := by
  induction keys generalizing c c' with
  | nil => exact ⟨.nil, h⟩
  | cons key keys ih =>
    obtain ⟨hdoc, hnext⟩ := h.remove key
    obtain ⟨hdocs, hlast⟩ := ih hnext
    exact ⟨List.rel_append (rel_toList hdoc) hdocs, hlast⟩

theorem removeOneEqual (h : c.Alike c') (hp : Same p p') :
    Outcome Same (c.removeOneEqual p).1 (c'.removeOneEqual p').1 ∧
      (c.removeOneEqual p).2.Alike (c'.removeOneEqual p').2 := by
  have hkey : ((c.firstEqual? p).bind fun e => e.2.key.toOption) =
      (c'.firstEqual? p').bind fun e => e.2.key.toOption := by
    have hfirst := h.rel_firstEqual? hp
    generalize c.firstEqual? p = a at hfirst ⊢
    generalize c'.firstEqual? p' = b at hfirst ⊢
    cases hfirst with
    | none => rfl
    | some hef => exact congrArg Except.toOption (Document.key_eq_of_same hef.2)
  unfold Collection.removeOneEqual
  rw [hkey]
  cases (c'.firstEqual? p').bind fun e => e.2.key.toOption with
  | none => exact ⟨.error rfl, h⟩
  | some key =>
    dsimp only
    rcases h.remove_cases key with ⟨hc, hc'⟩ | ⟨d, e, c₁, c₁', hde, hnext, hc, hc'⟩
    · rw [hc, hc']
      exact ⟨.error rfl, h⟩
    · rw [hc, hc']
      exact ⟨.ok hde, hnext⟩

theorem addIndex (h : c.Alike c') (names : List String) (unique : Bool) :
    Outcome Eq (c.addIndex names unique).1 (c'.addIndex names unique).1 ∧
      (c.addIndex names unique).2.Alike (c'.addIndex names unique).2 := by
  unfold Collection.addIndex
  cases FieldList.ofNames names with
  | error err => exact ⟨.error rfl, h⟩
  | ok fields =>
    have hcreate : Outcome (List.Forall₂ Index.Alike)
        (Index.create c.separator c.documents ⟨fields, unique, c.name⟩ c.indexes)
        (Index.create c'.separator c'.documents ⟨fields, unique, c'.name⟩ c'.indexes) := by
      rw [h.separator, h.name]
      exact Index.outcome_create c'.separator ⟨fields, unique, c'.name⟩ h.indexes h.documents
    dsimp only
    generalize Index.create c.separator c.documents _ c.indexes = x at hcreate ⊢
    generalize Index.create c'.separator c'.documents _ c'.indexes = y at hcreate ⊢
    cases hcreate with
    | error he => exact ⟨.error he, h⟩
    | ok hixs => exact ⟨.ok rfl, h.name, h.config, h.documents, hixs, h.lastStamp⟩

theorem removeIndex (h : c.Alike c') (names : List String) :
    Outcome Eq (c.removeIndex names).1 (c'.removeIndex names).1 ∧
      (c.removeIndex names).2.Alike (c'.removeIndex names).2 := by
  unfold Collection.removeIndex
  cases FieldList.ofNames names with
  | error err => exact ⟨.error rfl, h⟩
  | ok fields =>
    have hdrop := Index.outcome_drop fields h.indexes
    dsimp only
    generalize Index.drop fields c.indexes = x at hdrop ⊢
    generalize Index.drop fields c'.indexes = y at hdrop ⊢
    cases hdrop with
    | error he => exact ⟨.error he, h⟩
    | ok hixs => exact ⟨.ok rfl, h.name, h.config, h.documents, hixs, h.lastStamp⟩

/-! ## Queries -/

variable {text : String}

/-- A text is read as one query over alike collections, and bound alike. -/
theorem outcome_bindQuery (h : c.Alike c') (hparams : Query.TextParamsAlike c'.separator text params params') :
    Outcome Query.Bound.Alike (c.bindQuery text params) (c'.bindQuery text params') := by
  unfold bindQuery
  rw [h.separator, h.name]
  cases hparse : Query.parse text c'.separator with
  | error err => exact .error rfl
  | ok q =>
    show Outcome _ (if q.collection ≠ c'.name then _ else _) (if q.collection ≠ c'.name then _ else _)
    split
    · exact .error rfl
    · exact Query.outcome_bind (hparams q hparse)

theorem outcome_find (h : c.Alike c') (hparams : Query.TextParamsAlike c'.separator text params params') :
    Outcome (List.Forall₂ Same) (c.find text params) (c'.find text params') := by
  refine (h.outcome_bindQuery hparams).bind fun q q' hq => .ok ?_
  rw [h.config]
  exact rel_cap c'.config (List.rel_map (fun _ _ hef => hef.2) (h.rel_evaluate hq))

theorem outcome_findOne (h : c.Alike c') (hparams : Query.TextParamsAlike c'.separator text params params') :
    Outcome Same (c.findOne text params) (c'.findOne text params') := by
  refine (h.outcome_bindQuery hparams).bind fun q q' hq => ?_
  have hhead := rel_head? (h.rel_evaluate hq)
  generalize (c.evaluate q).head? = a at hhead ⊢
  generalize (c'.evaluate q').head? = b at hhead ⊢
  cases hhead with
  | none => exact .error rfl
  | some hef => exact .ok hef.2

theorem outcome_countQuery (h : c.Alike c') (hparams : Query.TextParamsAlike c'.separator text params params') :
    Outcome Eq (c.countQuery text params) (c'.countQuery text params') :=
  (h.outcome_bindQuery hparams).bind fun _ _ hq => .ok (h.rel_evaluate hq).length_eq

theorem removeQuery (h : c.Alike c') (hparams : Query.TextParamsAlike c'.separator text params params') :
    Outcome (List.Forall₂ Same) (c.removeQuery text params).1 (c'.removeQuery text params').1 ∧
      (c.removeQuery text params).2.Alike (c'.removeQuery text params').2 := by
  have hbind := h.outcome_bindQuery hparams
  unfold Collection.removeQuery
  generalize c.bindQuery text params = x at hbind ⊢
  generalize c'.bindQuery text params' = y at hbind ⊢
  cases hbind with
  | error he => exact ⟨.error he, h⟩
  | @ok q q' hq =>
    obtain ⟨hdocs, hnext⟩ := removeKeys ((c'.evaluate q').map (·.1)) h
    dsimp only
    rw [names_eq (h.rel_evaluate hq)]
    exact ⟨.ok hdocs, hnext⟩

/-! ## Finding -/

theorem outcome_findEqual (h : c.Alike c') (hp : Same p p') : Outcome Same (c.findEqual p) (c'.findEqual p') := by
  have hfirst := h.rel_firstEqual? hp
  unfold findEqual
  generalize c.firstEqual? p = a at hfirst ⊢
  generalize c'.firstEqual? p' = b at hfirst ⊢
  cases hfirst with
  | none => exact .error rfl
  | some hef => exact .ok hef.2

theorem rel_findAllEqual (h : c.Alike c') (hp : Same p p') :
    List.Forall₂ Same (c.findAllEqual p) (c'.findAllEqual p') := by
  unfold findAllEqual
  rw [h.config]
  exact rel_cap c'.config (List.rel_map (fun _ _ hef => hef.2) (h.rel_equalMatches hp))

theorem rel_sortedPage (h : c.Alike c') (hes : List.Forall₂ (Named Same) es fs) (order : SortOrder)
    (fields : List String) (offset : Nat) (limit : Int) :
    List.Forall₂ Same (c.sortedPage es order fields offset limit) (c'.sortedPage fs order fields offset limit) := by
  have hsorted := Query.rel_sortEntries c'.separator (sortKeys order fields) hes
  unfold sortedPage page
  rw [h.config, h.separator]
  exact rel_cap c'.config (List.rel_map (fun _ _ hef => hef.2)
    (List.forall₂_take limit.toNat (List.forall₂_drop offset hsorted)))

theorem outcome_findLikeSorted [Like.Engine] (h : c.Alike c') (hp : Same p p') (order : SortOrder)
    (fields : List String) (offset : Nat) (limit : Int) : Outcome (List.Forall₂ Same)
      (c.findLikeSorted p order fields offset limit) (c'.findLikeSorted p' order fields offset limit) :=
  (h.outcome_likeMatches hp).map fun _ _ hes => h.rel_sortedPage hes order fields offset limit

theorem outcome_countLike [Like.Engine] (h : c.Alike c') (hp : Same p p') :
    Outcome Eq (c.countLike p) (c'.countLike p') :=
  (h.outcome_likeMatches hp).map fun _ _ hes => hes.length_eq

end Alike

/-! ## Actions -/

/-- Actions that differ in nothing but equal values, and in parameters no query names. -/
inductive Action.Alike (separator : String) : Action → Action → Prop
  | upsert (now : Int64) {d e : Document} : Same d e → Alike separator (.upsert now d) (.upsert now e)
  | get (key : String) : Alike separator (.get key) (.get key)
  | delete (key : String) : Alike separator (.delete key) (.delete key)
  | contains (key : String) : Alike separator (.contains key) (.contains key)
  | count : Alike separator .count .count
  | isEmpty : Alike separator .isEmpty .isEmpty
  | scan : Alike separator .scan .scan
  | addIndex (names : List String) (unique : Bool) : Alike separator (.addIndex names unique) (.addIndex names unique)
  | removeIndex (names : List String) : Alike separator (.removeIndex names) (.removeIndex names)
  | hasIndex (names : List String) : Alike separator (.hasIndex names) (.hasIndex names)
  | listIndexes : Alike separator .listIndexes .listIndexes
  | lookupEqual (names : List String) {vs ws : List Value} : List.Forall₂ Same vs ws →
      Alike separator (.lookupEqual names vs) (.lookupEqual names ws)
  | find {text : String} {params params' : Document} : Query.TextParamsAlike separator text params params' →
      Alike separator (.find text params) (.find text params')
  | findOne {text : String} {params params' : Document} : Query.TextParamsAlike separator text params params' →
      Alike separator (.findOne text params) (.findOne text params')
  | countQuery {text : String} {params params' : Document} : Query.TextParamsAlike separator text params params' →
      Alike separator (.countQuery text params) (.countQuery text params')
  | removeQuery {text : String} {params params' : Document} : Query.TextParamsAlike separator text params params' →
      Alike separator (.removeQuery text params) (.removeQuery text params')
  | findEqual {p p' : Document} : Same p p' → Alike separator (.findEqual p) (.findEqual p')
  | findAllEqual {p p' : Document} : Same p p' → Alike separator (.findAllEqual p) (.findAllEqual p')
  | findEqualSorted (order : SortOrder) (fields : List String) (offset : Nat) (limit : Int) {p p' : Document} :
      Same p p' →
      Alike separator (.findEqualSorted p order fields offset limit) (.findEqualSorted p' order fields offset limit)
  | findLikeSorted (order : SortOrder) (fields : List String) (offset : Nat) (limit : Int) {p p' : Document} :
      Same p p' →
      Alike separator (.findLikeSorted p order fields offset limit) (.findLikeSorted p' order fields offset limit)
  | countEqual {p p' : Document} : Same p p' → Alike separator (.countEqual p) (.countEqual p')
  | countNotEqual {p p' : Document} : Same p p' → Alike separator (.countNotEqual p) (.countNotEqual p')
  | countLike {p p' : Document} : Same p p' → Alike separator (.countLike p) (.countLike p')
  | removeEqual {p p' : Document} : Same p p' → Alike separator (.removeEqual p) (.removeEqual p')
  | removeOneEqual {p p' : Document} : Same p p' → Alike separator (.removeOneEqual p) (.removeOneEqual p')

/-- Replies that show the same, with equal documents. -/
inductive Reply.Alike : Reply → Reply → Prop
  | done : Alike .done .done
  | flag (b : Bool) : Alike (.flag b) (.flag b)
  | count (n : Nat) : Alike (.count n) (.count n)
  | keys (ks : List String) : Alike (.keys ks) (.keys ks)
  | document {d e : Document} : Same d e → Alike (.document d) (.document e)
  | documents {ds es : List Document} : List.Forall₂ Same ds es → Alike (.documents ds) (.documents es)
  | indexes (ds : List IndexDescriptor) : Alike (.indexes ds) (.indexes ds)

theorem Reply.alike_of_eq {α : Type} {f : α → Reply} (hf : ∀ x, (f x).Alike (f x)) {x y : α} (h : x = y) :
    (f x).Alike (f y) := h ▸ hf x

/-- Alike actions on alike collections have alike outcomes and leave alike collections. -/
theorem Alike.perform [Like.Engine] (h : c.Alike c') {a a' : Action} (ha : a.Alike c'.separator a') :
    Outcome Reply.Alike (c.perform a).1 (c'.perform a').1 ∧ (c.perform a).2.Alike (c'.perform a').2 := by
  cases ha with
  | upsert now hde => exact (h.upsert now hde).imp (·.map fun _ _ => .document) id
  | get key => exact ⟨(h.outcome_get key).map fun _ _ => .document, h⟩
  | delete key => exact (h.delete key).imp (·.map fun _ _ => .document) id
  | contains key => exact ⟨.ok (Reply.alike_of_eq .flag (h.contains_eq key)), h⟩
  | count => exact ⟨.ok (Reply.alike_of_eq .count h.count_eq), h⟩
  | isEmpty => exact ⟨.ok (Reply.alike_of_eq .flag (congrArg (· == 0) h.count_eq)), h⟩
  | scan => exact ⟨.ok (.documents h.rel_scan), h⟩
  | addIndex names unique => exact (h.addIndex names unique).imp (·.map fun _ _ _ => .done) id
  | removeIndex names => exact (h.removeIndex names).imp (·.map fun _ _ _ => .done) id
  | hasIndex names => exact ⟨.ok (Reply.alike_of_eq .flag (h.hasIndex_eq names)), h⟩
  | listIndexes => exact ⟨.ok (Reply.alike_of_eq .indexes h.listIndexes_eq), h⟩
  | lookupEqual names hvs => exact ⟨(h.outcome_lookupEqual names hvs).map fun _ _ => Reply.alike_of_eq .keys, h⟩
  | find hparams => exact ⟨(h.outcome_find hparams).map fun _ _ => .documents, h⟩
  | findOne hparams => exact ⟨(h.outcome_findOne hparams).map fun _ _ => .document, h⟩
  | countQuery hparams => exact ⟨(h.outcome_countQuery hparams).map fun _ _ => Reply.alike_of_eq .count, h⟩
  | removeQuery hparams => exact (h.removeQuery hparams).imp (·.map fun _ _ => .documents) id
  | findEqual hp => exact ⟨(h.outcome_findEqual hp).map fun _ _ => .document, h⟩
  | findAllEqual hp => exact ⟨.ok (.documents (h.rel_findAllEqual hp)), h⟩
  | findEqualSorted order fields offset limit hp =>
    exact ⟨.ok (.documents (h.rel_sortedPage (h.rel_equalMatches hp) order fields offset limit)), h⟩
  | findLikeSorted order fields offset limit hp =>
    exact ⟨(h.outcome_findLikeSorted hp order fields offset limit).map fun _ _ => .documents, h⟩
  | countEqual hp => exact ⟨.ok (Reply.alike_of_eq .count (h.countEqual_eq hp)), h⟩
  | countNotEqual hp => exact ⟨.ok (Reply.alike_of_eq .count (h.countNotEqual_eq hp)), h⟩
  | countLike hp => exact ⟨(h.outcome_countLike hp).map fun _ _ => Reply.alike_of_eq .count, h⟩
  | @removeEqual p p' hp =>
    obtain ⟨hdocs, hnext⟩ := Alike.removeKeys (c'.equalKeys p') h
    show Outcome _ (.ok (Reply.documents (c.removeKeys (c.equalKeys p)).1)) _ ∧
      (c.removeKeys (c.equalKeys p)).2.Alike _
    rw [h.equalKeys_eq hp]
    exact ⟨.ok (.documents hdocs), hnext⟩
  | removeOneEqual hp => exact (h.removeOneEqual hp).imp (·.map fun _ _ => .document) id

/-- Runs of alike actions on alike collections leave alike collections. -/
theorem Alike.run [Like.Engine] {separator : String} {actions actions' : List Action} (h : c.Alike c')
    (hseparator : c'.separator = separator) (hactions : List.Forall₂ (Action.Alike separator) actions actions') :
    (c.run actions).Alike (c'.run actions') := by
  induction hactions generalizing c c' with
  | nil => exact h
  | @cons a a' actions actions' ha _ ih =>
    have hnext : (c'.perform a').2.separator = separator := by
      rw [← hseparator]
      exact congrArg Config.separator (config_perform c' a')
    exact ih (h.perform (hseparator ▸ ha)).2 hnext

end Collection
end DocStore
