import DocStore.Proofs.Collection.Equality
import DocStore.Proofs.Collection.Uniqueness
import DocStore.Proofs.Like.Clauses

/-!
# What a collection refuses

Which actions a collection cannot do is said without the operations (`Refuses`): a document without a proper key or one
that clashes, a key that is not there, an index that is not there or would repeat a tuple, a text that is no query of the
collection (`Poses`), a predicate without a match, a pattern that the engine refuses. A consistent collection fails to do
exactly these (`Consistent.fails_perform_iff`), with one lemma for each operation.
-/

namespace DocStore

/-! ## Failing -/

section Fails

variable {α β : Type} {x : Except StoreError α}

/-- Something ends with an error. -/
def Fails (x : Except StoreError α) : Prop := ∃ e, x = .error e

theorem not_fails_ok {a : α} : ¬ Fails (.ok a : Except StoreError α) := by
  rintro ⟨e, he⟩
  cases he

theorem not_fails_iff : ¬ Fails x ↔ ∃ a, x = .ok a := by
  cases x with
  | error e => exact iff_of_false (fun h => h ⟨e, rfl⟩) (fun ⟨a, ha⟩ => by cases ha)
  | ok a => exact iff_of_true not_fails_ok ⟨a, rfl⟩

theorem fails_map {f : α → β} : Fails (x.map f) ↔ Fails x := exists_congr fun _ => map_eq_error_iff

end Fails

theorem FieldList.fails_ofNames_iff (names : List String) : Fails (ofNames names) ↔ names = [] ∨ "" ∈ names := by
  unfold ofNames
  split
  · next h => exact iff_of_true ⟨_, rfl⟩ (Or.inl h)
  · next h =>
    split
    · next h' => exact iff_of_true ⟨_, rfl⟩ (Or.inr h')
    · next h' => exact iff_of_false not_fails_ok (not_or.mpr ⟨h, h'⟩)

namespace Collection

variable {c : Collection}

/-! ## What is refused -/

/-- A text with its parameters is a query of the collection: it is well formed, names the collection, and all of its
operands have values, which are natural numbers where counts are wanted. -/
def Poses (c : Collection) (text : String) (params : Document) (q : Query.Bound) : Prop :=
  ∃ query, Query.parse text c.separator = .ok query ∧ query.collection = c.name ∧ query.bind params = .ok q

/-- Two documents agree at some fields. -/
def Repeats (c : Collection) (names : List String) : Prop :=
  ∃ k m d e, k ≠ m ∧ c.get? k = some d ∧ c.get? m = some e ∧ d.AgreeAt c.separator names e

/-- What a collection cannot do. -/
def Refuses [Like.Engine] (c : Collection) : Action → Prop
  | .upsert now d => ∀ key, d.key = .ok key → c.Clashes key (c.stamped now d)
  | .get key | .delete key => c.get? key = none
  | .addIndex names unique => names = [] ∨ "" ∈ names ∨
      (∃ u ∈ c.listIndexes, u.fields.names = names ∧ u.unique ≠ unique) ∨
      (∀ u ∈ c.listIndexes, u.fields.names ≠ names) ∧ unique = true ∧ c.Repeats names
  | .removeIndex names => ∀ u ∈ c.listIndexes, u.fields.names ≠ names
  | .lookupEqual names vs => (∀ u ∈ c.listIndexes, u.fields.names ≠ names) ∨ vs.length ≠ names.length
  | .find text params | .countQuery text params | .removeQuery text params => ∀ q, ¬ c.Poses text params q
  | .findOne text params => ∀ q, c.Poses text params q → c.evaluate q = []
  | .findEqual predicate | .removeOneEqual predicate =>
    ∀ e ∈ c.documents, predicate.satisfies c.separator e.2 = false
  | .findLikeSorted predicate .. | .countLike predicate => ∃ x ∈ predicate.entries, ∃ e, Like.Refused x e
  | _ => False

/-! ### Documents -/

theorem Consistent.fails_upsert_iff (h : c.Consistent) {now : Int64} {d : Document} :
    Fails (c.upsert now d).1 ↔ ∀ key, d.key = .ok key → c.Clashes key (c.stamped now d) := by
  cases hd : d.key with
  | error e =>
    refine iff_of_true ⟨e, ?_⟩ fun key hkey => by cases hkey
    unfold upsert
    rw [hd]
  | ok key =>
    simp only [Except.ok.injEq, forall_eq']
    by_cases hclash : c.Clashes key (c.stamped now d)
    · obtain ⟨e, he, -⟩ := h.upsert_of_clashes hd hclash
      exact iff_of_true ⟨e, by rw [he]⟩ hclash
    · rw [h.upsert_of_not_clashes hd hclash]
      exact iff_of_false not_fails_ok hclash

theorem fails_get_iff {key : String} : Fails (c.get key) ↔ c.get? key = none := by
  unfold get
  cases c.get? key with
  | none => exact iff_of_true ⟨_, rfl⟩ rfl
  | some d => exact iff_of_false not_fails_ok (Option.some_ne_none d)

theorem fails_delete_iff {key : String} : Fails (c.delete key).1 ↔ c.get? key = none := by
  unfold delete
  cases hget : c.get? key with
  | none =>
    rw [remove_of_get?_eq_none hget]
    exact iff_of_true ⟨_, rfl⟩ rfl
  | some d =>
    rw [remove_of_get?_eq_some hget]
    exact iff_of_false not_fails_ok (Option.some_ne_none d)

/-! ### Indexes -/

theorem find?_eq_none_iff {fields : FieldList} :
    Index.find? fields c.indexes = none ↔ ∀ u ∈ c.listIndexes, u.fields.names ≠ fields.names := by
  unfold Index.find? listIndexes
  rw [List.find?_eq_none, List.forall_mem_map]
  refine forall₂_congr fun ix _ => not_congr ?_
  rw [beq_iff_eq, FieldList.ext_iff]

theorem not_separates_iff {u : IndexDescriptor} :
    ¬ Index.Separates c.separator c.get? u ↔ u.unique = true ∧ c.Repeats u.fields.names := by
  simp only [Index.Separates, Repeats, Index.Tuple.ofDocument_beq_iff, not_forall, exists_prop]
  refine and_congr_right fun _ => exists₄_congr fun k m d e => ?_
  tauto

theorem Consistent.fails_create_iff (h : c.Consistent) {u : IndexDescriptor} :
    Fails (Index.create c.separator c.documents u c.indexes) ↔
      (∃ v ∈ c.listIndexes, v.fields.names = u.fields.names ∧ v.unique ≠ u.unique) ∨
      (∀ v ∈ c.listIndexes, v.fields.names ≠ u.fields.names) ∧ u.unique = true ∧ c.Repeats u.fields.names := by
  unfold Index.create
  cases hf : Index.find? u.fields c.indexes with
  | none =>
    have hno := find?_eq_none_iff.mp hf
    have hfill : (¬ ∃ ix, Index.backfill c.separator (.empty u) c.documents = .ok ix) ↔
        ¬ Index.Separates c.separator c.get? u := not_iff_not.mpr (Index.exists_backfill_empty_iff h.keys_nodup)
    rw [← not_fails_iff, not_not] at hfill
    simp only
    rw [fails_map, hfill, or_iff_right (fun ⟨v, hv, he, _⟩ => hno v hv he), and_iff_right hno]
    exact not_separates_iff
  | some ix =>
    obtain ⟨hix, hfields⟩ := Index.mem_of_find? hf
    have hmem : ix.descriptor ∈ c.listIndexes := List.mem_map_of_mem hix
    have honly : ∀ v ∈ c.listIndexes, v.fields.names = u.fields.names → v = ix.descriptor := by
      intro v hv he
      obtain ⟨jx, hj, rfl⟩ := List.mem_map.mp hv
      have hjx := Index.find?_of_mem h.fields_nodup hj
      rw [FieldList.ext he, hf] at hjx
      rw [Option.some.inj hjx]
    simp only
    by_cases hu : ix.descriptor.unique = u.unique
    · rw [if_pos hu]
      refine iff_of_false not_fails_ok ?_
      rintro (⟨v, hv, he, hne⟩ | ⟨hno, -⟩)
      · exact hne (honly v hv he ▸ hu)
      · exact hno _ hmem (congrArg _ hfields)
    · rw [if_neg hu]
      exact iff_of_true ⟨_, rfl⟩ (Or.inl ⟨_, hmem, congrArg _ hfields, hu⟩)

/-- An index is refused for its names, for one over the same names with the other uniqueness, or for two documents that
agree at its fields. -/
theorem Consistent.fails_addIndex_iff (h : c.Consistent) {names : List String} {unique : Bool} :
    Fails (c.addIndex names unique).1 ↔ names = [] ∨ "" ∈ names ∨
      (∃ u ∈ c.listIndexes, u.fields.names = names ∧ u.unique ≠ unique) ∨
      (∀ u ∈ c.listIndexes, u.fields.names ≠ names) ∧ unique = true ∧ c.Repeats names := by
  have hnames := FieldList.fails_ofNames_iff names
  unfold addIndex
  cases hn : FieldList.ofNames names with
  | error e =>
    have hbad := hnames.mp ⟨e, hn⟩
    rw [← or_assoc]
    exact iff_of_true ⟨e, rfl⟩ (Or.inl hbad)
  | ok fields =>
    rw [hn, ← not_iff_not] at hnames
    have hgood := hnames.mp not_fails_ok
    rw [← or_assoc, or_iff_right hgood, ← FieldList.names_of_ofNames hn]
    rw [← h.fails_create_iff (u := ⟨fields, unique, c.name⟩)]
    simp only
    cases Index.create c.separator c.documents ⟨fields, unique, c.name⟩ c.indexes with
    | error e => exact iff_of_true ⟨e, rfl⟩ ⟨e, rfl⟩
    | ok ixs => exact iff_of_false not_fails_ok not_fails_ok

/-- What names no fields is not the field names of an index. -/
theorem names_ne_of_ofNames_error {names : List String} {e : StoreError} (hn : FieldList.ofNames names = .error e) :
    ∀ u ∈ c.listIndexes, u.fields.names ≠ names := by
  rintro u - rfl
  rw [FieldList.ofNames_names] at hn
  cases hn

theorem fails_removeIndex_iff {names : List String} :
    Fails (c.removeIndex names).1 ↔ ∀ u ∈ c.listIndexes, u.fields.names ≠ names := by
  unfold removeIndex
  cases hn : FieldList.ofNames names with
  | error e => exact iff_of_true ⟨e, rfl⟩ (names_ne_of_ofNames_error hn)
  | ok fields =>
    rw [← FieldList.names_of_ofNames hn, ← find?_eq_none_iff]
    simp only [Index.drop]
    cases Index.find? fields c.indexes with
    | none => exact iff_of_true ⟨_, rfl⟩ rfl
    | some ix => exact iff_of_false not_fails_ok (Option.some_ne_none ix)

theorem fails_lookupEqual_iff {names : List String} {vs : List Value} :
    Fails (c.lookupEqual names vs) ↔
      (∀ u ∈ c.listIndexes, u.fields.names ≠ names) ∨ vs.length ≠ names.length := by
  unfold lookupEqual
  cases hn : FieldList.ofNames names with
  | error e => exact iff_of_true ⟨e, rfl⟩ (Or.inl (names_ne_of_ofNames_error hn))
  | ok fields =>
    rw [← FieldList.names_of_ofNames hn, ← find?_eq_none_iff]
    show Fails (Index.lookup fields vs c.indexes) ↔ _
    unfold Index.lookup
    cases Index.find? fields c.indexes with
    | none => exact iff_of_true ⟨_, rfl⟩ (Or.inl rfl)
    | some ix =>
      simp only [reduceCtorEq, false_or]
      by_cases hlen : vs.length = fields.length
      · rw [if_pos hlen]
        exact iff_of_false not_fails_ok fun hne => hne hlen
      · rw [if_neg hlen]
        exact iff_of_true ⟨_, rfl⟩ hlen

/-! ### Queries -/

theorem bindQuery_eq_ok_iff {text : String} {params : Document} {q : Query.Bound} :
    c.bindQuery text params = .ok q ↔ c.Poses text params q := by
  unfold bindQuery Poses
  cases Query.parse text c.separator with
  | error e => exact iff_of_false (fun h => by cases h) (fun ⟨_, h, _⟩ => by cases h)
  | ok query =>
    simp only [Except.ok.injEq, exists_eq_left']
    by_cases hn : query.collection = c.name
    · rw [and_iff_right hn]
      show (if query.collection ≠ c.name then _ else _ : Except StoreError Query.Bound) = .ok q ↔ _
      rw [if_neg (not_not.mpr hn)]
    · refine iff_of_false (fun h => ?_) (fun h => hn h.1)
      change (if query.collection ≠ c.name then _ else _ : Except StoreError Query.Bound) = .ok q at h
      rw [if_pos hn] at h
      cases h

theorem fails_bindQuery_iff {text : String} {params : Document} :
    Fails (c.bindQuery text params) ↔ ∀ q, ¬ c.Poses text params q := by
  rw [← not_iff_not, not_fails_iff, not_forall_not]
  exact exists_congr fun q => bindQuery_eq_ok_iff

theorem fails_find_iff {text : String} {params : Document} :
    Fails (c.find text params) ↔ ∀ q, ¬ c.Poses text params q := by
  rw [← fails_bindQuery_iff]
  unfold find
  cases c.bindQuery text params with
  | error e => exact iff_of_true ⟨e, rfl⟩ ⟨e, rfl⟩
  | ok q => exact iff_of_false not_fails_ok not_fails_ok

theorem fails_countQuery_iff {text : String} {params : Document} :
    Fails (c.countQuery text params) ↔ ∀ q, ¬ c.Poses text params q := by
  rw [← fails_bindQuery_iff]
  unfold countQuery
  cases c.bindQuery text params with
  | error e => exact iff_of_true ⟨e, rfl⟩ ⟨e, rfl⟩
  | ok q => exact iff_of_false not_fails_ok not_fails_ok

theorem fails_removeQuery_iff {text : String} {params : Document} :
    Fails (c.removeQuery text params).1 ↔ ∀ q, ¬ c.Poses text params q := by
  rw [← fails_bindQuery_iff]
  unfold removeQuery
  cases c.bindQuery text params with
  | error e => exact iff_of_true ⟨e, rfl⟩ ⟨e, rfl⟩
  | ok q => exact iff_of_false not_fails_ok not_fails_ok

theorem fails_findOne_iff {text : String} {params : Document} :
    Fails (c.findOne text params) ↔ ∀ q, c.Poses text params q → c.evaluate q = [] := by
  simp only [← bindQuery_eq_ok_iff]
  unfold findOne
  cases c.bindQuery text params with
  | error e => exact iff_of_true ⟨e, rfl⟩ fun q hq => by cases hq
  | ok q =>
    simp only [Except.ok.injEq, forall_eq', bind, Except.bind]
    cases c.evaluate q with
    | nil => exact iff_of_true ⟨_, rfl⟩ rfl
    | cons e es => exact iff_of_false not_fails_ok (List.cons_ne_nil e es)

/-! ### Predicates -/

theorem Consistent.fails_findEqual_iff (h : c.Consistent) {predicate : Document} :
    Fails (c.findEqual predicate) ↔ ∀ e ∈ c.documents, predicate.satisfies c.separator e.2 = false := by
  rw [← h.firstEqual?_eq_none_iff]
  unfold findEqual
  cases c.firstEqual? predicate with
  | none => exact iff_of_true ⟨_, rfl⟩ rfl
  | some e => exact iff_of_false not_fails_ok (Option.some_ne_none e)

/-- The first match is removed: it holds its own key. -/
theorem Consistent.fails_removeOneEqual_iff (h : c.Consistent) {predicate : Document} :
    Fails (c.removeOneEqual predicate).1 ↔ ∀ e ∈ c.documents, predicate.satisfies c.separator e.2 = false := by
  rw [← h.firstEqual?_eq_none_iff]
  unfold removeOneEqual
  cases hfirst : c.firstEqual? predicate with
  | none => exact iff_of_true ⟨_, rfl⟩ rfl
  | some e =>
    have he : e ∈ c.documents := by
      rw [firstEqual?_eq_head?] at hfirst
      have hm := List.mem_of_mem_head? hfirst
      exact List.mem_of_mem_filter ((h.equalMatches_perm predicate).mem_iff.mp hm)
    have hget : c.get? e.1 = some e.2 := (get?_eq_some_iff h.keys_nodup).mpr he
    refine iff_of_false ?_ (Option.some_ne_none e)
    simp only [Option.bind_some, h.key_eq e he, Except.toOption, Collection.remove, hget]
    exact not_fails_ok

/-! ### Patterns -/

/-- A predicate has no alternatives when the engine refuses the text of an entry. -/
theorem fails_clauses_iff [Like.Engine] {predicate : Document} :
    Fails (Like.clauses predicate) ↔ ∃ x ∈ predicate.entries, ∃ e, Like.Refused x e := by
  rw [← not_iff_not, not_fails_iff, Like.exists_clauses_iff]
  push Not
  refine forall₂_congr fun x _ => ⟨fun h e he => he.not_accepted h, fun h => ?_⟩
  exact (Like.accepted_or_refused x).resolve_right (not_exists.mpr h)

theorem fails_likeMatches_iff [Like.Engine] {predicate : Document} :
    Fails (c.likeMatches predicate) ↔ ∃ x ∈ predicate.entries, ∃ e, Like.Refused x e :=
  fails_map.trans fails_clauses_iff

theorem fails_findLikeSorted_iff [Like.Engine] {predicate : Document} {order : SortOrder} {fields : List String}
    {offset : Nat} {limit : Int} : Fails (c.findLikeSorted predicate order fields offset limit) ↔
      ∃ x ∈ predicate.entries, ∃ e, Like.Refused x e :=
  fails_map.trans fails_likeMatches_iff

theorem fails_countLike_iff [Like.Engine] {predicate : Document} :
    Fails (c.countLike predicate) ↔ ∃ x ∈ predicate.entries, ∃ e, Like.Refused x e :=
  fails_map.trans fails_likeMatches_iff

/-! ### Actions -/

/-- An action fails exactly when the collection cannot do it. -/
theorem Consistent.fails_perform_iff [Like.Engine] (h : c.Consistent) (a : Action) :
    Fails (c.perform a).1 ↔ c.Refuses a := by
  cases a with
  | upsert now d => exact fails_map.trans h.fails_upsert_iff
  | get key => exact fails_map.trans fails_get_iff
  | delete key => exact fails_map.trans fails_delete_iff
  | addIndex names unique => exact fails_map.trans h.fails_addIndex_iff
  | removeIndex names => exact fails_map.trans fails_removeIndex_iff
  | lookupEqual names vs => exact fails_map.trans fails_lookupEqual_iff
  | find text params => exact fails_map.trans fails_find_iff
  | findOne text params => exact fails_map.trans fails_findOne_iff
  | countQuery text params => exact fails_map.trans fails_countQuery_iff
  | removeQuery text params => exact fails_map.trans fails_removeQuery_iff
  | findEqual predicate => exact fails_map.trans h.fails_findEqual_iff
  | removeOneEqual predicate => exact fails_map.trans h.fails_removeOneEqual_iff
  | findLikeSorted predicate order fields offset limit => exact fails_map.trans fails_findLikeSorted_iff
  | countLike predicate => exact fails_map.trans fails_countLike_iff
  | _ => exact iff_of_false not_fails_ok id

end Collection
end DocStore
