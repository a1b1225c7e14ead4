import DocStore.Collection.Matching
import DocStore.Proofs.Query.Sorting
import DocStore.Proofs.Value.Equality

/-!
# Equal documents

Documents are equal when they have equal values under the same names (`same_iff`). What is read from equal documents is
equal: the value at a path (`rel_getPath`), the key (`key_eq_of_same`), whether equal predicates match them
(`satisfies_eq_of_same`) or have alternatives that they meet (`Like.outcome_clauses`, `Like.matchesAny_eq_of_alike`),
whether they meet equal conditions (`BoundCondition.Alike.holds_eq`) and where they stand in an order
(`sortOrder_eq_of_same`). So equal documents are sorted alike (`rel_sortEntries`).
-/

namespace DocStore

/-! ## Fields -/

namespace Document

variable {d e p q : Document}

/-- The order of documents is total. -/
instance : Std.TransOrd Document := inferInstanceAs (Std.TransCmp (compareOn Document.toValue))

/-- Equality of documents is that of their order. -/
instance : Std.LawfulBEqOrd Document where
  compare_eq_iff_beq {d e} := by
    show compare d e = .eq ↔ (compare d e).isEq
    exact Ordering.isEq_iff_eq_eq.symm

/-- Documents are equal as the values that they are. -/
theorem same_toValue_iff : Same d.toValue e.toValue ↔ Same d e := by
  rw [Same, Same, ← Std.LawfulBEqOrd.compare_eq_iff_beq, ← Std.LawfulBEqOrd.compare_eq_iff_beq]
  rfl

theorem same_iff : Same d e ↔ List.Forall₂ (Named Same) d.entries e.entries :=
  same_toValue_iff.symm.trans Value.same_document_iff

theorem names_eq_of_same (h : Same d e) : d.names = e.names := names_eq (same_iff.mp h)

theorem rel_get? (h : Same d e) (name : String) : Option.Rel Same (d.get? name) (e.get? name) :=
  rel_lookup (same_iff.mp h) name

theorem same_insert (h : Same d e) (name : String) (v : Value) : Same (d.insert name v) (e.insert name v) :=
  same_iff.mpr (rel_setEntry BEq.rfl (same_iff.mp h))

theorem rel_getPath (h : Same d e) (path separator : String) :
    Option.Rel Same (d.getPath path separator) (e.getPath path separator) := by
  have hget := rel_get? h path
  unfold getPath
  generalize d.get? path = a at hget ⊢
  generalize e.get? path = b at hget ⊢
  cases hget with
  | some hvw => exact .some hvw
  | none =>
    cases pathSegments? path separator with
    | none => exact .none
    | some names => exact Value.rel_walk (same_toValue_iff.mpr h) names

/-- Equal documents have one key. -/
theorem key_eq_of_same (h : Same d e) : d.key = e.key := by
  have hget := rel_get? h keyField
  unfold key
  generalize d.get? keyField = a at hget ⊢
  generalize e.get? keyField = b at hget ⊢
  cases hget with
  | none => rfl
  | some hvw => cases Value.same_iff_alike.mp hvw <;> rfl

/-! ## Predicates -/

/-- Whether a field has a value is decided alike for equal values in equal documents. -/
theorem holds_equal_eq_of_same (separator : String) (h : Same d e) (path : String) {v w : Value} (hvw : Same v w) :
    (Like.Clause.equal path v).holds separator d = (Like.Clause.equal path w).holds separator e := by
  have hget := rel_getPath h path separator
  unfold Like.Clause.holds
  dsimp only
  generalize d.getPath path separator = x at hget ⊢
  generalize e.getPath path separator = y at hget ⊢
  cases hget with
  | none => rfl
  | some hxy => exact beq_congr hxy hvw

/-- Equal predicates match equal documents alike. -/
theorem satisfies_eq_of_same (separator : String) (hp : Same p q) (h : Same d e) :
    p.satisfies separator d = q.satisfies separator e := by
  refine all_eq_all_of_forall₂ ?_ (same_iff.mp hp)
  rintro ⟨path, v⟩ ⟨_, w⟩ ⟨rfl, hvw⟩
  exact holds_equal_eq_of_same separator h path hvw

end Document

namespace Like

variable {d e p q : Document} {cs cs' : List Clause}

/-- Alternatives that differ in nothing but equal values. -/
inductive Clause.Alike : Clause → Clause → Prop where
  | pattern (path : String) (p : LikePattern) : Alike (.pattern path p) (.pattern path p)
  | equal (path : String) {v w : Value} (h : Same v w) : Alike (.equal path v) (.equal path w)

/-- Alike alternatives hold alike in equal documents. -/
theorem Clause.Alike.holds_eq {c c' : Clause} (hc : c.Alike c') (separator : String) (h : Same d e) :
    c.holds separator d = c'.holds separator e := by
  cases hc with
  | pattern path p =>
    have hget := Document.rel_getPath h path separator
    unfold Clause.holds
    dsimp only
    generalize d.getPath path separator = x at hget ⊢
    generalize e.getPath path separator = y at hget ⊢
    cases hget with
    | none => rfl
    | some hxy => cases Value.same_iff_alike.mp hxy <;> rfl
  | equal path hvw => exact Document.holds_equal_eq_of_same separator h path hvw

/-- Alike alternatives are met by equal documents alike. -/
theorem matchesAny_eq_of_alike (separator : String) (hcs : List.Forall₂ Clause.Alike cs cs') (h : Same d e) :
    matchesAny separator cs d = matchesAny separator cs' e :=
  any_eq_any_of_forall₂ (fun _ _ hc => hc.holds_eq separator h) hcs

/-- Entries with equal values have one text or none, so they are alike alternatives or refused alike. -/
theorem outcome_ofEntry [Engine] {a b : String × Value} (hab : Named Same a b) :
    Outcome Clause.Alike (Clause.ofEntry a) (Clause.ofEntry b) := by
  obtain ⟨path, v⟩ := a
  obtain ⟨_, w⟩ := b
  obtain ⟨rfl, hvw⟩ := hab
  cases Value.same_iff_alike.mp hvw with
  | string s =>
    show Outcome _ (LikePattern.ofString s >>= _) (LikePattern.ofString s >>= _)
    cases LikePattern.ofString s with
    | error err => exact .error rfl
    | ok p => exact .ok (.pattern path p)
  | _ => exact .ok (.equal path hvw)

theorem outcome_ofEntries [Engine] {xs ys : List (String × Value)} (h : List.Forall₂ (Named Same) xs ys) :
    Outcome (List.Forall₂ Clause.Alike) (Clause.ofEntries xs) (Clause.ofEntries ys) := by
  induction h with
  | nil => exact .ok .nil
  | cons hab _ ih => exact (outcome_ofEntry hab).bind fun _ _ hc => ih.bind fun _ _ hcs => .ok (.cons hc hcs)

/-- Equal predicates have alike alternatives or are refused alike. -/
theorem outcome_clauses [Engine] (hp : Same p q) : Outcome (List.Forall₂ Clause.Alike) (clauses p) (clauses q) :=
  outcome_ofEntries (Document.same_iff.mp hp)

end Like

/-! ## Conditions and sort keys -/

namespace Query

variable {d e d' e' : Document}

/-- Conditions with equal values. -/
structure BoundCondition.Alike (c c' : BoundCondition) : Prop where
  field : c.field = c'.field
  op : c.op = c'.op
  value : Same c.value c'.value

theorem BoundCondition.Alike.holds_eq {c c' : BoundCondition} (hc : c.Alike c') (separator : String) (h : Same d e) :
    c.holds separator d = c'.holds separator e := by
  have hget := Value.same_ofOption (Document.rel_getPath h c.field separator)
  unfold BoundCondition.holds
  rw [← hc.op, ← hc.field, compare_congr (Std.LawfulBEqOrd.compare_eq_iff_beq.mpr hget)
    (Std.LawfulBEqOrd.compare_eq_iff_beq.mpr hc.value)]

theorem sortOrder_eq_of_same (separator : String) (ks : List SortKey) (h : Same d e) (h' : Same d' e') :
    sortOrder separator ks d d' = sortOrder separator ks e e' := by
  induction ks with
  | nil => rfl
  | cons k ks ih =>
    have hfield := Value.compare_option_eq_iff.mpr (Document.rel_getPath h k.field separator)
    have hfield' := Value.compare_option_eq_iff.mpr (Document.rel_getPath h' k.field separator)
    unfold sortOrder keyOrder
    rw [compare_congr hfield hfield', ih]

/-- Entries with equal documents are sorted alike. -/
theorem rel_sortEntries (separator : String) (ks : List SortKey) {es fs : List (String × Document)}
    (h : List.Forall₂ (Named Same) es fs) :
    List.Forall₂ (Named Same) (sortEntries separator ks es) (sortEntries separator ks fs) :=
  rel_mergeSort (fun _ _ _ _ hab hcd => congrArg Ordering.isLE (sortOrder_eq_of_same separator ks hab.2 hcd.2)) h

end Query
end DocStore
