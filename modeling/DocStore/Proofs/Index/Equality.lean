import DocStore.Index.Registry
import DocStore.Proofs.Document.Equality

/-!
# Indexes with equal tuples

Indexes are alike when they are over the same fields and have equal tuples with the same keys (`Alike`). What comes
under equal tuples or leaves them keeps them alike (`Alike.write`, `Alike.remove`), an index is filled alike with equal
documents (`outcome_backfill`), and the indexes of two collections stay alike when one is created (`outcome_create`) or
dropped (`outcome_drop`).
-/

namespace DocStore

namespace Index

namespace Tuple

variable {s t : Tuple}

theorem same_iff : Same s t ↔ List.Forall₂ (Option.Rel Same) s.components t.components := by
  rw [Same, beq_iff_forall₂]
  simp only [Value.compare_option_eq_iff]

theorem same_ofDocument (separator : String) (fields : FieldList) {d e : Document} (h : Same d e) :
    Same (ofDocument separator fields d) (ofDocument separator fields e) := by
  refine same_iff.mpr ?_
  show List.Forall₂ _ (fields.names.map _) (fields.names.map _)
  rw [List.forall₂_map_left_iff, List.forall₂_map_right_iff, List.forall₂_same]
  exact fun path _ => Document.rel_getPath h path separator

theorem same_ofValues {vs ws : List Value} (h : List.Forall₂ Same vs ws) : Same (ofValues vs) (ofValues ws) := by
  refine same_iff.mpr ?_
  show List.Forall₂ _ (vs.map some) (ws.map some)
  rw [List.forall₂_map_left_iff, List.forall₂_map_right_iff]
  exact h.imp fun _ _ hvw => .some hvw

end Tuple

/-! ## Entries -/

/-- Entries of equal tuples with the same keys. -/
abbrev SameEntry (e f : Tuple × List String) : Prop := Same e.1 f.1 ∧ e.2 = f.2

variable {s t : Tuple} {es fs : List (Tuple × List String)}

theorem keysIn_eq_of_same (hst : Same s t) (h : List.Forall₂ SameEntry es fs) : keysIn s es = keysIn t fs := by
  induction h with
  | nil => rfl
  | @cons e f es fs hef _ ih =>
    obtain ⟨u, ks⟩ := e
    obtain ⟨v, _⟩ := f
    obtain ⟨huv, rfl⟩ := hef
    rw [keysIn, keysIn, beq_congr huv hst, ih]

theorem rel_addEntry (hst : Same s t) (key : String) (h : List.Forall₂ SameEntry es fs) :
    List.Forall₂ SameEntry (addEntry s key es) (addEntry t key fs) := by
  induction h with
  | nil => exact .cons ⟨hst, rfl⟩ .nil
  | @cons e f es fs hef hes ih =>
    obtain ⟨u, ks⟩ := e
    obtain ⟨v, _⟩ := f
    obtain ⟨huv, rfl⟩ := hef
    unfold addEntry
    rw [compare_congr (Std.LawfulBEqOrd.compare_eq_iff_beq.mpr hst) (Std.LawfulBEqOrd.compare_eq_iff_beq.mpr huv)]
    cases compare t v with
    | lt => exact .cons ⟨hst, rfl⟩ (.cons ⟨huv, rfl⟩ hes)
    | eq => exact .cons ⟨huv, rfl⟩ hes
    | gt => exact .cons ⟨huv, rfl⟩ ih

theorem rel_dropEntry (hst : Same s t) (key : String) (h : List.Forall₂ SameEntry es fs) :
    List.Forall₂ SameEntry (dropEntry s key es) (dropEntry t key fs) := by
  induction h with
  | nil => exact .nil
  | @cons e f es fs hef hes ih =>
    obtain ⟨u, ks⟩ := e
    obtain ⟨v, _⟩ := f
    obtain ⟨huv, rfl⟩ := hef
    unfold dropEntry
    rw [beq_congr huv hst]
    split
    · split
      · exact hes
      · exact .cons ⟨huv, rfl⟩ hes
    · exact .cons ⟨huv, rfl⟩ ih

/-! ## Indexes -/

/-- Indexes over the same fields, with equal tuples and the same keys under them. -/
structure Alike (ix jx : Index) : Prop where
  descriptor : ix.descriptor = jx.descriptor
  entries : List.Forall₂ SameEntry ix.entries jx.entries

variable {ix jx : Index} {ixs jxs : List Index} {d e : Document}

theorem Alike.names_eq (h : ix.Alike jx) : ix.names = jx.names := congrArg (·.fields.names) h.descriptor

theorem Alike.same_tupleOf (h : ix.Alike jx) (separator : String) (hde : Same d e) :
    Same (ix.tupleOf separator d) (jx.tupleOf separator e) := by
  unfold tupleOf
  rw [h.descriptor]
  exact Tuple.same_ofDocument separator jx.descriptor.fields hde

theorem Alike.keysAt_eq (h : ix.Alike jx) (hst : Same s t) : ix.keysAt s = jx.keysAt t :=
  keysIn_eq_of_same hst h.entries

theorem Alike.insert (h : ix.Alike jx) (hst : Same s t) (key : String) : (ix.insert s key).Alike (jx.insert t key) :=
  ⟨h.descriptor, rel_addEntry hst key h.entries⟩

theorem Alike.erase (h : ix.Alike jx) (hst : Same s t) (key : String) : (ix.erase s key).Alike (jx.erase t key) :=
  ⟨h.descriptor, rel_dropEntry hst key h.entries⟩

theorem Alike.holder?_eq (h : ix.Alike jx) (hst : Same s t) (key : String) : ix.holder? s key = jx.holder? t key := by
  unfold holder?
  rw [h.descriptor, h.keysAt_eq hst]

theorem Alike.write (h : ix.Alike jx) (separator key : String) {old? old'? : Option Document}
    (hold : Option.Rel Same old? old'?) (hde : Same d e) :
    (ix.write separator key old? d).Alike (jx.write separator key old'? e) := by
  have ht := h.same_tupleOf separator hde
  cases hold with
  | none => exact h.insert ht key
  | @some old old' hold =>
    have hs := h.same_tupleOf separator hold
    unfold Index.write
    dsimp only
    rw [beq_congr hs ht]
    split
    · exact h
    · exact (h.erase hs key).insert ht key

theorem Alike.remove (h : ix.Alike jx) (separator key : String) (hde : Same d e) :
    (ix.remove separator key d).Alike (jx.remove separator key e) :=
  h.erase (h.same_tupleOf separator hde) key

/-! ## Registered indexes -/

theorem rel_find?_fields (fields : FieldList) (h : List.Forall₂ Alike ixs jxs) :
    Option.Rel Alike (find? fields ixs) (find? fields jxs) :=
  rel_find? (fun ix jx hij => by rw [hij.descriptor]) h

theorem rel_select? (names : List String) (h : List.Forall₂ Alike ixs jxs) :
    Option.Rel Alike (select? names ixs) (select? names jxs) := by
  have hexact : Option.Rel Alike (ixs.find? fun ix => ix.names == names) (jxs.find? fun ix => ix.names == names) :=
    rel_find? (fun ix jx hij => by rw [hij.names_eq]) h
  have hset : Option.Rel Alike (ixs.find? fun ix => ix.descriptor.fields.sameSet names)
      (jxs.find? fun ix => ix.descriptor.fields.sameSet names) :=
    rel_find? (fun ix jx hij => by rw [hij.descriptor]) h
  unfold select?
  generalize (ixs.find? fun ix => ix.names == names) = a at hexact ⊢
  generalize (jxs.find? fun ix => ix.names == names) = b at hexact ⊢
  cases hexact with
  | some hij => exact .some hij
  | none => exact hset

variable {docs docs' : List (String × Document)}

/-- Indexes are filled alike with equal documents. -/
theorem outcome_backfill (separator : String) (h : ix.Alike jx) (hdocs : List.Forall₂ (Named Same) docs docs') :
    Outcome Alike (backfill separator ix docs) (backfill separator jx docs') := by
  induction hdocs generalizing ix jx with
  | nil => exact .ok h
  | @cons a b docs docs' hab _ ih =>
    obtain ⟨key, d⟩ := a
    obtain ⟨_, e⟩ := b
    obtain ⟨rfl, hde⟩ := hab
    have ht := h.same_tupleOf separator hde
    unfold backfill
    dsimp only
    rw [h.holder?_eq ht]
    cases jx.holder? (jx.tupleOf separator e) key with
    | some first => exact .error rfl
    | none => exact ih (h.insert ht key)

theorem outcome_create (separator : String) (descriptor : IndexDescriptor) (h : List.Forall₂ Alike ixs jxs)
    (hdocs : List.Forall₂ (Named Same) docs docs') :
    Outcome (List.Forall₂ Alike) (create separator docs descriptor ixs) (create separator docs' descriptor jxs) := by
  have hfind := rel_find?_fields descriptor.fields h
  unfold create
  generalize find? descriptor.fields ixs = a at hfind ⊢
  generalize find? descriptor.fields jxs = b at hfind ⊢
  cases hfind with
  | some hij =>
    dsimp only
    rw [hij.descriptor]
    split
    · exact .ok h
    · exact .error rfl
  | none =>
    have hempty : (empty descriptor).Alike (empty descriptor) := ⟨rfl, .nil⟩
    exact (outcome_backfill separator hempty hdocs).map fun ix jx hij => List.rel_append h (.cons hij .nil)

theorem outcome_drop (fields : FieldList) (h : List.Forall₂ Alike ixs jxs) :
    Outcome (List.Forall₂ Alike) (drop fields ixs) (drop fields jxs) := by
  have hfind := rel_find?_fields fields h
  unfold drop
  generalize find? fields ixs = a at hfind ⊢
  generalize find? fields jxs = b at hfind ⊢
  cases hfind with
  | some _ => exact .ok (rel_filter (fun ix jx hij => by rw [hij.descriptor]) h)
  | none => exact .error rfl

theorem outcome_lookup (fields : FieldList) {vs ws : List Value} (hvs : List.Forall₂ Same vs ws)
    (h : List.Forall₂ Alike ixs jxs) : Outcome Eq (lookup fields vs ixs) (lookup fields ws jxs) := by
  have hfind := rel_find?_fields fields h
  unfold lookup
  generalize find? fields ixs = a at hfind ⊢
  generalize find? fields jxs = b at hfind ⊢
  cases hfind with
  | none => exact .error rfl
  | some hij =>
    dsimp only
    rw [hvs.length_eq, hij.keysAt_eq (Tuple.same_ofValues hvs)]
    split
    · exact .ok rfl
    · exact .error rfl

/-- Equal documents pass the unique indexes alike. -/
theorem checkWrite_eq_of_same (separator key : String) (hde : Same d e) (h : List.Forall₂ Alike ixs jxs) :
    checkWrite separator key d ixs = checkWrite separator key e jxs := by
  induction h with
  | nil => rfl
  | @cons ix jx ixs jxs hij _ ih =>
    unfold checkWrite
    rw [hij.holder?_eq (hij.same_tupleOf separator hde), hij.descriptor, ih]

end Index
end DocStore
