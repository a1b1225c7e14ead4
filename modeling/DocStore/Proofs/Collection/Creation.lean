import DocStore.Proofs.Collection.Rebuilding
import DocStore.Proofs.Collection.Refusals
import DocStore.Proofs.Index.Creation

/-!
# What creating an index comes to

Asking a collection for an index ends in one of five ways, each under a condition on the names and on what is there before
(`Reachable.addIndex_exact`): names that are no field list are declined; an index over the same names in the same order
settles the matter by its uniqueness; a unique index over a new field list is declined at the first document that repeats a
tuple; and else the index is filled with all documents and comes last.
-/

namespace DocStore.Collection

variable {c : Collection} {names : List String} {unique : Bool}

/-- Asking for an index ends with an error of a kind, and the collection stays as it was. -/
def Declines (c : Collection) (names : List String) (unique : Bool) (kind : ErrorKind) (e : StoreError) : Prop :=
  e.kind = kind ∧ c.addIndex names unique = (.error e, c)

theorem addIndex_of_ofNames_eq_error {e : StoreError} (h : FieldList.ofNames names = .error e) :
    c.addIndex names unique = (.error e, c) := by
  unfold addIndex
  rw [h]

theorem addIndex_of_create_eq_error {fields : FieldList} {e : StoreError}
    (h : Index.create c.separator c.documents ⟨fields, unique, c.name⟩ c.indexes = .error e) :
    c.addIndex fields.names unique = (.error e, c) := by
  unfold addIndex
  rw [FieldList.ofNames_names]
  simp only [h]

/-- An index over the same field list stays, and is what was asked for or prevents it. -/
theorem Consistent.addIndex_of_mem (h : c.Consistent) {u : IndexDescriptor} (hu : u ∈ c.listIndexes) :
    c.addIndex u.fields.names u.unique = (.ok (), c) ∧
      c.Declines u.fields.names (!u.unique) .indexAlreadyExists (.indexDiffers u.fields) := by
  obtain ⟨ix, hix, rfl⟩ := List.mem_map.mp hu
  have hfind := Index.find?_of_mem h.fields_nodup hix
  constructor
  · unfold addIndex Index.create
    rw [FieldList.ofNames_names]
    simp only [hfind, if_pos]
  · refine ⟨rfl, addIndex_of_create_eq_error ?_⟩
    unfold Index.create
    simp only [hfind]
    rw [if_neg (by simp)]

/-- **Asking for an index is decided exactly.** Names that are no field list are declined. If there is an index over the same
names in the same order, nothing changes, and only the same uniqueness is accepted. Else a unique index is declined when two
documents agree at its fields, and the error names the first document of the scan that agrees with an earlier one and the only
one it agrees with. In all other cases the index is created: it comes last, after all others as they were, and has each
document under its tuple and nothing else. -/
theorem Reachable.addIndex_exact [Like.Engine] (h : c.Reachable) (names : List String) (unique : Bool) :
    (names = [] → c.Declines names unique .validationError .fieldListEmpty) ∧
    (names ≠ [] → "" ∈ names → c.Declines names unique .validationError .fieldListName) ∧
    (names ≠ [] → "" ∉ names → ∃ fields : FieldList, fields.names = names ∧
      (∀ u ∈ c.listIndexes, u.fields.names = names →
        (u.unique = unique → c.addIndex names unique = (.ok (), c)) ∧
        (u.unique ≠ unique → c.Declines names unique .indexAlreadyExists (.indexDiffers fields))) ∧
      ((∀ u ∈ c.listIndexes, u.fields.names ≠ names) → unique = true → c.Repeats names →
        ∃ first second, FirstRepeat c.separator names c.documents first second ∧
          c.Declines names unique .duplicateKeyViolation (.tupleShared fields first.1 second.1)) ∧
      ((∀ u ∈ c.listIndexes, u.fields.names ≠ names) → ¬ (unique = true ∧ c.Repeats names) →
        ∃ ix, c.addIndex names unique = (.ok (), { c with indexes := c.indexes ++ [ix] }) ∧
          (c.addIndex names unique).2.listIndexes = c.listIndexes ++ [⟨fields, unique, c.name⟩] ∧
          ∀ t k, k ∈ ix.keysAt t ↔
            ∃ d, c.get? k = some d ∧ (t == .ofDocument c.separator fields d) = true)) := by
  have hc := h.consistent
  refine ⟨?_, ?_, ?_⟩
  · rintro rfl
    exact ⟨rfl, addIndex_of_ofNames_eq_error rfl⟩
  · intro hne hempty
    refine ⟨rfl, addIndex_of_ofNames_eq_error ?_⟩
    unfold FieldList.ofNames
    rw [dif_neg hne, dif_pos hempty]
  · intro hne hempty
    obtain ⟨fields, rfl⟩ : ∃ fields : FieldList, fields.names = names :=
      ⟨⟨names, hne, fun n hn he => hempty (he ▸ hn)⟩, rfl⟩
    -- a field list that no index is over is new in the registry
    have hnew (hno : ∀ u ∈ c.listIndexes, u.fields.names ≠ fields.names) :
        fields ∉ c.indexes.map (·.descriptor.fields) :=
      Index.find?_eq_none_iff_notMem.mp (find?_eq_none_iff.mpr hno)
    refine ⟨fields, rfl, ?_, ?_, ?_⟩
    · intro u hu hfields
      obtain rfl : u.fields = fields := FieldList.ext hfields
      obtain ⟨hsame, hother⟩ := hc.addIndex_of_mem hu
      constructor
      · rintro rfl
        exact hsame
      · intro hunique
        obtain rfl : unique = !u.unique := Bool.eq_not_of_ne hunique.symm
        exact hother
    · rintro hno rfl hrepeats
      have hs : ¬ Index.Separates c.separator c.get? ⟨fields, true, c.name⟩ := not_separates_iff.mpr ⟨rfl, hrepeats⟩
      obtain ⟨first, second, hfirst, hcreate⟩ := Index.create_eq_error (hnew hno) hc.keys_nodup hs
      exact ⟨first, second, hfirst, rfl, addIndex_of_create_eq_error hcreate⟩
    · intro hno hfree
      have hs : Index.Separates c.separator c.get? ⟨fields, unique, c.name⟩ :=
        not_not.mp fun hs => hfree (not_separates_iff.mp hs)
      obtain ⟨ix, hcreate, hdescriptor, htracks⟩ := Index.exists_create_eq_ok (hnew hno) hc.keys_nodup hs
      have hadd := addIndex_eq_ok (c := c) rfl hcreate
      refine ⟨ix, hadd, ?_, fun t k => ?_⟩
      · rw [hadd]
        show (c.indexes ++ [ix]).map (·.descriptor) = _
        rw [List.map_append, List.map_singleton, hdescriptor]
        rfl
      · rw [htracks.mem_keysAt]
        simp only [Index.tupleOf, hdescriptor]
        rfl

open Like.Sized

/-- The sample has an index over the inner field and the number, in this order, and one over the number alone. In the other
order a unique index would repeat a tuple: the last document has the numbers of the first one in another form. -/
theorem addIndex_exact_sample :
    sample.addIndex ["n"] false = (.ok (), sample) ∧
    (∃ fields, sample.Declines ["n"] true .indexAlreadyExists (.indexDiffers fields)) ∧
    (∃ fields, sample.Declines ["n", "size.w"] true .duplicateKeyViolation (.tupleShared fields "a" "b")) ∧
    (sample.addIndex ["n", "size.w"] false).2.listIndexes.map (·.fields.names) =
      [["size.w", "n"], ["n"], ["n", "size.w"]] := by
  have hlist : sample.listIndexes.map (fun u => (u.fields.names, u.unique)) =
      [(["size.w", "n"], false), (["n"], false)] := by decide +kernel
  have hn : ∃ u ∈ sample.listIndexes, u.fields.names = ["n"] ∧ u.unique = false := by decide +kernel
  have hno : ∀ u ∈ sample.listIndexes, u.fields.names ≠ ["n", "size.w"] := by decide +kernel
  obtain ⟨u, hu, hfields, hunique⟩ := hn
  obtain ⟨-, -, hsame⟩ := reachable_sample.addIndex_exact ["n"] false
  obtain ⟨-, -, hdiffers⟩ := reachable_sample.addIndex_exact ["n"] true
  obtain ⟨-, -, hrepeat⟩ := reachable_sample.addIndex_exact ["n", "size.w"] true
  obtain ⟨-, -, hplain⟩ := reachable_sample.addIndex_exact ["n", "size.w"] false
  refine ⟨?_, ?_, ?_, ?_⟩
  · obtain ⟨fields, -, hsame, -⟩ := hsame (by decide) (by decide)
    exact (hsame u hu hfields).1 hunique
  · obtain ⟨fields, -, hdiffers, -⟩ := hdiffers (by decide) (by decide)
    exact ⟨fields, (hdiffers u hu hfields).2 (by simp [hunique])⟩
  · obtain ⟨fields, hnames, -, hrepeat, -⟩ := hrepeat (by decide) (by decide)
    have hagree : ∀ d ∈ sample.get? "a", ∀ e ∈ sample.get? "b",
        (Index.Tuple.ofDocument sample.separator fields d == Index.Tuple.ofDocument sample.separator fields e) = true := by
      simp only [Index.Tuple.ofDocument, hnames]
      decide +kernel
    have hrepeats : sample.Repeats ["n", "size.w"] :=
      ⟨"a", "b", _, _, by decide, rfl, rfl, hnames ▸ Index.Tuple.ofDocument_beq_iff.mp (hagree _ rfl _ rfl)⟩
    obtain ⟨first, second, -, hdeclines⟩ := hrepeat hno rfl hrepeats
    have heval : (match (sample.addIndex ["n", "size.w"] true).1 with
        | .error (.tupleShared _ a b) => [a, b]
        | _ => []) = ["a", "b"] := by decide +kernel
    rw [hdeclines.2] at heval
    obtain ⟨ha, hb⟩ : first.1 = "a" ∧ second.1 = "b" := by simpa using heval
    rw [ha, hb] at hdeclines
    exact ⟨fields, hdeclines⟩
  · obtain ⟨fields, hnames, -, -, hplain⟩ := hplain (by decide) (by decide)
    obtain ⟨ix, -, hindexes, -⟩ := hplain hno (by simp)
    have hfirst := congrArg (List.map Prod.fst) hlist
    rw [List.map_map] at hfirst
    rw [hindexes, List.map_append, List.map_singleton, hnames]
    exact congrArg (· ++ [["n", "size.w"]]) hfirst

end DocStore.Collection
