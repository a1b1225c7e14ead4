import DocStore.Document.Path
import DocStore.Proofs.Document.Fields
import DocStore.Proofs.Text.Segments

/-!
# What a path reads

From a value field names lead to another value (`Reaches`), or the way breaks (`Breaks`), and walking tells the two apart. A
document reads along some names when the joined path finds the top-level field of that name, else what the names lead to
(`ReadsAlong`). Since paths are cut again when they are read, all documents do so exactly when cutting gives the names back
(`forall_readsAlong_iff`).
-/

namespace DocStore

namespace Value

variable {v w : Value} {names : List String}

/-! ## Stepping through inner documents -/

/-- Names of fields lead from a value, step by step through inner documents, to another value. -/
inductive Reaches : Value → List String → Value → Prop
  | here (v : Value) : Reaches v [] v
  | step {es : List (String × Value)} {name : String} {names : List String} {v w : Value}
      (hfield : es.lookup name = some v) (h : Reaches v names w) : Reaches (.document es) (name :: names) w

/-- On the way along names of fields a field is missing, or a value is no document. -/
inductive Breaks : Value → List String → Prop
  | missing {es : List (String × Value)} {name : String} {names : List String} (h : es.lookup name = none) :
      Breaks (.document es) (name :: names)
  | notDocument {v : Value} {name : String} {names : List String} (h : v.entries? = none) : Breaks v (name :: names)
  | later {es : List (String × Value)} {name : String} {names : List String} {v : Value}
      (hfield : es.lookup name = some v) (h : Breaks v names) : Breaks (.document es) (name :: names)

theorem walk_eq_some_iff : v.walk names = some w ↔ v.Reaches names w := by
  constructor
  · intro h
    fun_induction walk v names with
    | case1 v =>
      cases h
      exact .here w
    | case2 es name names ih =>
      obtain ⟨u, hu, hw⟩ := Option.bind_eq_some_iff.mp h
      exact .step hu (ih u hw)
    | case3 => cases h
  · intro h
    induction h with
    | here v => rw [walk]
    | step hfield _ ih => rw [walk, hfield, Option.bind_some, ih]

theorem walk_eq_none_iff : v.walk names = none ↔ v.Breaks names := by
  constructor
  · intro h
    fun_induction walk v names with
    | case1 v => cases h
    | case2 es name names ih =>
      cases hfield : es.lookup name with
      | none => exact .missing hfield
      | some u =>
        rw [hfield, Option.bind_some] at h
        exact .later hfield (ih u h)
    | case3 v name names hno =>
      refine .notDocument ?_
      cases v with
      | document es => exact absurd rfl (hno es)
      | _ => rfl
  · intro h
    induction h with
    | missing h => rw [walk, h, Option.bind_none]
    | @notDocument v name names h =>
      cases v with
      | document es => cases h
      | _ => rw [walk]; exact fun es he => by cases he
    | later hfield _ ih => rw [walk, hfield, Option.bind_some, ih]

/-- A value under names of fields, each in a document of its own. -/
def nested (names : List String) (v : Value) : Value := names.foldr (fun name v => .document [(name, v)]) v

theorem walk_nested (names : List String) (v : Value) : (nested names v).walk names = some v := by
  induction names with
  | nil => exact walk.eq_1 v
  | cons name names ih =>
    show (document [(name, nested names v)]).walk (name :: names) = some v
    rw [walk, List.lookup_cons_self, Option.bind_some, ih]

/-- Only the names themselves lead to null at the end. -/
theorem eq_of_walk_nested {names ns : List String} (h : (nested names .null).walk ns = some .null) : ns = names := by
  induction names generalizing ns with
  | nil =>
    cases ns with
    | nil => rfl
    | cons n ns => cases walk_eq_some_iff.mp h
  | cons name names ih =>
    cases ns with
    | nil => cases walk_eq_some_iff.mp h
    | cons n ns =>
      replace h : (document [(name, nested names .null)]).walk (n :: ns) = some .null := h
      rw [walk, lookup_cons_eq] at h
      split at h
      · next hn => rw [hn, ih h]
      · cases h

end Value

namespace Document

variable {d : Document} {separator path : String} {names : List String}

/-! ## Reading along names -/

/-- At the path of some names a document has its top-level field of that name, and if it has none, the value that the names
lead to; nothing is there exactly when there is no such field and the way along the names breaks. -/
structure ReadsAlong (separator : String) (names : List String) (d : Document) : Prop where
  found : ∀ v, d.getPath (separator.intercalate names) separator = some v ↔ d.get? (separator.intercalate names) = some v ∨
    d.get? (separator.intercalate names) = none ∧ d.toValue.Reaches names v
  missing : d.getPath (separator.intercalate names) separator = none ↔
    d.get? (separator.intercalate names) = none ∧ d.toValue.Breaks names

theorem readsAlong_iff : d.ReadsAlong separator names ↔ d.getPath (separator.intercalate names) separator =
    (d.get? (separator.intercalate names)).or (d.toValue.walk names) := by
  constructor
  · intro h
    refine Option.ext fun v => (h.found v).trans ?_
    rw [Option.or_eq_some_iff, Value.walk_eq_some_iff]
  · intro h
    refine ⟨fun v => ?_, ?_⟩
    · rw [h, Option.or_eq_some_iff, Value.walk_eq_some_iff]
    · rw [h, Option.or_eq_none_iff, Value.walk_eq_none_iff]

theorem walk_singleton (d : Document) (name : String) : d.toValue.walk [name] = d.get? name := by
  show (Value.document d.entries).walk [name] = d.entries.lookup name
  rw [Value.walk]
  cases d.entries.lookup name with
  | none => rfl
  | some v => exact Value.walk.eq_1 v

/-- The names that a path is cut into when it is read. -/
def cutNames (separator path : String) : List String := (Text.segments separator.toList path.toList).map String.ofList

theorem intercalate_cutNames (hsep : separator ≠ "") (path : String) :
    separator.intercalate (cutNames separator path) = path := by
  have hlist : separator.toList ≠ [] := fun h => hsep (String.toList_eq_nil_iff.mp h)
  have hjoin : (separator.intercalate (cutNames separator path)).toList = path.toList := by
    rw [String.toList_intercalate, cutNames, List.map_map]
    have hid : String.toList ∘ String.ofList = id := funext fun cs => String.toList_ofList
    rw [hid, List.map_id, Text.intercalate_segments hlist]
  exact String.toList_inj.mp hjoin

/-- A document is read at a path by its name and then by the names that it is cut into. -/
theorem getPath_eq (hsep : separator ≠ "") :
    d.getPath path separator = (d.get? path).or (d.toValue.walk (cutNames separator path)) := by
  have hjoin := intercalate_cutNames hsep path
  unfold getPath pathSegments?
  cases hget : d.get? path with
  | some v => rfl
  | none =>
    rw [if_neg hsep, Option.none_or]
    dsimp only
    split
    · next first second rest hsegments => rw [cutNames, hsegments]; rfl
    · next hfew =>
      -- a single segment is the path itself, which is no field
      obtain ⟨s, hs⟩ : ∃ s, Text.segments separator.toList path.toList = [s] := by
        match hsegments : Text.segments separator.toList path.toList with
        | [] => exact absurd hsegments (Text.segmentsFrom_ne_nil _ _ _)
        | [s] => exact ⟨s, rfl⟩
        | first :: second :: rest => exact absurd hsegments (hfew first second rest)
      have hone : cutNames separator path = [String.ofList s] := by rw [cutNames, hs]; rfl
      rw [hone, String.intercalate_singleton] at hjoin
      rw [hone, walk_singleton, hjoin, hget]
      rfl

theorem length_lt_intercalate (hsep : separator ≠ "") (first second : String) (rest : List String) :
    first.length < (separator.intercalate (first :: second :: rest)).length := by
  have hpos : 0 < separator.length := Nat.pos_of_ne_zero fun h => hsep (String.length_eq_zero_iff.mp h)
  rw [String.intercalate_cons_cons, String.length_append, String.length_append]
  omega

/-- Under two names or more no top-level field has the joined name. -/
theorem get?_intercalate_nested (hsep : separator ≠ "") (first second : String) (rest : List String) :
    (ofList [(first, .nested (second :: rest) .null)]).get? (separator.intercalate (first :: second :: rest)) = none := by
  show [(first, Value.nested (second :: rest) .null)].lookup _ = none
  refine lookup_eq_none fun e he hname => ?_
  rw [List.mem_singleton.mp he] at hname
  exact Nat.ne_of_lt (length_lt_intercalate hsep first second rest) (congrArg String.length hname)

/-- **All documents read along some names exactly when the joined path is cut into these names.** -/
theorem forall_readsAlong_iff (hsep : separator ≠ "") (hne : names ≠ []) :
    (∀ d : Document, d.ReadsAlong separator names) ↔ cutNames separator (separator.intercalate names) = names := by
  constructor
  · intro h
    have hread (d : Document) := (getPath_eq hsep).symm.trans (readsAlong_iff.mp (h d))
    match names with
    | [] => exact absurd rfl hne
    | [name] =>
      rw [String.intercalate_singleton] at hread ⊢
      have hjoin := intercalate_cutNames hsep name
      match hcut : cutNames separator name with
      | [] =>
        rw [cutNames, List.map_eq_nil_iff] at hcut
        exact absurd hcut (Text.segmentsFrom_ne_nil _ _ _)
      | [other] => rw [hcut, String.intercalate_singleton] at hjoin; rw [hjoin]
      | first :: second :: rest =>
        -- a document with a value along the cut has none under the name
        rw [hcut] at hjoin
        have hnone := get?_intercalate_nested hsep first second rest
        have hwalk := Value.walk_nested (first :: second :: rest) .null
        have hd := hread (ofList [(first, .nested (second :: rest) .null)])
        rw [hcut, walk_singleton, ← hjoin, hnone, Option.none_or, Option.none_or] at hd
        exact absurd (hwalk.symm.trans hd) (by simp)
    | first :: second :: rest =>
      have hnone := get?_intercalate_nested hsep first second rest
      have hwalk := Value.walk_nested (first :: second :: rest) .null
      have hd := hread (ofList [(first, .nested (second :: rest) .null)])
      rw [hnone, Option.none_or, Option.none_or] at hd
      exact Value.eq_of_walk_nested (hd.trans hwalk)
  · intro h d
    rw [readsAlong_iff, getPath_eq hsep, h]

/-! ## Separators that no name has -/

/-- Names are cut out again if the separator has a character of a kind that no name has. -/
theorem cutNames_intercalate {p : Char → Bool} (hsep : ∃ c ∈ separator.toList, p c = false) (hne : names ≠ [])
    (h : ∀ n ∈ names, ∀ c ∈ n.toList, p c = true) : cutNames separator (separator.intercalate names) = names := by
  have hpieces : ∀ s ∈ names.map String.toList, ∀ c ∈ s, p c = true := by
    intro s hs
    obtain ⟨n, hn, rfl⟩ := List.mem_map.mp hs
    exact h n hn
  have hid : String.ofList ∘ String.toList = id := funext fun s => String.ofList_toList
  rw [cutNames, String.toList_intercalate, Text.segments_intercalate hsep (by simpa using hne) hpieces, List.map_map, hid,
    List.map_id]

/-- A name with the separator in it is cut. -/
theorem cutNames_append_ne (hsep : separator ≠ "") (n : String) : cutNames separator (n ++ separator) ≠ [n ++ separator] := by
  have hlist : separator.toList ≠ [] := fun h => hsep (String.toList_eq_nil_iff.mp h)
  intro h
  have htwo := Text.two_le_length_segments hlist n.toList []
  have hone := congrArg List.length h
  rw [cutNames, List.length_map, String.toList_append] at hone
  rw [List.append_nil, hone, List.length_singleton] at htwo
  omega

end Document
end DocStore
