import DocStore.Like.Clauses
import DocStore.Proofs.Document.Fields
import DocStore.Proofs.FirstFailure
import DocStore.Proofs.Like.Pattern

/-!
# The alternatives of a predicate

Every entry of a predicate spells an alternative (`Spells`), unless it is a text that the engine refuses as a pattern
(`Refused`). So a predicate has its alternatives (`clauses_eq_ok_iff`), or the first text that is refused gives the error
(`clauses_eq_error_iff`). A document meets an alternative when it has a value that one of the predicate matches
(`Document.MeetsSome`, `matchesAny_iff`).
-/

namespace DocStore

namespace Like

variable {predicate d : Document} {x : String × Value} {xs : List (String × Value)} {c : Clause} {cs : List Clause}
  {separator : String} {e : StoreError}

/-! ## One entry -/

/-- An entry is an alternative. -/
inductive Spells [Engine] : String × Value → Clause → Prop where
  | pattern (path : String) {s : String} {p : LikePattern} (h : LikePattern.ofString s = .ok p) :
    Spells (path, .string s) (.pattern path p)
  | equal (path : String) {v : Value} (h : ∀ s, v ≠ .string s) : Spells (path, v) (.equal path v)

/-- An entry has no text that the engine refuses. -/
def Accepted [Engine] (x : String × Value) : Prop := ∀ s, x.2 = .string s → Engine.refusal s = none

/-- An entry has a text that the engine refuses. -/
inductive Refused [Engine] : String × Value → StoreError → Prop where
  | intro (path : String) {s : String} {e : PatternError} (h : Engine.refusal s = some e) :
    Refused (path, .string s) (.badPattern e)

theorem Spells.ofEntry_eq [Engine] (h : Spells x c) : Clause.ofEntry x = .ok c := by
  cases h with
  | pattern path h =>
    rw [Clause.ofEntry, h]
    rfl
  | @equal path v h =>
    cases v with
    | string s => exact absurd rfl (h s)
    | _ => rfl

theorem Refused.ofEntry_eq [Engine] (h : Refused x e) : Clause.ofEntry x = .error e := by
  cases h with
  | intro path h =>
    rw [Clause.ofEntry, LikePattern.ofString_of_refusal h]
    rfl

theorem Accepted.exists_spells [Engine] (h : Accepted x) : ∃ c, Spells x c := by
  obtain ⟨path, v⟩ := x
  by_cases hv : ∃ s, v = .string s
  · obtain ⟨s, rfl⟩ := hv
    exact ⟨_, .pattern path (LikePattern.ofString_of_refusal_eq_none (h s rfl))⟩
  · exact ⟨_, .equal path (not_exists.mp hv)⟩

theorem Refused.not_accepted [Engine] (h : Refused x e) : ¬Accepted x := by
  cases h with
  | intro path h =>
    intro haccepted
    rw [haccepted _ rfl] at h
    cases h

theorem Refused.kind_eq [Engine] (h : Refused x e) : e.kind = .validationError := by
  cases h
  rfl

theorem accepted_or_refused [Engine] (x : String × Value) : Accepted x ∨ ∃ e, Refused x e := by
  by_cases h : Accepted x
  · exact Or.inl h
  · obtain ⟨path, v⟩ := x
    simp only [Accepted, not_forall] at h
    obtain ⟨s, rfl, hs⟩ := h
    obtain ⟨e, he⟩ := Option.ne_none_iff_exists'.mp hs
    exact Or.inr ⟨_, .intro path he⟩

namespace Sized

/-- A text that is too long for a pattern. -/
def longText : String := String.ofList (List.replicate 1000000 '_')

theorem refused_longText (path : String) : Refused (path, .string longText) (.badPattern (.tooLarge 10485760)) := by
  have hlength : longText.length = 1000000 := String.length_ofList.trans List.length_replicate
  exact .intro path (if_pos (Nat.le_of_eq hlength.symm))

end Sized

/-! ## All entries -/

theorem ofEntries_of_spells [Engine] (h : List.Forall₂ Spells xs cs) : Clause.ofEntries xs = .ok cs := by
  induction h with
  | nil => rfl
  | cons hx _ ih =>
    rw [Clause.ofEntries, hx.ofEntry_eq, ih]
    rfl

theorem exists_forall₂_spells [Engine] (h : ∀ x ∈ xs, Accepted x) : ∃ cs, List.Forall₂ Spells xs cs := by
  induction xs with
  | nil => exact ⟨[], .nil⟩
  | cons x xs ih =>
    obtain ⟨hx, hxs⟩ := List.forall_mem_cons.mp h
    obtain ⟨c, hc⟩ := hx.exists_spells
    obtain ⟨cs, hcs⟩ := ih hxs
    exact ⟨c :: cs, .cons hc hcs⟩

theorem ofEntries_of_firstFailing [Engine] (h : FirstFailing Accepted Refused xs e) :
    Clause.ofEntries xs = .error e := by
  induction xs with
  | nil => exact absurd h not_firstFailing_nil
  | cons x xs ih =>
    rcases firstFailing_cons.mp h with hx | ⟨hx, hxs⟩
    · rw [Clause.ofEntries, hx.ofEntry_eq]
      rfl
    · obtain ⟨c, hc⟩ := hx.exists_spells
      rw [Clause.ofEntries, hc.ofEntry_eq, ih hxs]
      rfl

/-- A predicate has its alternatives, or a first text that is refused. -/
theorem spells_or_firstFailing [Engine] (xs : List (String × Value)) :
    (∃ cs, List.Forall₂ Spells xs cs) ∨ ∃ e, FirstFailing Accepted Refused xs e :=
  (accepted_or_firstFailing accepted_or_refused xs).imp_left exists_forall₂_spells

theorem clauses_eq_ok_iff [Engine] : clauses predicate = .ok cs ↔ List.Forall₂ Spells predicate.entries cs :=
  eq_ok_iff_of_total (fun _ => ofEntries_of_spells) (fun _ => ofEntries_of_firstFailing)
    (spells_or_firstFailing predicate.entries)

theorem clauses_eq_error_iff [Engine] :
    clauses predicate = .error e ↔ FirstFailing Accepted Refused predicate.entries e :=
  eq_error_iff_of_total (fun _ => ofEntries_of_spells) (fun _ => ofEntries_of_firstFailing)
    (spells_or_firstFailing predicate.entries)

theorem exists_clauses_iff [Engine] : (∃ cs, clauses predicate = .ok cs) ↔ ∀ x ∈ predicate.entries, Accepted x := by
  constructor
  · rintro ⟨cs, h⟩
    rcases accepted_or_firstFailing accepted_or_refused predicate.entries with haccepted | ⟨e, he⟩
    · exact haccepted
    · cases h.symm.trans (clauses_eq_error_iff.mpr he)
  · exact fun h => (exists_forall₂_spells h).imp fun _ => clauses_eq_ok_iff.mpr

/-! ## Meeting an alternative -/

/-- A value of a predicate, read as an alternative, matches a value of a document: a text does when it is a pattern that
accepts a text, any other value when it is equal. -/
def Matches [Engine] (v w : Value) : Prop :=
  (∃ pattern p text, v = .string pattern ∧ LikePattern.ofString pattern = .ok p ∧ w = .string text ∧
    p.accepts text = true) ∨
  (∀ s, v ≠ .string s) ∧ (w == v) = true

theorem Spells.holds_iff [Engine] (h : Spells x c) :
    c.holds separator d = true ↔ ∃ w, d.getPath x.1 separator = some w ∧ Matches x.2 w := by
  cases h with
  | pattern path h =>
    simp only [Clause.holds, Matches]
    cases d.getPath path separator with
    | none => simp
    | some w => cases w <;> simp [h]
  | equal path h =>
    simp only [Clause.holds, Matches]
    cases d.getPath path separator with
    | none => simp
    | some w => simp [h]

theorem matchesAny_of_spells [Engine] (h : List.Forall₂ Spells xs cs) :
    matchesAny separator cs d = true ↔ ∃ x ∈ xs, ∃ w, d.getPath x.1 separator = some w ∧ Matches x.2 w := by
  induction h with
  | nil => simp [matchesAny]
  | @cons x c xs cs hx _ ih =>
    have hcons : matchesAny separator (c :: cs) d = (c.holds separator d || matchesAny separator cs d) := rfl
    rw [hcons, Bool.or_eq_true, hx.holds_iff, ih, List.exists_mem_cons_iff]

end Like

/-- A document has a value at one path of a predicate that the predicate, read as alternatives, matches there. -/
def Document.MeetsSome [Like.Engine] (separator : String) (predicate d : Document) : Prop :=
  ∃ path v w, predicate.get? path = some v ∧ d.getPath path separator = some w ∧ Like.Matches v w

theorem Like.matchesAny_iff [Like.Engine] {separator : String} {predicate d : Document} {cs : List Clause}
    (h : clauses predicate = .ok cs) : matchesAny separator cs d = true ↔ predicate.MeetsSome separator d := by
  rw [matchesAny_of_spells (clauses_eq_ok_iff.mp h), Prod.exists]
  simp only [← Document.get?_eq_some_iff, ← exists_and_left]
  rfl

end DocStore
