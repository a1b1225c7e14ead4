import DocStore.Config

/-!
# Settings that a store accepts

No accepted setting makes the key field hold timestamps (`timestampField_ne_keyField`), so the key of a document is never
overwritten by a timestamp. Without a result window nothing is cut (`cap_eq_self`).
-/

namespace DocStore.Config

variable {c c' : Config}

theorem timestampField_set {s : Setting} (hc : c.timestampField ≠ some keyField) (h : c.set s = .ok c') :
    c'.timestampField ≠ some keyField := by
  unfold set at h
  split at h
  · cases h
  · cases s with
    | separator text =>
      simp only at h
      split at h
      · cases h
      · cases h; exact hc
    | timestampField name =>
      simp only at h
      split at h
      · cases h
      · split at h
        · cases h
        · next hn => cases h; exact fun he => hn (Option.some.inj he)
    | resultWindow size =>
      simp only at h
      split at h
      · cases h
      · cases h; exact hc

theorem timestampField_setAll {settings : List Setting} (hc : c.timestampField ≠ some keyField)
    (h : c.setAll settings = .ok c') : c'.timestampField ≠ some keyField := by
  induction settings generalizing c with
  | nil => cases h; exact hc
  | cons s ss ih =>
    unfold setAll at h
    cases hs : c.set s with
    | error e => rw [hs] at h; cases h
    | ok d => rw [hs] at h; exact ih (timestampField_set hc hs) h

/-- Accepted settings do not make the key field hold timestamps. -/
theorem timestampField_ne_keyField {settings : List Setting} (h : Config.setAll {} settings = .ok c) :
    c.timestampField ≠ some keyField :=
  timestampField_setAll (fun he => by cases he) h

/-- An accepted separator is not empty, and is the separator from then on. -/
theorem set_separator_eq_ok {text : String} (h : c.set (.separator text) = .ok c') : text ≠ "" ∧ c'.separator = text := by
  unfold set at h
  split at h
  · cases h
  · dsimp only at h
    split at h
    · cases h
    · next hne =>
      cases h
      exact ⟨hne, rfl⟩

/-- Without a result window a search answers all of its results. -/
theorem cap_eq_self {α : Type} (h : c.resultWindow = none) (results : List α) : c.cap results = results := by
  rw [cap, h]

end DocStore.Config
