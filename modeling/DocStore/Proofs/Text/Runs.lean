/-!
# Runs of characters

A run of characters of one class ends where a text of another kind starts (`Stops`), so what follows makes no difference to it
(`takeWhile_append`, `dropWhile_append`).
-/

namespace DocStore.Text

variable {b : List Char} {p q : Char → Bool}

/-- A text that does not start with a character of a class. -/
def Stops (p : Char → Bool) (b : List Char) : Prop := ∀ y ∈ b.head?, p y = false

theorem stops_nil : Stops p [] := nofun

theorem stops_cons {c : Char} {cs : List Char} (h : p c = false) : Stops p (c :: cs) := fun _ hy => Option.some.inj hy ▸ h

theorem Stops.mono (h : Stops p b) (hq : ∀ y, q y = true → p y = true) : Stops q b := fun y hy =>
  Bool.eq_false_iff.mpr fun hqy => Bool.eq_false_iff.mp (h y hy) (hq y hqy)

/-- A character of the class is another one than a character that is not. -/
theorem ne_of_class {c d : Char} (h : p c = false) (hd : p d = true) : c ≠ d := by
  rintro rfl
  rw [h] at hd
  cases hd

theorem takeWhile_append (h : Stops p b) (a : List Char) : (a ++ b).takeWhile p = a.takeWhile p := by
  induction a with
  | nil =>
    cases b with
    | nil => rfl
    | cons y b => exact List.takeWhile_cons_of_neg (Bool.eq_false_iff.mp (h y rfl))
  | cons c a ih =>
    rw [List.cons_append, List.takeWhile_cons, List.takeWhile_cons, ih]

theorem dropWhile_append (h : Stops p b) (a : List Char) : (a ++ b).dropWhile p = a.dropWhile p ++ b := by
  induction a with
  | nil =>
    cases b with
    | nil => rfl
    | cons y b => exact List.dropWhile_cons_of_neg (Bool.eq_false_iff.mp (h y rfl))
  | cons c a ih =>
    rw [List.cons_append, List.dropWhile_cons, List.dropWhile_cons, ih]
    split <;> rfl

end DocStore.Text
