import DocStore.Error
import Mathlib.Data.List.Forall2

/-!
# Related lists and outcomes

Two lists are related when they have related items at every place. Then filtering (`rel_filter`), finding (`rel_find?`),
stable sorting (`rel_mergeSort`) and setting an item (`rel_set`) go alike in both. Where entries are related when they
have one name and related items (`Named`), so do reading and setting them (`rel_lookup`, `rel_setEntry`). Two outcomes
are related when both are related results or both are errors of one kind (`Outcome`).
-/

namespace DocStore

variable {α β γ δ : Type} {R : α → β → Prop} {xs : List α} {ys : List β}

/-! ## Options -/

theorem isSome_eq_of_rel {a : Option α} {b : Option β} (h : Option.Rel R a b) : a.isSome = b.isSome := by
  cases h <;> rfl

theorem eq_of_rel_eq {a b : Option α} (h : Option.Rel Eq a b) : a = b := by
  cases h with
  | none => rfl
  | some hab => exact congrArg some hab

theorem rel_map {S : γ → δ → Prop} {f : α → γ} {g : β → δ} {a : Option α} {b : Option β}
    (hfg : ∀ a b, R a b → S (f a) (g b)) (h : Option.Rel R a b) : Option.Rel S (a.map f) (b.map g) := by
  cases h with
  | none => exact .none
  | some hab => exact .some (hfg _ _ hab)

theorem rel_toList {a : Option α} {b : Option β} (h : Option.Rel R a b) : List.Forall₂ R a.toList b.toList := by
  cases h with
  | none => exact .nil
  | some hab => exact .cons hab .nil

/-! ## Items -/

/-- Functions that agree on related items give one list. -/
theorem map_eq_map_of_forall₂ {f : α → γ} {g : β → γ} (hfg : ∀ a b, R a b → f a = g b) (h : List.Forall₂ R xs ys) :
    xs.map f = ys.map g := by
  induction h with
  | nil => rfl
  | cons hab _ ih => rw [List.map_cons, List.map_cons, hfg _ _ hab, ih]

theorem all_eq_all_of_forall₂ {p : α → Bool} {q : β → Bool} (hpq : ∀ a b, R a b → p a = q b)
    (h : List.Forall₂ R xs ys) : xs.all p = ys.all q := by
  induction h with
  | nil => rfl
  | cons hab _ ih => rw [List.all_cons, List.all_cons, hpq _ _ hab, ih]

theorem any_eq_any_of_forall₂ {p : α → Bool} {q : β → Bool} (hpq : ∀ a b, R a b → p a = q b)
    (h : List.Forall₂ R xs ys) : xs.any p = ys.any q := by
  induction h with
  | nil => rfl
  | cons hab _ ih => rw [List.any_cons, List.any_cons, hpq _ _ hab, ih]

theorem rel_filter {p : α → Bool} {q : β → Bool} (hpq : ∀ a b, R a b → p a = q b) (h : List.Forall₂ R xs ys) :
    List.Forall₂ R (xs.filter p) (ys.filter q) :=
  List.rel_filter (fun a b hab => Bool.eq_iff_iff.mp (hpq a b hab)) h

theorem rel_find? {p : α → Bool} {q : β → Bool} (hpq : ∀ a b, R a b → p a = q b) (h : List.Forall₂ R xs ys) :
    Option.Rel R (xs.find? p) (ys.find? q) := by
  induction h with
  | nil => exact .none
  | @cons a b xs ys hab _ ih =>
    rw [List.find?_cons, List.find?_cons, hpq a b hab]
    cases q b with
    | true => exact .some hab
    | false => exact ih

theorem rel_findSome? {S : γ → δ → Prop} {f : α → Option γ} {g : β → Option δ}
    (hfg : ∀ a b, R a b → Option.Rel S (f a) (g b)) (h : List.Forall₂ R xs ys) :
    Option.Rel S (xs.findSome? f) (ys.findSome? g) := by
  induction h with
  | nil => exact .none
  | @cons a b xs ys hab _ ih =>
    have hitem := hfg a b hab
    rw [List.findSome?_cons, List.findSome?_cons]
    generalize f a = x at hitem ⊢
    generalize g b = y at hitem ⊢
    cases hitem with
    | none => exact ih
    | some hxy => exact .some hxy

/-- Functions that find related things at the items of one list. -/
theorem rel_filterMap_same {S : γ → δ → Prop} {f : α → Option γ} {g : α → Option δ}
    (hfg : ∀ a, Option.Rel S (f a) (g a)) (xs : List α) : List.Forall₂ S (xs.filterMap f) (xs.filterMap g) := by
  refine List.rel_filterMap ?_ (List.forall₂_same.mpr fun _ _ => rfl)
  rintro a _ rfl
  exact hfg a

theorem rel_findSome?_same {S : γ → δ → Prop} {f : α → Option γ} {g : α → Option δ}
    (hfg : ∀ a, Option.Rel S (f a) (g a)) (xs : List α) : Option.Rel S (xs.findSome? f) (xs.findSome? g) := by
  refine rel_findSome? ?_ (List.forall₂_same.mpr fun _ _ => rfl)
  rintro a _ rfl
  exact hfg a

/-- Related items that are sorted alike stay related. -/
theorem rel_mergeSort {p : α → α → Bool} {q : β → β → Bool}
    (hpq : ∀ a b c d, R a b → R c d → p a c = q b d) (h : List.Forall₂ R xs ys) :
    List.Forall₂ R (xs.mergeSort p) (ys.mergeSort q) := by
  -- both lists are sorted as one list of pairs
  obtain ⟨hlength, hzip⟩ := List.forall₂_iff_zip.mp h
  have hfst : (xs.zip ys).map Prod.fst = xs := List.map_fst_zip (Nat.le_of_eq hlength)
  have hsnd : (xs.zip ys).map Prod.snd = ys := List.map_snd_zip (Nat.le_of_eq hlength.symm)
  have hleft : ((xs.zip ys).mergeSort fun e f => p e.1 f.1).map Prod.fst = xs.mergeSort p := calc
    _ = ((xs.zip ys).map Prod.fst).mergeSort p := List.map_mergeSort fun _ _ _ _ => rfl
    _ = xs.mergeSort p := by rw [hfst]
  have hright : ((xs.zip ys).mergeSort fun e f => p e.1 f.1).map Prod.snd = ys.mergeSort q := calc
    _ = ((xs.zip ys).map Prod.snd).mergeSort q :=
      List.map_mergeSort fun e he f hf => hpq _ _ _ _ (hzip he) (hzip hf)
    _ = ys.mergeSort q := by rw [hsnd]
  rw [← hleft, ← hright, List.forall₂_map_left_iff, List.forall₂_map_right_iff, List.forall₂_same]
  intro e he
  exact hzip ((List.mergeSort_perm _ _).mem_iff.mp he)

theorem rel_set {a : α} {b : β} (hab : R a b) (h : List.Forall₂ R xs ys) (i : Nat) :
    List.Forall₂ R (xs.set i a) (ys.set i b) := by
  induction h generalizing i with
  | nil => exact .nil
  | cons hx hxs ih =>
    cases i with
    | zero => exact .cons hab hxs
    | succ i => exact .cons hx (ih i)

theorem rel_modify {f : α → α} {g : β → β} (hfg : ∀ a b, R a b → R (f a) (g b)) (h : List.Forall₂ R xs ys) (i : Nat) :
    List.Forall₂ R (xs.modify i f) (ys.modify i g) := by
  induction h generalizing i with
  | nil =>
    rw [List.modify_nil, List.modify_nil]
    exact .nil
  | cons hx hxs ih =>
    cases i with
    | zero => exact .cons (hfg _ _ hx) hxs
    | succ i => exact .cons hx (ih i)

theorem rel_getElem? (h : List.Forall₂ R xs ys) (i : Nat) : Option.Rel R xs[i]? ys[i]? := by
  induction h generalizing i with
  | nil => exact .none
  | cons hx _ ih =>
    cases i with
    | zero => exact .some hx
    | succ i => exact ih i

theorem rel_head? (h : List.Forall₂ R xs ys) : Option.Rel R xs.head? ys.head? := by
  cases h with
  | nil => exact .none
  | cons hab _ => exact .some hab

/-! ## Named entries -/

/-- Entries of one name with related items. -/
abbrev Named (R : α → β → Prop) (e : String × α) (f : String × β) : Prop := e.1 = f.1 ∧ R e.2 f.2

variable {es : List (String × α)} {fs : List (String × β)} {name : String} {a : α} {b : β}

theorem names_eq (h : List.Forall₂ (Named R) es fs) : es.map (·.1) = fs.map (·.1) :=
  map_eq_map_of_forall₂ (fun _ _ hef => hef.1) h

theorem rel_lookup (h : List.Forall₂ (Named R) es fs) (name : String) :
    Option.Rel R (es.lookup name) (fs.lookup name) := by
  induction h with
  | nil => exact .none
  | @cons e f es fs hef _ ih =>
    obtain ⟨m, a⟩ := e
    obtain ⟨_, b⟩ := f
    obtain ⟨rfl, hab⟩ := hef
    rw [List.lookup_cons, List.lookup_cons]
    cases name == m with
    | true => exact .some hab
    | false => exact ih

theorem rel_setEntry (hab : R a b) (h : List.Forall₂ (Named R) es fs) :
    List.Forall₂ (Named R) (setEntry name a es) (setEntry name b fs) := by
  induction h with
  | nil => exact .cons ⟨rfl, hab⟩ .nil
  | @cons e f es fs hef hes ih =>
    obtain ⟨m, x⟩ := e
    obtain ⟨_, y⟩ := f
    obtain ⟨rfl, hxy⟩ := hef
    unfold setEntry
    cases compare name m with
    | lt => exact .cons ⟨rfl, hab⟩ (.cons ⟨rfl, hxy⟩ hes)
    | eq => exact .cons ⟨rfl, hab⟩ hes
    | gt => exact .cons ⟨rfl, hxy⟩ ih

/-! ## Outcomes -/

theorem map_eq_error_iff {x : Except StoreError α} {f : α → β} {e : StoreError} : x.map f = .error e ↔ x = .error e := by
  cases x <;> simp [Except.map]

/-- Two outcomes are related results, or errors of one kind. -/
inductive Outcome {α β : Type} (R : α → β → Prop) : Except StoreError α → Except StoreError β → Prop
  | ok {a : α} {b : β} : R a b → Outcome R (.ok a) (.ok b)
  | error {e e' : StoreError} : e.kind = e'.kind → Outcome R (.error e) (.error e')

namespace Outcome

variable {α β γ δ : Type} {R : α → β → Prop} {S : γ → δ → Prop} {x : Except StoreError α} {y : Except StoreError β}

theorem map {f : α → γ} {g : β → δ} (h : Outcome R x y) (hfg : ∀ a b, R a b → S (f a) (g b)) :
    Outcome S (x.map f) (y.map g) := by
  cases h with
  | ok hab => exact .ok (hfg _ _ hab)
  | error he => exact .error he

theorem bind {f : α → Except StoreError γ} {g : β → Except StoreError δ} (h : Outcome R x y)
    (hfg : ∀ a b, R a b → Outcome S (f a) (g b)) : Outcome S (x >>= f) (y >>= g) := by
  cases h with
  | ok hab => exact hfg _ _ hab
  | error he => exact .error he

end Outcome

end DocStore
