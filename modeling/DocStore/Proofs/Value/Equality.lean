import DocStore.Document.Path
import DocStore.Proofs.Index.Tuple
import DocStore.Proofs.Related

/-!
# Equal values

Equal values may be stored as different numbers, and nothing else: `Alike` says for each kind what equal values look
like (`same_iff_alike`). So the same path leads to equal values in equal values (`rel_walk`), and whether a value counts
as true is the same for equal ones (`isTruthy_eq_of_same`).
-/

namespace DocStore

/-- Two things are equal in their own sense of equality. -/
abbrev Same {α : Type} [BEq α] (a b : α) : Prop := (a == b) = true

/-- Equal sides may be exchanged in a comparison. -/
theorem compare_congr {α : Type} [Ord α] [Std.TransOrd α] {a b c d : α} (hab : compare a b = .eq)
    (hcd : compare c d = .eq) : compare a c = compare b d :=
  (Std.TransCmp.congr_left hab).trans (Std.TransCmp.congr_right hcd)

theorem beq_congr {α : Type} [BEq α] [EquivBEq α] {a b c d : α} (hab : Same a b) (hcd : Same c d) :
    (a == c) = (b == d) :=
  (BEq.congr_left hab).trans (BEq.congr_right hcd)

/-! ## Numbers -/

open ExtendedNumber in
/-- Points that are not told apart are one point. -/
instance : Std.LawfulEqOrd ExtendedNumber where
  eq_of_compare {a b} h := by
    have hboth : (compare a.rank b.rank).then (compare a.position b.position) = .eq := h
    rw [Ordering.then_eq_eq, Nat.compare_eq_eq, Int.compare_eq_eq] at hboth
    obtain ⟨hrank, hposition⟩ := hboth
    cases a <;> cases b <;> first | rfl | exact congrArg finite hposition | cases hrank

theorem Number.point_eq_of_compare {x y : Number} (h : compare x y = .eq) : x.point = y.point := by
  rw [Number.order_eq_compare_point] at h
  exact Std.LawfulEqOrd.eq_of_compare h

/-! ## Values -/

namespace Value

variable {v w v' w' : Value}

/-- Values of one kind that are equal: numbers denote one point, lists have equal items and documents have equal values
under the same names. -/
inductive Alike : Value → Value → Prop
  | null : Alike null null
  | bool (b : Bool) : Alike (bool b) (bool b)
  | number {x y : Number} : compare x y = .eq → Alike (number x) (number y)
  | string (s : String) : Alike (string s) (string s)
  | array {xs ys : List Value} : List.Forall₂ Same xs ys → Alike (array xs) (array ys)
  | document {es fs : List (String × Value)} : List.Forall₂ (Named Same) es fs → Alike (document es) (document fs)

theorem same_document_iff {es fs : List (String × Value)} :
    Same (document es) (document fs) ↔ List.Forall₂ (Named Same) es fs := by
  rw [Same, ← Std.LawfulBEqOrd.compare_eq_iff_beq, compare_document, compareLex_eq_iff_forall₂]
  have hentry (e f : String × Value) : orderEntry e f = .eq ↔ Named Same e f := by
    show (compare e.1 f.1).then (compare e.2 f.2) = .eq ↔ _
    rw [Ordering.then_eq_eq, Std.LawfulEqOrd.compare_eq_iff_eq, Std.LawfulBEqOrd.compare_eq_iff_beq]
  simp only [hentry]

theorem same_array_iff {xs ys : List Value} : Same (array xs) (array ys) ↔ List.Forall₂ Same xs ys := by
  rw [Same, ← Std.LawfulBEqOrd.compare_eq_iff_beq, compare_array, compareLex_eq_iff_forall₂]
  simp only [Std.LawfulBEqOrd.compare_eq_iff_beq]

/-- Equal values are of one kind, and equal inside it. -/
theorem same_iff_alike : Same v w ↔ Alike v w := by
  constructor
  · intro h
    have hc : compare v w = .eq := Std.LawfulBEqOrd.compare_eq_iff_beq.mpr h
    cases v with
    | null =>
      cases w with
      | null => exact .null
      | _ => cases hc
    | bool a =>
      cases w with
      | bool b =>
        have hab : a = b := Std.LawfulEqOrd.eq_of_compare hc
        exact hab ▸ .bool a
      | _ => cases hc
    | number x =>
      cases w with
      | number y => exact .number hc
      | _ => cases hc
    | string s =>
      cases w with
      | string t =>
        have hst : s = t := Std.LawfulEqOrd.eq_of_compare hc
        exact hst ▸ .string s
      | _ => cases hc
    | array xs =>
      cases w with
      | array ys => exact .array (same_array_iff.mp h)
      | _ => cases hc
    | document es =>
      cases w with
      | document fs => exact .document (same_document_iff.mp h)
      | _ => cases hc
  · intro h
    cases h with
    | null => exact BEq.rfl
    | bool b => exact BEq.rfl
    | number h => exact Std.LawfulBEqOrd.compare_eq_iff_beq.mp h
    | string s => exact BEq.rfl
    | array h => exact same_array_iff.mpr h
    | document h => exact same_document_iff.mpr h

theorem isTruthy_eq_of_same (h : Same v w) : v.isTruthy = w.isTruthy := by
  cases same_iff_alike.mp h with
  | number hxy =>
    show Number.isTruthy _ = Number.isTruthy _
    unfold Number.isTruthy
    rw [Number.point_eq_of_compare hxy]
  | _ => rfl

theorem isNull_eq_of_same (h : Same v w) : v.isNull = w.isNull := by
  cases same_iff_alike.mp h <;> rfl

/-- Values that may be absent are not told apart when both are absent or both are there and equal. -/
theorem compare_option_eq_iff {a b : Option Value} : compare a b = .eq ↔ Option.Rel Same a b := by
  cases a with
  | none =>
    cases b with
    | none => exact iff_of_true rfl .none
    | some w => exact iff_of_false nofun nofun
  | some v =>
    cases b with
    | none => exact iff_of_false nofun nofun
    | some w =>
      constructor
      · intro h
        exact .some (Std.LawfulBEqOrd.compare_eq_iff_beq.mp h)
      · intro h
        cases h with
        | some hvw => exact Std.LawfulBEqOrd.compare_eq_iff_beq.mpr hvw

theorem same_ofOption {a b : Option Value} (h : Option.Rel Same a b) : Same (ofOption a) (ofOption b) := by
  cases h with
  | none => exact BEq.rfl
  | some hvw => exact hvw

/-- The same path leads to equal values in equal values. -/
theorem rel_walk (h : Same v w) (names : List String) : Option.Rel Same (v.walk names) (w.walk names) := by
  induction names generalizing v w with
  | nil =>
    unfold Value.walk
    exact .some h
  | cons name names ih =>
    cases same_iff_alike.mp h with
    | document hes =>
      have hlookup := rel_lookup hes name
      unfold Value.walk
      generalize List.lookup name _ = a at hlookup ⊢
      generalize List.lookup name _ = b at hlookup ⊢
      cases hlookup with
      | none => exact .none
      | some hvw => exact ih hvw
    | _ => exact .none

end Value
end DocStore
