import DocStore.Text.Segments
import Mathlib.Data.List.Basic

/-!
# Cutting and joining

Joining the segments of a text gives the text back (`intercalate_segments`). Cutting gives back what was joined if the
separator has a character that no piece has (`segments_intercalate`): the first such character of the separator is the first
one in the text after the first piece, so the separator cannot occur earlier. A text with the separator in it has more than
one segment (`two_le_length_segments`).
-/

namespace DocStore.Text

variable {sep : List Char} {p : Char → Bool}

/-! ## Joining segments -/

theorem segmentsFrom_ne_nil (sep : List Char) (skip : Nat) (cs : List Char) : segmentsFrom sep skip cs ≠ [] := by
  fun_induction segmentsFrom sep skip cs with
  | case1 => exact List.cons_ne_nil _ _
  | case2 _ _ _ ih => exact ih
  | case3 => exact List.cons_ne_nil _ _
  | case4 c cs _ ih =>
    unfold extendFirst
    split
    · exact List.cons_ne_nil _ _
    · exact List.cons_ne_nil _ _

theorem intercalate_extendFirst (c : Char) {ss : List (List Char)} (h : ss ≠ []) :
    sep.intercalate (extendFirst c ss) = c :: sep.intercalate ss := by
  obtain ⟨s, ss, rfl⟩ := List.exists_cons_of_ne_nil h
  cases ss with
  | nil => simp [extendFirst]
  | cons t ss => simp [extendFirst]

theorem intercalate_segmentsFrom (hsep : sep ≠ []) (skip : Nat) (cs : List Char) :
    sep.intercalate (segmentsFrom sep skip cs) = cs.drop skip := by
  fun_induction segmentsFrom sep skip cs with
  | case1 => simp
  | case2 skip c cs ih => exact ih
  | case3 c cs hc ih =>
    obtain ⟨rest, hrest⟩ := List.isPrefixOf_iff_prefix.mp hc
    have hdrop : cs.drop (sep.length - 1) = rest := by
      obtain ⟨x, sep, rfl⟩ := List.exists_cons_of_ne_nil hsep
      have hcs : cs = sep ++ rest := (List.cons.inj hrest).2.symm
      rw [hcs, List.length_cons, Nat.add_sub_cancel, List.drop_left]
    rw [List.intercalate_cons_of_ne_nil (segmentsFrom_ne_nil _ _ _), ih, hdrop]
    exact hrest
  | case4 c cs hc ih =>
    rw [intercalate_extendFirst c (segmentsFrom_ne_nil _ _ _), ih]
    rfl

/-- Joining the segments of a text gives the text back. -/
theorem intercalate_segments (hsep : sep ≠ []) (cs : List Char) : sep.intercalate (segments sep cs) = cs :=
  intercalate_segmentsFrom hsep 0 cs

/-! ## Cutting what was joined -/

theorem segmentsFrom_length_append (sep u rest : List Char) :
    segmentsFrom sep u.length (u ++ rest) = segments sep rest := by
  induction u with
  | nil => rfl
  | cons c u ih => exact ih

/-- At the separator the first segment ends. -/
theorem segments_append (hsep : sep ≠ []) (rest : List Char) : segments sep (sep ++ rest) = [] :: segments sep rest := by
  obtain ⟨x, tail, rfl⟩ := List.exists_cons_of_ne_nil hsep
  have hp : (x :: tail).isPrefixOf (x :: (tail ++ rest)) = true :=
    List.isPrefixOf_iff_prefix.mpr (List.prefix_append (x :: tail) rest)
  rw [List.cons_append, segments, segmentsFrom, if_pos hp, List.length_cons, Nat.add_sub_cancel,
    segmentsFrom_length_append]

theorem segments_cons {c : Char} {cs : List Char} (h : sep.isPrefixOf (c :: cs) = false) :
    segments sep (c :: cs) = extendFirst c (segments sep cs) := by
  rw [segments, segmentsFrom, h]
  rfl

/-- What follows a character that ends the front part does not count. -/
theorem takeWhile_append_of_exists {s : List Char} (h : ∃ x ∈ s, p x = false) (rest : List Char) :
    (s ++ rest).takeWhile p = s.takeWhile p := by
  induction s with
  | nil => simp at h
  | cons c s ih =>
    rw [List.cons_append, List.takeWhile_cons, List.takeWhile_cons]
    split
    · next hc =>
      obtain ⟨x, hx, hpx⟩ := h
      have hxs : x ∈ s := List.mem_of_ne_of_mem (fun he => by rw [he, hc] at hpx; cases hpx) hx
      rw [ih ⟨x, hxs, hpx⟩]
    · rfl

/-- The separator starts no earlier than the first character that only it has. -/
theorem not_isPrefixOf_append (hsep : ∃ x ∈ sep, p x = false) {w : List Char} (hne : w ≠ []) (hw : ∀ c ∈ w, p c = true)
    (rest : List Char) : sep.isPrefixOf (w ++ (sep ++ rest)) = false := by
  rw [Bool.eq_false_iff, Ne, List.isPrefixOf_iff_prefix]
  rintro ⟨tail, htail⟩
  have hfront := congrArg (List.takeWhile p) htail
  rw [List.takeWhile_append_of_pos hw, takeWhile_append_of_exists hsep, takeWhile_append_of_exists hsep] at hfront
  exact hne (List.self_eq_append_left.mp hfront)

theorem segments_of_forall (hsep : ∃ x ∈ sep, p x = false) {w : List Char} (hw : ∀ c ∈ w, p c = true) :
    segments sep w = [w] := by
  induction w with
  | nil => rfl
  | cons c w ih =>
    obtain ⟨x, hx, hpx⟩ := hsep
    have hno : sep.isPrefixOf (c :: w) = false := by
      rw [Bool.eq_false_iff, Ne, List.isPrefixOf_iff_prefix]
      intro hfront
      rw [hw x (hfront.subset hx)] at hpx
      cases hpx
    rw [segments_cons hno, ih fun d hd => hw d (List.mem_cons_of_mem c hd)]
    rfl

theorem segments_append_append (hsep : ∃ x ∈ sep, p x = false) {w : List Char} (hw : ∀ c ∈ w, p c = true)
    (rest : List Char) : segments sep (w ++ (sep ++ rest)) = w :: segments sep rest := by
  induction w with
  | nil =>
    obtain ⟨x, hx, -⟩ := hsep
    exact segments_append (List.ne_nil_of_mem hx) rest
  | cons c w ih =>
    have hno := not_isPrefixOf_append hsep (List.cons_ne_nil c w) hw rest
    rw [List.cons_append] at hno ⊢
    rw [segments_cons hno, ih fun d hd => hw d (List.mem_cons_of_mem c hd)]
    rfl

/-- **Cutting undoes joining** when the separator has a character of a kind that no piece has. -/
theorem segments_intercalate (hsep : ∃ x ∈ sep, p x = false) {ss : List (List Char)} (hne : ss ≠ [])
    (h : ∀ s ∈ ss, ∀ c ∈ s, p c = true) : segments sep (sep.intercalate ss) = ss := by
  induction ss with
  | nil => exact absurd rfl hne
  | cons s ss ih =>
    obtain ⟨hs, h⟩ := List.forall_mem_cons.mp h
    cases ss with
    | nil =>
      rw [List.intercalate_singleton]
      exact segments_of_forall hsep hs
    | cons t ss =>
      rw [List.intercalate_cons_cons, List.append_assoc, segments_append_append hsep hs, ih (List.cons_ne_nil t ss) h]

/-! ## Texts with the separator -/

theorem length_extendFirst (c : Char) {ss : List (List Char)} (h : ss ≠ []) : (extendFirst c ss).length = ss.length := by
  obtain ⟨s, ss, rfl⟩ := List.exists_cons_of_ne_nil h
  rfl

theorem two_le_length_segments (hsep : sep ≠ []) (w rest : List Char) : 2 ≤ (segments sep (w ++ (sep ++ rest))).length := by
  have hpos (skip : Nat) (cs : List Char) : 0 < (segmentsFrom sep skip cs).length :=
    List.length_pos_iff.mpr (segmentsFrom_ne_nil _ _ _)
  induction w with
  | nil =>
    rw [List.nil_append, segments_append hsep, List.length_cons]
    exact Nat.succ_le_succ (hpos 0 rest)
  | cons c w ih =>
    rw [List.cons_append, segments, segmentsFrom]
    split
    · exact Nat.succ_le_succ (hpos ..)
    · rw [length_extendFirst c (segmentsFrom_ne_nil _ _ _)]
      exact ih

end DocStore.Text
