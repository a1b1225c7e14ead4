import DocStore.Like.Pattern
import DocStore.Proofs.Text.Folding
import Mathlib.Data.List.Forall2

/-!
# What a pattern matches

A text matches a pattern when it can be cut into parts, one for each character of the pattern in their order, such that
every character stands for its part (`Like.StandsFor`, `Like.Cut`). The truth values that a match keeps say of every tail
of the text whether the rest of the pattern matches it (`Like.Decides`), and a piece put in front keeps them right
(`Like.decides_before`, `Like.decides_tails`). All of this is about the patterns that the engine takes; it refuses the
others (`LikePattern.ofString_of_refusal`). Main statement: `LikePattern.accepts_exact`.
-/

namespace DocStore

namespace Like

/-! ## Cutting a list -/

section Cut

variable {α β γ : Type} {R : α → List β → Prop} {a : α} {as : List α} {bs : List β}

/-- A list is cut into consecutive parts that are related to the items of another list, one to each in their order. -/
def Cut (R : α → List β → Prop) (as : List α) (bs : List β) : Prop :=
  ∃ parts : List (List β), parts.flatten = bs ∧ List.Forall₂ R as parts

theorem cut_nil_iff : Cut R [] bs ↔ bs = [] := by
  simp [Cut, List.forall₂_nil_left_iff, eq_comm]

theorem cut_cons_iff : Cut R (a :: as) bs ↔ ∃ part rest, bs = part ++ rest ∧ R a part ∧ Cut R as rest := by
  simp only [Cut, List.forall₂_cons_left_iff]
  constructor
  · rintro ⟨_, rfl, part, parts, ha, has, rfl⟩
    exact ⟨part, parts.flatten, rfl, ha, parts, rfl, has⟩
  · rintro ⟨part, _, rfl, ha, parts, rfl, has⟩
    exact ⟨part :: parts, rfl, part, parts, ha, has, rfl⟩

theorem cut_congr {S : α → List β → Prop} (h : ∀ a part, R a part ↔ S a part) : Cut R as bs ↔ Cut S as bs := by
  have hRS : R = S := funext fun a => funext fun part => propext (h a part)
  rw [hRS]

theorem cut_map_left {f : γ → α} {cs : List γ} : Cut R (cs.map f) bs ↔ Cut (fun c => R (f c)) cs bs := by
  simp only [Cut, List.forall₂_map_left_iff]

/-- The parts of a list with every item replaced are the parts of the list with every item replaced. -/
theorem cut_map_right {f : γ → β} {cs : List γ} :
    Cut R as (cs.map f) ↔ Cut (fun a part => R a (part.map f)) as cs := by
  induction as generalizing cs with
  | nil => rw [cut_nil_iff, cut_nil_iff, List.map_eq_nil_iff]
  | cons a as ih =>
    rw [cut_cons_iff, cut_cons_iff]
    constructor
    · rintro ⟨_, _, hcs, ha, has⟩
      obtain ⟨part, rest, rfl, rfl, rfl⟩ := List.map_eq_append_iff.mp hcs
      exact ⟨part, rest, rfl, ha, ih.mp has⟩
    · rintro ⟨part, rest, rfl, ha, has⟩
      exact ⟨part.map f, rest.map f, List.map_append, ha, ih.mpr has⟩

end Cut

/-! ## Characters and pieces -/

/-- A character of a pattern stands for a part of a text: `%` for any part, `_` for any one character, and every other
one for a character with the same folding. -/
inductive StandsFor : Char → List Char → Prop
  | run (part : List Char) : StandsFor '%' part
  | one (x : Char) : StandsFor '_' [x]
  | letter {c x : Char} : c ≠ '%' → c ≠ '_' → Text.foldCase x = Text.foldCase c → StandsFor c [x]

/-- The parts of a folded text that a piece stands for. -/
inductive Piece.Spans : Piece → List Char → Prop
  | run (part : List Char) : Spans run part
  | one (x : Char) : Spans one [x]
  | letter (f : Char) : Spans (letter f) [f]

/-- The piece of a character stands for the folded parts that the character stands for. -/
theorem spans_ofChar_iff {c : Char} {part : List Char} :
    (Piece.ofChar c).Spans (part.map Text.foldCase) ↔ StandsFor c part := by
  unfold Piece.ofChar
  split
  · next hc =>
    subst hc
    exact iff_of_true (.run _) (.run _)
  split
  · next hc =>
    subst hc
    constructor
    · intro h
      cases part with
      | nil => cases h
      | cons x rest =>
        cases rest with
        | nil => exact .one x
        | cons y rest => cases h
    · rintro (_ | _ | ⟨-, hne, -⟩)
      · exact .one _
      · exact absurd rfl hne
  · next hrun hone =>
    constructor
    · intro h
      generalize hfolded : part.map Text.foldCase = folded at h
      cases h
      obtain ⟨x, rfl, hx⟩ := List.map_eq_singleton_iff.mp hfolded
      exact .letter hrun hone hx
    · rintro (_ | _ | ⟨-, -, hx⟩)
      · exact absurd rfl hrun
      · exact absurd rfl hone
      · rw [List.map_singleton, hx]
        exact .letter _

/-- Among the characters of ASCII only letters stand for any other character. -/
theorem standsFor_iff_of_ascii {c : Char} {part : List Char} (hascii : c.toNat < 128) (hletter : c.isAlpha = false)
    (hrun : c ≠ '%') (hone : c ≠ '_') : StandsFor c part ↔ part = [c] := by
  constructor
  · rintro (_ | _ | ⟨-, -, hx⟩)
    · exact absurd rfl hrun
    · exact absurd rfl hone
    · rw [(Text.foldCase_eq_iff_of_ascii hascii hletter).mp hx]
  · rintro rfl
    exact .letter hrun hone rfl

/-! ## Tails of a text -/

variable {M N : List Char → Prop} {cs : List Char} {bs : List Bool}

/-- Truth values say of every tail of a list, the longest first, whether it has a property. -/
inductive Decides (M : List Char → Prop) : List Char → List Bool → Prop
  | nil {b : Bool} : (b = true ↔ M []) → Decides M [] [b]
  | cons {c : Char} {cs : List Char} {b : Bool} {bs : List Bool} : (b = true ↔ M (c :: cs)) → Decides M cs bs →
      Decides M (c :: cs) (b :: bs)

/-- The first truth value is about the whole list. -/
theorem Decides.exists_cons (h : Decides M cs bs) : ∃ b rest, bs = b :: rest ∧ (b = true ↔ M cs) := by
  cases h with
  | nil hb => exact ⟨_, [], rfl, hb⟩
  | cons hb _ => exact ⟨_, _, rfl, hb⟩

theorem Decides.congr (h : Decides M cs bs) (hMN : ∀ t, M t ↔ N t) : Decides N cs bs := by
  induction h with
  | nil hb => exact .nil (hb.trans (hMN _))
  | cons hb _ ih => exact .cons (hb.trans (hMN _)) ih

/-- There is one truth value more than there are characters. -/
theorem Decides.length_tail (h : Decides M cs bs) : bs.tail.length = cs.length := by
  induction h with
  | nil _ => rfl
  | cons _ h ih =>
    obtain ⟨b, rest, rfl, -⟩ := h.exists_cons
    rw [List.tail_cons, List.length_cons, List.length_cons, ← ih, List.tail_cons]

/-- Some tail of a list has the property. -/
theorem Decides.anyTails (h : Decides M cs bs) :
    Decides (fun t => ∃ part rest, t = part ++ rest ∧ M rest) cs (anyTails bs) := by
  induction h with
  | nil hb => exact .nil (hb.trans (by simp))
  | @cons c cs b bs hb _ ih =>
    obtain ⟨v, vs, hvs, hv⟩ := ih.exists_cons
    rw [hvs] at ih
    rw [Like.anyTails, hvs]
    refine .cons ?_ ih
    rw [Bool.or_eq_true, hb, hv]
    constructor
    · rintro (hM | ⟨part, t, rfl, hM⟩)
      · exact ⟨[], c :: cs, rfl, hM⟩
      · exact ⟨c :: part, t, rfl, hM⟩
    · rintro ⟨part, t, ht, hM⟩
      rcases List.cons_eq_append_iff.mp ht with ⟨-, rfl⟩ | ⟨part, rfl, rfl⟩
      · exact .inl hM
      · exact .inr ⟨part, t, rfl, hM⟩

/-- The first character of a list passes a test and the tail after it has the property. -/
theorem Decides.next (h : Decides M cs bs) (p : Char → Bool) :
    Decides (fun t => ∃ x rest, t = x :: rest ∧ p x = true ∧ M rest) cs
      (cs.zipWith (fun x b => p x && b) bs.tail ++ [false]) := by
  induction h with
  | nil _ => exact .nil (by simp)
  | @cons c cs b bs _ h ih =>
    obtain ⟨v, vs, rfl, hv⟩ := h.exists_cons
    refine .cons ?_ ih
    rw [Bool.and_eq_true, hv]
    simp

/-! ## Matching -/

/-- What a piece adds in front keeps the truth values right. -/
theorem decides_before (p : Piece) (h : Decides M cs bs) :
    Decides (fun t => ∃ part rest, t = part ++ rest ∧ p.Spans part ∧ M rest) cs (p.before cs bs) := by
  cases p with
  | run => exact h.anyTails.congr fun t => by simp [Piece.Spans.run]
  | one =>
    have hall : cs.zipWith (fun _ b => true && b) bs.tail = bs.tail := by
      rw [← List.map_uncurry_zip_eq_zipWith]
      exact List.map_snd_zip (Nat.le_of_eq h.length_tail)
    have hnext := h.next fun _ => true
    rw [hall] at hnext
    refine hnext.congr fun t => ?_
    constructor
    · rintro ⟨x, rest, rfl, -, hM⟩
      exact ⟨[x], rest, rfl, .one x, hM⟩
    · rintro ⟨part, rest, rfl, hspans, hM⟩
      cases hspans with
      | one x => exact ⟨x, rest, rfl, rfl, hM⟩
  | letter f =>
    refine (h.next (· == f)).congr fun t => ?_
    constructor
    · rintro ⟨x, rest, rfl, hx, hM⟩
      exact ⟨[x], rest, rfl, beq_iff_eq.mp hx ▸ .letter x, hM⟩
    · rintro ⟨part, rest, rfl, hspans, hM⟩
      cases hspans with
      | letter => exact ⟨f, rest, rfl, beq_self_eq_true f, hM⟩

/-- The truth values of a match say which tails of the text can be cut into what the pieces stand for. -/
theorem decides_tails (cs : List Char) (ps : List Piece) : Decides (Cut Piece.Spans ps) cs (tails cs ps) := by
  induction ps with
  | nil =>
    induction cs with
    | nil => exact .nil (by simp [cut_nil_iff])
    | cons c cs ih => exact .cons (by simp [cut_nil_iff]) ih
  | cons p ps ih => exact (decides_before p ih).congr fun t => cut_cons_iff.symm

end Like

namespace LikePattern

open Like

theorem ofString_of_refusal_eq_none [Like.Engine] {pattern : String} (h : Like.Engine.refusal pattern = none) :
    ofString pattern = .ok ⟨pattern, pattern.toList.map Piece.ofChar⟩ := by
  rw [ofString, h]

theorem ofString_of_refusal [Like.Engine] {pattern : String} {e : PatternError}
    (h : Like.Engine.refusal pattern = some e) : ofString pattern = .error (.badPattern e) := by
  rw [ofString, h]

/-- **A text matches a pattern when it can be cut into what the characters of the pattern stand for.** Every text that is
not refused is a pattern. The parts follow the characters of the pattern in their order: `%` has any part, `_` any one
character, every other character one with the same folding. So characters of ASCII that are no letters, whatever they mean
in other notations of patterns, have themselves alone. -/
theorem accepts_exact [Like.Engine] (pattern text : String) :
    (Like.Engine.refusal pattern = none → ∃ p, ofString pattern = .ok p ∧ (p.accepts text = true ↔
      ∃ parts : List (List Char), parts.flatten = text.toList ∧ List.Forall₂ StandsFor pattern.toList parts)) ∧
    ∀ c part, c.toNat < 128 → c.isAlpha = false → c ≠ '%' → c ≠ '_' → (StandsFor c part ↔ part = [c]) := by
  refine ⟨fun htaken => ⟨_, ofString_of_refusal_eq_none htaken, ?_⟩, fun c part => standsFor_iff_of_ascii⟩
  show _ ↔ Cut StandsFor pattern.toList text.toList
  have htails := decides_tails (text.toList.map Text.foldCase) (pattern.toList.map Piece.ofChar)
  obtain ⟨b, bs, hbs, hb⟩ := htails.exists_cons
  have haccepts : (tails (text.toList.map Text.foldCase) (pattern.toList.map Piece.ofChar)).headD false = b :=
    congrArg (·.headD false) hbs
  rw [accepts, haccepts, hb, cut_map_left, cut_map_right]
  exact cut_congr fun _ _ => spans_ofChar_iff

open Like.Sized

/-- The first `aa` leads nowhere, the second does; a point is no other character. -/
theorem accepts_exact_overlap :
    (∃ parts : List (List Char), parts.flatten = "aaAB\n".toList ∧ List.Forall₂ StandsFor "%aab%_".toList parts) ∧
    (¬ ∃ parts : List (List Char), parts.flatten = "105".toList ∧ List.Forall₂ StandsFor "1.5".toList parts) ∧
    ∀ part, StandsFor '.' part ↔ part = ['.'] := by
  refine ⟨?_, fun h => ?_, fun part => ?_⟩
  · obtain ⟨p, hp, hiff⟩ := (accepts_exact "%aab%_" "aaAB\n").1 (by decide +kernel)
    cases hp
    exact hiff.mp (by decide +kernel)
  · obtain ⟨p, hp, hiff⟩ := (accepts_exact "1.5" "105").1 (by decide +kernel)
    cases hp
    exact absurd (hiff.mpr h) (by decide +kernel)
  · exact (accepts_exact "" "").2 '.' part (by decide) rfl (by decide) (by decide)

end LikePattern
end DocStore
