import Mathlib.Data.List.Basic

/-!
# Patterns with preferences

A pattern that is tried at the front of a text can match there in several ways. `Pattern.ends` lists what each of them
leaves of the text, the preferred way first: an alternative comes before the later ones, and more rounds of a repetition
come before fewer. Which texts a pattern accepts is said without preferences (`Accepts`), and the ways of matching are
exactly the accepted beginnings of the text (`mem_ends_iff`). Often the preferred way takes most of the text
(`Prefers`): that holds of a sequence when less than the preferred match of its first part cannot be continued
(`Prefers.seq`).
-/

namespace DocStore.Text

/-- A pattern of texts. -/
inductive Pattern where
  | empty
  | one (p : Char → Bool)
  | seq (r s : Pattern)
  | alt (r s : Pattern)
  | many (r : Pattern)

namespace Pattern

/-- A given character. -/
def char (c : Char) : Pattern := one (· == c)

/-- A pattern or nothing. -/
def opt (r : Pattern) : Pattern := alt r empty

/-- One round of a pattern or more. -/
def atLeastOnce (r : Pattern) : Pattern := seq r (many r)

/-! ## Matching -/

/-- What rounds of reading leave of a text: more rounds come before fewer, and every round takes something. -/
def rounds (read : List Char → List (List Char)) (cs : List Char) : List (List Char) :=
  ((read cs).flatMap fun rest => if _h : rest.length < cs.length then rounds read rest else []) ++ [cs]
termination_by cs.length

/-- What the ways of matching a pattern at the front of a text leave of the text, the preferred way first. -/
def ends : Pattern → List Char → List (List Char)
  | empty, cs => [cs]
  | one _, [] => []
  | one p, c :: cs => if p c then [cs] else []
  | seq r s, cs => (r.ends cs).flatMap s.ends
  | alt r s, cs => r.ends cs ++ s.ends cs
  | many r, cs => rounds r.ends cs

/-- The texts of a pattern. -/
inductive Accepts : Pattern → List Char → Prop
  | empty : Accepts empty []
  | one {p : Char → Bool} {c : Char} : p c = true → Accepts (one p) [c]
  | seq {r s : Pattern} {u v : List Char} : Accepts r u → Accepts s v → Accepts (seq r s) (u ++ v)
  | left {r s : Pattern} {w : List Char} : Accepts r w → Accepts (alt r s) w
  | right {r s : Pattern} {w : List Char} : Accepts s w → Accepts (alt r s) w
  | done {r : Pattern} : Accepts (many r) []
  | round {r : Pattern} {u v : List Char} : Accepts r u → Accepts (many r) v → Accepts (many r) (u ++ v)

variable {r s : Pattern} {p : Char → Bool} {c : Char} {cs rest w x y z : List Char}

theorem accepts_empty_iff : empty.Accepts w ↔ w = [] := by
  constructor
  · intro h
    cases h with
    | empty => rfl
  · rintro rfl
    exact .empty

theorem accepts_one_iff : (one p).Accepts w ↔ ∃ c, p c = true ∧ w = [c] := by
  constructor
  · intro h
    cases h with
    | one hc => exact ⟨_, hc, rfl⟩
  · rintro ⟨c, hc, rfl⟩
    exact .one hc

theorem accepts_char_iff : (char c).Accepts w ↔ w = [c] := by
  rw [char, accepts_one_iff]
  simp

theorem accepts_seq_iff : (seq r s).Accepts w ↔ ∃ u v, r.Accepts u ∧ s.Accepts v ∧ w = u ++ v := by
  constructor
  · intro h
    cases h with
    | seq hu hv => exact ⟨_, _, hu, hv, rfl⟩
  · rintro ⟨u, v, hu, hv, rfl⟩
    exact .seq hu hv

theorem accepts_alt_iff : (alt r s).Accepts w ↔ r.Accepts w ∨ s.Accepts w := by
  constructor
  · intro h
    cases h with
    | left hw => exact .inl hw
    | right hw => exact .inr hw
  · rintro (hw | hw)
    · exact .left hw
    · exact .right hw

/-! ## The ways of matching are the accepted beginnings -/

theorem exists_accepts_of_mem_rounds {read : List Char → List (List Char)}
    (hread : ∀ cs rest, rest ∈ read cs → ∃ w, cs = w ++ rest ∧ r.Accepts w) (h : rest ∈ rounds read cs) :
    ∃ w, cs = w ++ rest ∧ (many r).Accepts w := by
  induction hn : cs.length using Nat.strongRecOn generalizing cs with
  | ind n ih =>
    rw [rounds, List.mem_append, List.mem_flatMap, List.mem_singleton] at h
    rcases h with ⟨mid, hmid, h⟩ | rfl
    · split at h
      · next hlt =>
        obtain ⟨u, rfl, hu⟩ := hread cs mid hmid
        obtain ⟨v, rfl, hv⟩ := ih _ (hn ▸ hlt) h rfl
        exact ⟨u ++ v, (List.append_assoc ..).symm, .round hu hv⟩
      · cases h
    · exact ⟨[], rfl, .done⟩

theorem exists_accepts_of_mem_ends (h : rest ∈ r.ends cs) : ∃ w, cs = w ++ rest ∧ r.Accepts w := by
  induction r generalizing cs rest with
  | empty =>
    obtain rfl := List.mem_singleton.mp h
    exact ⟨[], rfl, .empty⟩
  | one p =>
    cases cs with
    | nil => cases h
    | cons c cs =>
      rw [ends] at h
      split at h
      · next hc =>
        obtain rfl := List.mem_singleton.mp h
        exact ⟨[c], rfl, .one hc⟩
      · cases h
  | seq r s ihr ihs =>
    obtain ⟨mid, hmid, hrest⟩ := List.mem_flatMap.mp h
    obtain ⟨u, rfl, hu⟩ := ihr hmid
    obtain ⟨v, rfl, hv⟩ := ihs hrest
    exact ⟨u ++ v, (List.append_assoc ..).symm, .seq hu hv⟩
  | alt r s ihr ihs =>
    rcases List.mem_append.mp h with h | h
    · obtain ⟨w, hw, haccepts⟩ := ihr h
      exact ⟨w, hw, .left haccepts⟩
    · obtain ⟨w, hw, haccepts⟩ := ihs h
      exact ⟨w, hw, .right haccepts⟩
  | many r ih => exact exists_accepts_of_mem_rounds (fun _ _ => ih) h

theorem mem_ends_of_accepts (h : r.Accepts w) (rest : List Char) : rest ∈ r.ends (w ++ rest) := by
  induction h generalizing rest with
  | empty => exact List.mem_singleton_self rest
  | one hc =>
    rw [List.singleton_append, ends, if_pos hc]
    exact List.mem_singleton_self rest
  | seq _ _ ihr ihs =>
    rw [List.append_assoc]
    exact List.mem_flatMap.mpr ⟨_, ihr _, ihs rest⟩
  | left _ ih => exact List.mem_append_left _ (ih rest)
  | right _ ih => exact List.mem_append_right _ (ih rest)
  | done =>
    rw [ends, rounds]
    exact List.mem_append_right _ (List.mem_singleton_self _)
  | @round r u v _ _ ihr ihs =>
    cases u with
    | nil => exact ihs rest
    | cons c u =>
      have hlt : (v ++ rest).length < (c :: u ++ v ++ rest).length := by
        simp only [List.length_append, List.length_cons]
        omega
      rw [ends, rounds]
      refine List.mem_append_left _ (List.mem_flatMap.mpr ⟨v ++ rest, List.append_assoc .. ▸ ihr _, ?_⟩)
      rw [dif_pos hlt]
      exact ihs rest

/-- **A pattern matches in the ways in which the text begins with a text of it.** -/
theorem mem_ends_iff : rest ∈ r.ends cs ↔ ∃ w, cs = w ++ rest ∧ r.Accepts w := by
  constructor
  · exact exists_accepts_of_mem_ends
  · rintro ⟨w, rfl, h⟩
    exact mem_ends_of_accepts h rest

theorem length_le_of_mem_ends (h : rest ∈ r.ends cs) : rest.length ≤ cs.length := by
  obtain ⟨w, rfl, -⟩ := exists_accepts_of_mem_ends h
  rw [List.length_append]
  exact Nat.le_add_left ..

theorem ends_eq_nil_iff : r.ends cs = [] ↔ ∀ w rest, cs = w ++ rest → ¬ r.Accepts w := by
  rw [List.eq_nil_iff_forall_not_mem]
  constructor
  · intro h w rest hw haccepts
    exact h rest (mem_ends_iff.mpr ⟨w, hw, haccepts⟩)
  · intro h rest hrest
    obtain ⟨w, hw, haccepts⟩ := mem_ends_iff.mp hrest
    exact h w rest hw haccepts

/-! ## The preferred way takes most -/

/-- The preferred way of matching leaves this rest, and no other way leaves less. -/
structure Prefers (r : Pattern) (cs rest : List Char) : Prop where
  head? : (r.ends cs).head? = some rest
  length_le : ∀ y ∈ r.ends cs, rest.length ≤ y.length

theorem Prefers.mem (h : Prefers r cs x) : x ∈ r.ends cs := List.mem_of_mem_head? h.head?

/-- What is preferred depends on the ways of matching only. -/
theorem Prefers.of_ends_eq {ds : List Char} (h : Prefers s ds x) (hends : r.ends cs = s.ends ds) : Prefers r cs x :=
  ⟨hends ▸ h.head?, hends ▸ h.length_le⟩

/-- A pattern with one way of matching prefers it. -/
theorem prefers_of_ends_eq (h : r.ends cs = [x]) : Prefers r cs x where
  head? := by rw [h, List.head?_cons]
  length_le y hy := by
    rw [h, List.mem_singleton] at hy
    exact Nat.le_of_eq (congrArg List.length hy.symm)

/-- Where less than the preferred match of the first part cannot be continued, a sequence prefers what its second part
prefers after that match. -/
theorem Prefers.seq (hr : Prefers r cs x) (hs : Prefers s x z) (hother : ∀ y ∈ r.ends cs, y ≠ x → ∀ z ∈ s.ends y, z = y) :
    Prefers (seq r s) cs z where
  head? := by
    obtain ⟨xs, hxs⟩ := List.head?_eq_some_iff.mp hr.head?
    rw [ends, hxs, List.flatMap_cons, List.head?_append, hs.head?, Option.some_or]
  length_le w hw := by
    obtain ⟨y, hy, hw⟩ := List.mem_flatMap.mp hw
    by_cases hyx : y = x
    · exact hs.length_le w (hyx ▸ hw)
    · rw [hother y hy hyx w hw]
      exact Nat.le_trans (length_le_of_mem_ends hs.mem) (hr.length_le y hy)

theorem Prefers.opt (h : Prefers r cs x) : Prefers (opt r) cs x where
  head? := by rw [Pattern.opt, ends, List.head?_append, h.head?, Option.some_or]
  length_le y hy := by
    rcases List.mem_append.mp hy with hy | hy
    · exact h.length_le y hy
    · rw [List.mem_singleton.mp hy]
      exact length_le_of_mem_ends h.mem

theorem ends_opt_of_nil (h : r.ends cs = []) : (opt r).ends cs = [cs] := by
  rw [opt, ends, h]
  rfl

/-- What a pattern leaves of a text in the preferred way; nothing if it does not match. -/
def Leaves (r : Pattern) (cs : List Char) : Option (List Char) → Prop
  | none => r.ends cs = []
  | some rest => r.Prefers cs rest

theorem Leaves.of_ends_eq {ds : List Char} {rest? : Option (List Char)} (h : s.Leaves ds rest?)
    (hends : r.ends cs = s.ends ds) : r.Leaves cs rest? := by
  cases rest? with
  | none => exact hends.trans h
  | some rest => exact Prefers.of_ends_eq h hends

/-- A pattern that may be left out leaves the text as it is where it does not match. -/
theorem Leaves.opt {rest? : Option (List Char)} (h : r.Leaves cs rest?) : (opt r).Prefers cs (rest?.getD cs) := by
  cases rest? with
  | none => exact prefers_of_ends_eq (ends_opt_of_nil h)
  | some rest => exact Prefers.opt h

/-! ## Single characters and runs -/

theorem ends_one_cons : (one p).ends (c :: cs) = if p c then [cs] else [] := rfl

theorem ends_seq_one_nil : (seq (one p) s).ends [] = [] := rfl

theorem ends_seq_one_cons : (seq (one p) s).ends (c :: cs) = if p c then s.ends cs else [] := by
  rw [ends, ends_one_cons]
  split
  · exact List.flatMap_singleton ..
  · rfl

/-- A character that may be left out, before something that cannot start with it. -/
theorem ends_seq_opt_one_cons (h : p c = true → s.ends (c :: cs) = []) :
    (seq (opt (one p)) s).ends (c :: cs) = if p c then s.ends cs else s.ends (c :: cs) := by
  rw [ends, opt, ends, ends_one_cons, ends]
  split
  · next hc => rw [List.flatMap_append, List.flatMap_singleton, List.flatMap_singleton, h hc, List.append_nil]
  · rw [List.nil_append, List.flatMap_singleton]

theorem ends_seq_opt_one_nil : (seq (opt (one p)) s).ends [] = s.ends [] := List.flatMap_singleton ..

/-- A repetition goes on after the only way of matching one round. -/
theorem ends_many_of_singleton (h : r.ends cs = [rest]) (hlt : rest.length < cs.length) :
    (many r).ends cs = (many r).ends rest ++ [cs] := by
  rw [ends, rounds, h, List.flatMap_singleton, dif_pos hlt, ends]

/-- A repetition that cannot start takes nothing. -/
theorem ends_many_of_nil (h : r.ends cs = []) : (many r).ends cs = [cs] := by
  rw [ends, rounds, h]
  rfl

theorem ends_many_one_nil : (many (one p)).ends [] = [[]] := ends_many_of_nil rfl

theorem ends_many_one_cons :
    (many (one p)).ends (c :: cs) = if p c then (many (one p)).ends cs ++ [c :: cs] else [c :: cs] := by
  split
  · next hc => exact ends_many_of_singleton (ends_one_cons.trans (if_pos hc)) (Nat.lt_succ_self _)
  · next hc => exact ends_many_of_nil (ends_one_cons.trans (if_neg hc))

/-- A run of characters of a class ends where the class ends, or before a character of the class. -/
theorem eq_dropWhile_or_of_mem_ends (h : y ∈ (many (one p)).ends cs) :
    y = cs.dropWhile p ∨ ∃ c ds, y = c :: ds ∧ p c = true := by
  induction cs with
  | nil =>
    rw [ends_many_one_nil] at h
    exact .inl (List.mem_singleton.mp h)
  | cons c cs ih =>
    rw [ends_many_one_cons] at h
    split at h
    · next hc =>
      rw [List.dropWhile_cons_of_pos hc]
      rcases List.mem_append.mp h with h | h
      · exact ih h
      · exact .inr ⟨c, cs, List.mem_singleton.mp h, hc⟩
    · next hc =>
      rw [List.dropWhile_cons_of_neg hc]
      exact .inl (List.mem_singleton.mp h)

/-- The preferred run of characters of a class is the whole run. -/
theorem prefers_run (p : Char → Bool) (cs : List Char) : Prefers (many (one p)) cs (cs.dropWhile p) := by
  induction cs with
  | nil => exact prefers_of_ends_eq ends_many_one_nil
  | cons c cs ih =>
    by_cases hc : p c = true
    · rw [List.dropWhile_cons_of_pos hc]
      refine ⟨?_, fun y hy => ?_⟩
      · rw [ends_many_one_cons, if_pos hc, List.head?_append, ih.head?, Option.some_or]
      · rw [ends_many_one_cons, if_pos hc, List.mem_append, List.mem_singleton] at hy
        rcases hy with hy | rfl
        · exact ih.length_le y hy
        · exact Nat.le_trans (length_le_of_mem_ends ih.mem) (Nat.le_succ _)
    · rw [List.dropWhile_cons_of_neg hc]
      exact prefers_of_ends_eq (by rw [ends_many_one_cons, if_neg hc])

/-- After a character of one class a run of another one is taken to its end. -/
theorem leaves_seq_one_many (p q : Char → Bool) (c : Char) (cs : List Char) :
    (seq (one p) (many (one q))).Leaves (c :: cs) (if p c then some (cs.dropWhile q) else none) := by
  split
  · next hc => exact (prefers_run q cs).of_ends_eq (ends_seq_one_cons.trans (if_pos hc))
  · next hc => exact ends_seq_one_cons.trans (if_neg hc)

end Pattern
end DocStore.Text
