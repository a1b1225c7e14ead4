import DocStore.Proofs.Index.Removal
import Mathlib.Data.List.Dedup

/-!
# Indexes and their histories

A history of an index lists the arrivals of keys at tuples, the earliest first (`Arrival`). It says in which order the keys
of a tuple last came under it (`lastUnder`, `pairwise_lastUnder`). An index follows a history when the keys under every
tuple are those that came under it and whose documents still have it, in that order (`Follows`). A document that is written
adds to the history unless its tuple stays equal (`Follows.write`), keys that are left out add nothing (`Follows.without`),
and an index that is filled follows the arrivals of a scan (`follows_of_backfill_empty`).
-/

namespace DocStore.Index

/-- That a key came under a tuple. -/
structure Arrival where
  key : String
  tuple : Tuple

variable {separator key : String} {docs docs' : String → Option Document} {ix ix' : Index} {log : List Arrival}
  {a : Arrival} {t : Tuple} {k m : String}

/-! ## Histories -/

/-- What is added at the end is not at its earlier places any more. -/
theorem dedup_concat {ks : List String} : (ks ++ [k]).dedup = ks.dedup.filter (· ≠ k) ++ [k] := by
  induction ks with
  | nil => rfl
  | cons m ks ih =>
    by_cases hm : m ∈ ks
    · rw [List.cons_append, List.dedup_cons_of_mem (List.mem_append_left _ hm), List.dedup_cons_of_mem hm, ih]
    · rw [List.cons_append, List.dedup_cons_of_notMem hm]
      by_cases hmk : m = k
      · have hmem : m ∈ ks ++ [k] := List.mem_append_right _ (List.mem_singleton.mpr hmk)
        rw [List.dedup_cons_of_mem hmem, ih, List.filter_cons_of_neg (by simpa using hmk)]
      · have hmem : m ∉ ks ++ [k] := by simp [hm, hmk]
        rw [List.dedup_cons_of_notMem hmem, ih, List.filter_cons_of_pos (by simpa using hmk)]
        rfl

namespace Arrival

/-- The key came under an equal tuple. -/
def Brings (a : Arrival) (k : String) (t : Tuple) : Prop := a.key = k ∧ (a.tuple == t) = true

/-- After a key came under a tuple for the last time, another one came under it. -/
def LastBefore (log : List Arrival) (t : Tuple) (k m : String) : Prop :=
  ∃ earlier a later, log = earlier ++ a :: later ∧ a.Brings k t ∧ (∀ b ∈ later, ¬ b.Brings k t) ∧
    ∃ b ∈ later, b.Brings m t

/-- The keys that came under a tuple, each at the place where it came for the last time. -/
def lastUnder (t : Tuple) (log : List Arrival) : List String := ((log.filter (·.tuple == t)).map (·.key)).dedup

/-- The arrivals of the documents of a scan. -/
def ofScan (separator : String) (fields : FieldList) (es : List (String × Document)) : List Arrival :=
  es.map fun e => ⟨e.1, .ofDocument separator fields e.2⟩

/-- The arrival of a document that is written under a key: none when the document before had an equal tuple. -/
def ofWrite (separator : String) (fields : FieldList) (key : String) (old? : Option Document) (new : Document) :
    List Arrival :=
  let t := Tuple.ofDocument separator fields new
  match old? with
  | none => [⟨key, t⟩]
  | some old => if Tuple.ofDocument separator fields old == t then [] else [⟨key, t⟩]

theorem mem_lastUnder : k ∈ lastUnder t log ↔ ∃ a ∈ log, a.Brings k t := by
  simp only [lastUnder, List.mem_dedup, List.mem_map, List.mem_filter, Brings]
  exact exists_congr fun a => ⟨fun ⟨⟨ha, ht⟩, hk⟩ => ⟨ha, hk, ht⟩, fun ⟨ha, hk, ht⟩ => ⟨⟨ha, ht⟩, hk⟩⟩

theorem lastUnder_cons : lastUnder t (a :: log) =
    if (a.tuple == t) = true ∧ a.key ∉ lastUnder t log then a.key :: lastUnder t log else lastUnder t log := by
  by_cases ht : (a.tuple == t) = true
  · have hcons : lastUnder t (a :: log) = (a.key :: (log.filter (·.tuple == t)).map (·.key)).dedup := by
      simp only [lastUnder, List.filter_cons, ht, ↓reduceIte, List.map_cons]
    rw [hcons, List.dedup_cons']
    simp only [ht, true_and, ite_not]
    rfl
  · rw [if_neg fun h => ht h.1]
    simp only [lastUnder, List.filter_cons, ht, Bool.false_eq_true, ↓reduceIte]

/-- A key that comes under a tuple is the last one there. -/
theorem lastUnder_concat : lastUnder t (log ++ [a]) =
    if a.tuple == t then (lastUnder t log).filter (· ≠ a.key) ++ [a.key] else lastUnder t log := by
  simp only [lastUnder, List.filter_append, List.filter_cons, List.map_append]
  split
  · exact dedup_concat
  · rw [List.filter_nil, List.map_nil, List.append_nil]

theorem LastBefore.cons (h : LastBefore log t k m) (a : Arrival) : LastBefore (a :: log) t k m := by
  obtain ⟨earlier, b, later, rfl, hrest⟩ := h
  exact ⟨a :: earlier, b, later, rfl, hrest⟩

/-- The keys of a tuple stand in the order in which they last came under it. -/
theorem pairwise_lastUnder (t : Tuple) (log : List Arrival) : (lastUnder t log).Pairwise (LastBefore log t) := by
  induction log with
  | nil => exact .nil
  | cons a log ih =>
    have hold : (lastUnder t log).Pairwise (LastBefore (a :: log) t) := ih.imp fun h => h.cons a
    rw [lastUnder_cons]
    split
    · next ha =>
      refine List.pairwise_cons.mpr ⟨fun m hm => ?_, hold⟩
      exact ⟨[], a, log, rfl, ⟨rfl, ha.1⟩, fun b hb hbrings => ha.2 (mem_lastUnder.mpr ⟨b, hb, hbrings⟩),
        mem_lastUnder.mp hm⟩
    · exact hold

end Arrival

/-! ## Following a history -/

/-- The keys under every tuple are those that came under it and whose documents have it, in the order in which they last
came. -/
def Follows (separator : String) (docs : String → Option Document) (log : List Arrival) (ix : Index) : Prop :=
  ∀ t, ix.keysAt t = (Arrival.lastUnder t log).filter fun k => (docs k).any fun d => ix.tupleOf separator d == t

theorem Follows.pairwise (h : ix.Follows separator docs log) (t : Tuple) :
    (ix.keysAt t).Pairwise (Arrival.LastBefore log t) := by
  rw [h t]
  exact (Arrival.pairwise_lastUnder t log).filter _

theorem follows_empty (separator : String) (d : IndexDescriptor) : (empty d).Follows separator (fun _ => none) [] :=
  fun _ => rfl

theorem Follows.insert (h : ix.Follows separator docs log) (ht : ix.Tracks separator docs) (hkey : docs key = none)
    (d : Document) : (ix.insert (ix.tupleOf separator d) key).Follows separator (Function.update docs key (some d))
      (log ++ [⟨key, ix.tupleOf separator d⟩]) := by
  intro t
  have hkeys : (ix.insert (ix.tupleOf separator d) key).keysAt t =
      if ix.tupleOf separator d == t then addKey key (ix.keysAt t) else ix.keysAt t := keysIn_addEntry ht.ordered
  have hnew : key ∉ ix.keysAt t := by
    rw [h t, List.mem_filter, hkey]
    simp
  rw [hkeys, Arrival.lastUnder_concat]
  dsimp only
  split
  · next hdt =>
    rw [addKey, if_neg hnew, h t, List.filter_append, List.filter_filter]
    congr 1
    · refine List.filter_congr fun k _ => ?_
      by_cases hk : k = key
      · simp [hk, hkey]
      · simp [hk, tupleOf, Index.insert]
    · rw [List.filter_cons_of_pos]
      · rfl
      · rw [Function.update_self]
        exact hdt
  · next hdt =>
    rw [h t]
    refine List.filter_congr fun k _ => ?_
    by_cases hk : k = key
    · subst hk
      rw [hkey, Function.update_self]
      exact (eq_false_of_ne_true hdt).symm
    · rw [Function.update_of_ne hk]
      rfl

/-! ## Keys left out -/

theorem keysIn_entriesWithout {es : List (Tuple × List String)} (h : Ordered es) (ks : List String) :
    keysIn t (entriesWithout ks es) = (keysIn t es).filter (· ∉ ks) := by
  induction es with
  | nil => rfl
  | cons e es ih =>
    have hih := ih (ordered_cons.mp h).2
    rw [entriesWithout_cons]
    split
    · next hnone =>
      rw [hih, keysIn_tail h t]
      by_cases het : (e.1 == t) = true
      · rw [if_pos het, keysIn, if_pos het, hnone]
        rfl
      · rw [if_neg het]
    · rw [keysIn, keysIn, hih]
      split <;> rfl

theorem Follows.without (h : ix.Follows separator docs log) (ht : ix.Tracks separator docs) {ks : List String}
    (hdocs : ∀ k, docs' k = if k ∈ ks then none else docs k) : (ix.without ks).Follows separator docs' log := by
  intro t
  have hkeys : (ix.without ks).keysAt t = (ix.keysAt t).filter (· ∉ ks) := keysIn_entriesWithout ht.ordered ks
  rw [hkeys, h t, List.filter_filter]
  refine List.filter_congr fun k _ => ?_
  rw [hdocs k]
  by_cases hk : k ∈ ks
  · simp [hk]
  · simp only [hk, not_false_eq_true, decide_true, Bool.true_and, if_false]
    rfl

/-! ## Documents written -/

/-- A document whose tuple stays equal keeps its place. -/
theorem Follows.replace {old d : Document} (h : ix.Follows separator docs log) (hkey : docs key = some old)
    (hsame : (ix.tupleOf separator old == ix.tupleOf separator d) = true) :
    ix.Follows separator (Function.update docs key (some d)) log := by
  intro t
  rw [h t]
  refine List.filter_congr fun k _ => ?_
  by_cases hk : k = key
  · subst hk
    rw [hkey, Function.update_self, Option.any_some, Option.any_some, BEq.congr_left hsame]
  · rw [Function.update_of_ne hk]

/-- A document that is written comes in, keeps its place or comes last under its new tuple. -/
theorem Follows.write (h : ix.Follows separator docs log) (ht : ix.Tracks separator docs) (d : Document) :
    (ix.write separator key (docs key) d).Follows separator (Function.update docs key (some d))
      (log ++ Arrival.ofWrite separator ix.descriptor.fields key (docs key) d) := by
  unfold Index.write Arrival.ofWrite
  cases hkey : docs key with
  | none => exact h.insert ht hkey d
  | some old =>
    show (if ix.tupleOf separator old == ix.tupleOf separator d then ix else _).Follows separator _
      (log ++ if ix.tupleOf separator old == ix.tupleOf separator d then [] else _)
    split
    · next hsame =>
      rw [List.append_nil]
      exact h.replace hkey hsame
    · -- the key leaves its old tuple and comes under the new one
      have hremove : (ix.without [key]).Follows separator (Function.update docs key none) log :=
        h.without ht fun k => by simp only [Function.update_apply, List.mem_singleton]
      rw [← ht.remove_eq_without hkey] at hremove
      have hr := hremove.insert (ht.remove hkey) (Function.update_self ..) d
      rw [Function.update_idem] at hr
      exact hr

/-! ## The documents of a scan -/

theorem Follows.backfill {es : List (String × Document)} (h : ix.Follows separator docs log)
    (ht : ix.Tracks separator docs) (hnew : ∀ e ∈ es, docs e.1 = none) (hnd : (es.map (·.1)).Nodup)
    (hb : backfill separator ix es = .ok ix') :
    ix'.Follows separator (fun k => (es.lookup k).or (docs k))
      (log ++ Arrival.ofScan separator ix.descriptor.fields es) := by
  induction es generalizing ix docs log with
  | nil =>
    cases hb
    rw [Arrival.ofScan, List.map_nil, List.append_nil]
    exact h
  | cons e es ih =>
    obtain ⟨key, d⟩ := e
    obtain ⟨hkey, hnew⟩ := List.forall_mem_cons.mp hnew
    obtain ⟨-, hb⟩ := backfill_cons_eq_ok.mp hb
    rw [List.map_cons, List.nodup_cons] at hnd
    have hne : ∀ f ∈ es, f.1 ≠ key := fun f hf he => hnd.1 (List.mem_map.mpr ⟨f, hf, he⟩)
    have hr := ih (h.insert ht hkey d) (ht.insert hkey d)
      (fun f hf => by rw [Function.update_of_ne (hne f hf)]; exact hnew f hf) hnd.2 hb
    rw [List.append_assoc] at hr
    rw [lookup_cons_or hne]
    exact hr

/-- An index filled with all documents follows their arrivals. -/
theorem follows_of_backfill_empty {es : List (String × Document)} {d : IndexDescriptor} (hnd : (es.map (·.1)).Nodup)
    (hb : backfill separator (empty d) es = .ok ix) :
    ix.Follows separator (fun k => es.lookup k) (Arrival.ofScan separator d.fields es) := by
  have h := (follows_empty separator d).backfill (tracks_empty separator d) (fun _ _ => rfl) hnd hb
  simp only [Option.or_none, List.nil_append] at h
  exact h

end DocStore.Index
