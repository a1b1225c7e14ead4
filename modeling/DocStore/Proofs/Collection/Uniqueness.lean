import DocStore.Proofs.Collection.Consistency
import DocStore.Proofs.Index.Uniqueness

/-!
# Unique indexes stay unique

The unique indexes of a reachable collection separate its documents (`Separated`, `Reachable.separated`), and a document is
refused exactly when it clashes with one that is stored under another key (`Clashes`, `Consistent.upsert_of_not_clashes`,
`Consistent.upsert_of_clashes`). A tuple is free again for everyone once its document was removed (`not_clashes_remove`) or
changed (`not_clashes_write`). Main statement: `Reachable.unique_exact`.
-/

namespace DocStore.Collection

variable {c c' : Collection} {key k : String} {d new : Document} {now : Int64}

/-- Unique indexes have different tuples for different documents. -/
def Separated (c : Collection) : Prop := ∀ u ∈ c.listIndexes, Index.Separates c.separator c.get? u

/-- In some unique index a document would share its tuple with one that is stored under another key. -/
def Clashes (c : Collection) (key : String) (d : Document) : Prop :=
  ∃ u ∈ c.listIndexes, Index.Clashes c.separator c.get? key d u

/-! ## What writes and removals leave alone -/

/-- To remember a timestamp changes nothing else. -/
theorem exists_advance_eq (c : Collection) (now : Int64) : ∃ stamp, c.advance now = { c with lastStamp := stamp } := by
  unfold advance
  split
  · exact ⟨_, rfl⟩
  · exact ⟨_, rfl⟩

theorem listIndexes_write : (c.write key d).listIndexes = c.listIndexes := by
  show (c.indexes.map _).map _ = c.indexes.map _
  rw [List.map_map]
  exact List.map_congr_left fun ix _ => descriptor_write

theorem listIndexes_remove : (c.remove key).2.listIndexes = c.listIndexes := by
  unfold remove
  split
  · rfl
  · show (c.indexes.map _).map _ = c.indexes.map _
    rw [List.map_map]
    rfl

theorem separator_remove : (c.remove key).2.separator = c.separator := by
  unfold remove
  split <;> rfl

theorem delete_snd : (c.delete key).2 = (c.remove key).2 := by
  unfold delete
  split
  · next he => rw [he]
  · next he => rw [he]

/-! ## Clashes and refusals -/

theorem Consistent.checkWrite_eq_ok_iff (h : c.Consistent) :
    Index.checkWrite c.separator key d c.indexes = .ok () ↔ ¬ c.Clashes key d := by
  rw [Index.checkWrite_eq_ok_iff]
  constructor
  · rintro hno ⟨u, hu, hclash⟩
    obtain ⟨ix, hix, rfl⟩ := List.mem_map.mp hu
    exact (h.tracks ix hix).holder?_eq_none_iff.mp (hno ix hix) hclash
  · intro hno ix hix
    refine (h.tracks ix hix).holder?_eq_none_iff.mpr fun hclash => ?_
    exact hno ⟨ix.descriptor, List.mem_map_of_mem hix, hclash⟩

/-- A document that does not clash is stored. -/
theorem Consistent.upsert_of_not_clashes (h : c.Consistent) (hd : d.key = .ok key)
    (hno : ¬ c.Clashes key (c.stamped now d)) :
    c.upsert now d = (.ok (c.stamped now d), (c.advance now).write key (c.stamped now d)) := by
  unfold upsert
  rw [hd]
  simp only [h.checkWrite_eq_ok_iff.mpr hno]

/-- A document that clashes is refused. -/
theorem Consistent.upsert_of_clashes (h : c.Consistent) (hd : d.key = .ok key)
    (hclash : c.Clashes key (c.stamped now d)) :
    ∃ e, c.upsert now d = (.error e, c) ∧ e.kind = .duplicateKeyViolation := by
  cases hcheck : Index.checkWrite c.separator key (c.stamped now d) c.indexes with
  | error e =>
    refine ⟨e, ?_, Index.kind_of_checkWrite_eq_error hcheck⟩
    unfold upsert
    rw [hd]
    simp only [hcheck]
  | ok _ => exact absurd hclash (h.checkWrite_eq_ok_iff.mp hcheck)

/-! ## Unique indexes separate documents -/

/-- A document that does not clash is written and keeps the documents separated. -/
theorem Separated.write (hs : c.Separated) (hno : ¬ c.Clashes key d) : (c.write key d).Separated := by
  intro u hu
  rw [listIndexes_write] at hu
  rw [get?_write]
  exact (hs u hu).update fun hclash => hno ⟨u, hu, hclash⟩

/-- Every step keeps the documents separated. -/
theorem Separated.step (hs : c.Separated) (h : c.Consistent) (hstep : Step c c') : c'.Separated := by
  cases hstep with
  | @write now d key hd hcheck =>
    have hno := h.checkWrite_eq_ok_iff.mp hcheck
    obtain ⟨stamp, hadvance⟩ := c.exists_advance_eq now
    have hsame : ({ c with lastStamp := stamp } : Collection).Separated := hs
    rw [hadvance]
    exact hsame.write hno
  | remove hd =>
    intro u hu
    rw [listIndexes_remove] at hu
    rw [separator_remove, get?_remove h.keys_nodup]
    refine (hs u hu).of_imp fun k d hd => ?_
    rw [Function.update_apply] at hd
    split at hd
    · cases hd
    · exact hd
  | create hc =>
    intro u hu
    obtain ⟨ix, hix, rfl⟩ := List.mem_map.mp hu
    rcases Index.mem_of_create_eq_ok hc hix with hix | ⟨hdescriptor, -, hb⟩
    · exact hs _ (List.mem_map_of_mem hix)
    · rw [hdescriptor]
      exact Index.separates_of_backfill h.keys_nodup hb
  | drop hd => exact fun u hu => hs u (((Index.drop_eq_ok hd).map _).mem hu)

theorem Reachable.separated [Like.Engine] (h : c.Reachable) : c.Separated := by
  have hboth := h.induction (P := fun c => c.Consistent ∧ c.Separated)
    (fun _ _ hc => ⟨consistent_empty hc, fun u hu => by cases hu⟩)
    fun _ _ hc hstep => ⟨hc.1.step hstep, hc.2.step hc.1 hstep⟩
  exact hboth.2

/-! ## Tuples that are free again -/

/-- After a document was removed, a document that clashes with no other one clashes with none. -/
theorem not_clashes_remove (h : c.Consistent) (hno : ¬ c.Clashes key d) : ¬ (c.remove key).2.Clashes k d := by
  rintro ⟨u, hu, huniq, m, e, -, he, hed⟩
  rw [listIndexes_remove] at hu
  rw [separator_remove] at hed
  rw [get?_remove h.keys_nodup, Function.update_apply] at he
  split at he
  · cases he
  · next hm => exact hno ⟨u, hu, huniq, m, e, hm, he, hed⟩

/-- After a document was replaced by one with other tuples, a document that clashes with no other one clashes with none. -/
theorem not_clashes_write (hno : ¬ c.Clashes key d)
    (hnew : ∀ u ∈ c.listIndexes, u.unique = true → ¬ new.AgreeAt c.separator u.fields.names d) :
    ¬ (c.write key new).Clashes k d := by
  rintro ⟨u, hu, huniq, m, e, -, he, hed⟩
  rw [listIndexes_write] at hu
  rw [get?_write, Function.update_apply] at he
  split at he
  · cases he
    exact hnew u hu huniq (Index.Tuple.ofDocument_beq_iff.mp hed)
  · next hm => exact hno ⟨u, hu, huniq, m, e, hm, he, hed⟩

theorem not_clashes_upsert (h : c.Consistent) {e : Document} (hd : d.key = .ok key) (hok : (c.upsert now d).1 = .ok new)
    (hno : ¬ c.Clashes key e) (hnew : ∀ u ∈ c.listIndexes, u.unique = true → ¬ new.AgreeAt c.separator u.fields.names e) :
    ¬ (c.upsert now d).2.Clashes k e := by
  by_cases hclash : c.Clashes key (c.stamped now d)
  · obtain ⟨x, hx, -⟩ := h.upsert_of_clashes hd hclash
    rw [hx] at hok
    cases hok
  · obtain ⟨stamp, hadvance⟩ := c.exists_advance_eq now
    rw [h.upsert_of_not_clashes hd hclash, hadvance] at hok ⊢
    cases hok
    exact not_clashes_write hno hnew

/-- **Unique indexes are enforced exactly.** In a reachable collection no unique index has two keys under one tuple, where
documents have equal tuples when at each field both have equal values or both have none. A document with a key is refused
exactly when it shares, as it would be stored, its tuple in a unique index with a document under another key; else it is
stored. So a document may take the place of one with its tuple, and tuples that no other document had can be used under
every key once their document was deleted or changed. -/
theorem Reachable.unique_exact [Like.Engine] (h : c.Reachable) :
    (∀ ix ∈ c.indexes, ix.descriptor.unique = true → ∀ t k m, k ∈ ix.keysAt t → m ∈ ix.keysAt t → k = m) ∧
    (∀ fields d e, (Index.Tuple.ofDocument c.separator fields d == Index.Tuple.ofDocument c.separator fields e) = true ↔
      d.AgreeAt c.separator fields.names e) ∧
    (∀ m old d, c.get? m = some old → ∀ u ∈ c.listIndexes, old.AgreeAt c.separator u.fields.names d →
      ¬ Index.Clashes c.separator c.get? m d u) ∧
    ∀ now d k, d.get? keyField = some (.string k) → k ≠ "" →
      ((∃ e, (c.upsert now d).1 = .error e ∧ e.kind = .duplicateKeyViolation) ↔ c.Clashes k (c.stamped now d)) ∧
      (¬ c.Clashes k (c.stamped now d) →
        (c.upsert now d).1 = .ok (c.stamped now d) ∧ (c.upsert now d).2.get? k = some (c.stamped now d)) ∧
      (∀ m, ¬ c.Clashes m ((c.delete m).2.stamped now d) →
        ((c.delete m).2.upsert now d).1 = .ok ((c.delete m).2.stamped now d)) ∧
      ∀ m earlier e new, e.key = .ok m → (c.upsert earlier e).1 = .ok new →
        ¬ c.Clashes m ((c.upsert earlier e).2.stamped now d) →
        (∀ u ∈ c.listIndexes, u.unique = true →
          ¬ new.AgreeAt c.separator u.fields.names ((c.upsert earlier e).2.stamped now d)) →
        ((c.upsert earlier e).2.upsert now d).1 = .ok ((c.upsert earlier e).2.stamped now d) := by
  have hc := h.consistent
  have hs := h.separated
  refine ⟨?_, fun fields d e => Index.Tuple.ofDocument_beq_iff, ?_, ?_⟩
  · intro ix hix huniq t k m hk hm
    obtain ⟨d, hd, htd⟩ := ((hc.tracks ix hix).mem_keysAt t k).mp hk
    obtain ⟨e, he, hte⟩ := ((hc.tracks ix hix).mem_keysAt t m).mp hm
    exact hs _ (List.mem_map_of_mem hix) huniq k m d e hd he (BEq.trans (BEq.symm htd) hte)
  · intro m old d hold u hu hagree
    exact (hs u hu).not_clashes hold (Index.Tuple.ofDocument_beq_iff.mpr hagree)
  intro now d k hk hne
  have hkey : d.key = .ok k := Document.key_eq_ok_iff.mpr ⟨hk, hne⟩
  refine ⟨⟨?_, ?_⟩, ?_, ?_, ?_⟩
  · rintro ⟨e, he, -⟩
    by_contra hno
    rw [hc.upsert_of_not_clashes hkey hno] at he
    cases he
  · intro hclash
    obtain ⟨e, he, hkind⟩ := hc.upsert_of_clashes hkey hclash
    exact ⟨e, by rw [he], hkind⟩
  · intro hno
    rw [hc.upsert_of_not_clashes hkey hno, get?_write]
    exact ⟨rfl, Function.update_self ..⟩
  · intro m hno
    have hreach : (c.delete m).2.Reachable := h.perform (.delete m)
    have hfree : ¬ (c.delete m).2.Clashes k ((c.delete m).2.stamped now d) := by
      rw [delete_snd] at hno ⊢
      exact not_clashes_remove hc hno
    rw [hreach.consistent.upsert_of_not_clashes hkey hfree]
  · intro m earlier e new hm hnew hno hother
    have hreach : (c.upsert earlier e).2.Reachable := h.perform (.upsert earlier e)
    have hfree := not_clashes_upsert (k := k) hc hm hnew hno hother
    rw [hreach.consistent.upsert_of_not_clashes hkey hfree]

open Like.Sized

/-- The sample without a document, under one more index, which is unique. -/
def uniqueSample : Collection := sample.run [.delete "b", .addIndex ["size.w"] true]

theorem unique_exact_sample :
    (∃ e, (uniqueSample.upsert 9 (.ofList [("_key", .string "d")])).1 = .error e ∧ e.kind = .duplicateKeyViolation) ∧
    ¬ uniqueSample.Clashes "d" (uniqueSample.stamped 9 (.ofList [("_key", .string "d"), ("size.w", .null)])) ∧
    ((uniqueSample.delete "a").2.upsert 9 (.ofList [("_key", .string "d"), ("size.w", .float ⟨0x3FF0000000000000⟩)])).1 =
      .ok ((uniqueSample.delete "a").2.stamped 9
        (.ofList [("_key", .string "d"), ("size.w", .float ⟨0x3FF0000000000000⟩)])) := by
  have hreach : uniqueSample.Reachable := (reachable_sample.perform (.delete "b")).perform (.addIndex ["size.w"] true)
  obtain ⟨-, -, hfree, hexact⟩ := hreach.unique_exact
  refine ⟨?_, fun hclash => ?_, ?_⟩
  · -- the document under "c" has no such field either
    have hu : ∃ u ∈ uniqueSample.listIndexes, u.unique = true ∧ u.fields.names = ["size.w"] := by decide +kernel
    obtain ⟨u, hu, huniq, hn⟩ := hu
    refine (hexact 9 (.ofList [("_key", .string "d")]) "d" rfl (by decide)).1.mpr ⟨u, hu, huniq, "c", _, by decide, rfl, ?_⟩
    rw [Index.Tuple.ofDocument_beq_iff, hn]
    intro path hpath
    rw [List.mem_singleton.mp hpath]
    exact .none
  · obtain ⟨e, he, -⟩ := (hexact 9 _ "d" rfl (by decide)).1.mpr hclash
    have hok : (uniqueSample.upsert 9
        (.ofList [("_key", .string "d"), ("size.w", .null)])).1.toOption.isSome = true := by decide +kernel
    rw [he] at hok
    cases hok
  · -- the document under "a" has the integer in place of the equal float
    have hsame : ∀ old ∈ uniqueSample.get? "a", ∀ u ∈ uniqueSample.listIndexes, u.unique = true →
        (Index.Tuple.ofDocument uniqueSample.separator u.fields old ==
          Index.Tuple.ofDocument uniqueSample.separator u.fields ((uniqueSample.delete "a").2.stamped 9
            (.ofList [("_key", .string "d"), ("size.w", .float ⟨0x3FF0000000000000⟩)]))) = true := by decide +kernel
    refine (hexact 9 _ "d" rfl (by decide)).2.2.1 "a" ?_
    rintro ⟨u, hu, hclash⟩
    have hagree := Index.Tuple.ofDocument_beq_iff.mp (hsame _ rfl u hu hclash.1)
    exact hfree "a" _ _ rfl u hu hagree hclash

end DocStore.Collection
