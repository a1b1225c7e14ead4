import DocStore.Proofs.Collection.Contents
import DocStore.Proofs.Collection.History

/-!
# Undoing and repeating a write

A key that leaves the tuple that it just came under leaves the entries of an index exactly as they were
(`Index.dropEntry_addEntry`), and so do documents and indexes together when a document under a new key is removed right
after it was written (`Consistent.delete_write`). To write a document again under its key changes nothing at all
(`write_write`), and what was accepted once is accepted again, as it clashes with no more documents than before
(`clashes_write_self_iff`).
-/

namespace DocStore

namespace Index

variable {t : Tuple} {key : String} {es : List (Tuple × List String)} {separator : String} {ix : Index} {d : Document}

/-- A key that came under a tuple and leaves it again leaves the entries as they were: a tuple that was not there goes
again, and one that was there has its keys in their order. -/
theorem dropEntry_addEntry (h : Ordered es) (hkey : key ∉ keysIn t es) : dropEntry t key (addEntry t key es) = es := by
  induction es with
  | nil => rw [addEntry, dropEntry, BEq.rfl, if_pos rfl, List.erase_cons_head, if_pos rfl]
  | cons e es ih =>
    obtain ⟨u, ks⟩ := e
    obtain ⟨⟨-, hne, -⟩, hes⟩ := ordered_cons.mp h
    rw [keysIn] at hkey
    unfold addEntry
    split
    · rw [dropEntry, BEq.rfl, if_pos rfl, List.erase_cons_head, if_pos rfl]
    · next htu =>
      have hut : (u == t) = true := BEq.symm (Std.LawfulBEqOrd.compare_eq_iff_beq.mp htu)
      rw [if_pos hut] at hkey
      have hadd : addKey key ks = ks ++ [key] := if_neg hkey
      have herase : (ks ++ [key]).erase key = ks := by
        rw [List.erase_append_right _ hkey, List.erase_cons_head, List.append_nil]
      rw [dropEntry, if_pos hut, hadd, herase, if_neg hne]
    · next htu =>
      have hut : ¬(u == t) = true := by
        rw [(beq_eq_false_of_lt (Std.OrientedCmp.lt_of_gt htu)).1]
        exact Bool.false_ne_true
      rw [if_neg hut] at hkey
      rw [dropEntry, if_neg hut, ih hes hkey]

/-- An index forgets a document that just came in under a new key. -/
theorem Tracks.remove_write {docs : String → Option Document} (h : ix.Tracks separator docs) (hkey : docs key = none)
    (d : Document) : (ix.write separator key none d).remove separator key d = ix := by
  have hno : key ∉ ix.keysAt (ix.tupleOf separator d) := by
    intro hmem
    obtain ⟨e, he, -⟩ := (h.mem_keysAt _ key).mp hmem
    rw [hkey] at he
    cases he
  show { ix with entries := dropEntry (ix.tupleOf separator d) key (addEntry (ix.tupleOf separator d) key ix.entries) } = ix
  rw [dropEntry_addEntry h.ordered hno]

/-- An index keeps a document in its place that is written once more. -/
theorem write_self (ix : Index) (separator key : String) (d : Document) : ix.write separator key (some d) d = ix := by
  show (if ix.tupleOf separator d == ix.tupleOf separator d then ix else _) = ix
  rw [BEq.rfl, if_pos rfl]

end Index

variable {key : String} {d : Document} {es : List (String × Document)}

theorem writeEntry_writeEntry : writeEntry key d (writeEntry key d es) = writeEntry key d es := by
  induction es with
  | nil => rw [writeEntry, writeEntry, if_pos rfl]
  | cons e es ih =>
    obtain ⟨k, f⟩ := e
    by_cases hk : k = key
    · rw [writeEntry, if_pos hk, writeEntry, if_pos rfl]
    · rw [writeEntry, if_neg hk, writeEntry, if_neg hk, ih]

theorem removeEntry_writeEntry (h : key ∉ es.map (·.1)) : removeEntry key (writeEntry key d es) = es := by
  have hno : ∀ e ∈ es, ¬(e.1 == key) = true := fun e he hk => h (beq_iff_eq.mp hk ▸ List.mem_map_of_mem he)
  have hlast : [(key, d)].eraseP (·.1 == key) = [] := List.eraseP_cons_of_pos (beq_self_eq_true key)
  rw [writeEntry_of_notMem h, removeEntry, List.eraseP_append_right _ hno, hlast, List.append_nil]

namespace Collection

variable {c : Collection} {new : Document} {now later : Int64}

/-- To write a document again under its key changes nothing. -/
theorem write_write (c : Collection) (key : String) (d : Document) :
    (c.write key d).write key d = c.write key d := by
  have hget : (c.write key d).get? key = some d := by rw [get?_write, Function.update_self]
  have hindexes : (c.write key d).indexes.map (·.write c.separator key (some d) d) = (c.write key d).indexes :=
    (List.map_congr_left fun ix _ => ix.write_self c.separator key d).trans (List.map_id _)
  show { c.write key d with
    documents := writeEntry key d (writeEntry key d c.documents)
    indexes := (c.write key d).indexes.map (·.write c.separator key ((c.write key d).get? key) d) } = c.write key d
  rw [hget, hindexes, writeEntry_writeEntry]
  rfl

/-- To delete a document right after it was written under a new key gives the collection as it was. -/
theorem Consistent.delete_write (h : c.Consistent) (hnew : c.get? key = none) :
    (c.write key d).delete key = (.ok d, c) := by
  have hget : (c.write key d).get? key = some d := by rw [get?_write, Function.update_self]
  have hindexes : (c.write key d).indexes.map (·.remove c.separator key d) = c.indexes := by
    show (c.indexes.map (·.write c.separator key (c.get? key) d)).map _ = c.indexes
    rw [hnew, List.map_map]
    exact (List.map_congr_left fun ix hix => (h.tracks ix hix).remove_write hnew d).trans (List.map_id _)
  have hremove : (c.write key d).remove key = (some d, c) := by
    rw [remove_of_get?_eq_some hget]
    show (some d, { c.write key d with
      documents := removeEntry key (writeEntry key d c.documents)
      indexes := (c.write key d).indexes.map (·.remove c.separator key d) }) = (some d, c)
    rw [hindexes, removeEntry_writeEntry (get?_eq_none_iff.mp hnew)]
    rfl
  unfold Collection.delete
  rw [hremove]

/-- What is written under a key does not matter for clashes with other keys. -/
theorem clashes_write_self_iff : (c.write key d).Clashes key new ↔ c.Clashes key new := by
  unfold Clashes
  rw [listIndexes_write, get?_write]
  refine exists_congr fun u => and_congr_right fun _ => and_congr_right fun _ => ?_
  refine exists_congr fun m => exists_congr fun e => and_congr_right fun hm => ?_
  rw [Function.update_of_ne hm]
  rfl

theorem stamped_eq_self (hstamp : c.config.timestampField = none) : c.stamped now d = d := by rw [stamped, hstamp]

theorem advance_eq_self (hstamp : c.config.timestampField = none) : c.advance now = c := by
  rw [Collection.advance, hstamp]

/-- Without a timestamp field a document that does not clash is written as it is given. -/
theorem Consistent.upsert_eq_write (h : c.Consistent) (hstamp : c.config.timestampField = none) (hd : d.key = .ok key)
    (hno : ¬c.Clashes key d) (now : Int64) : c.upsert now d = (.ok d, c.write key d) := by
  have hstamped : c.stamped now d = d := stamped_eq_self hstamp
  rw [h.upsert_of_not_clashes hd (hstamped.symm ▸ hno), hstamped, advance_eq_self hstamp]

/-- Without a timestamp field a document is accepted exactly when it does not clash. -/
theorem Consistent.exists_upsert_iff (h : c.Consistent) (hstamp : c.config.timestampField = none)
    (hd : d.key = .ok key) (now : Int64) : (∃ new, (c.upsert now d).1 = .ok new) ↔ ¬c.Clashes key d := by
  constructor
  · rintro ⟨new, hok⟩ hclash
    obtain ⟨e, he, -⟩ : ∃ e, c.upsert now d = (.error e, c) ∧ e.kind = .duplicateKeyViolation :=
      h.upsert_of_clashes hd ((stamped_eq_self hstamp).symm ▸ hclash)
    rw [he] at hok
    cases hok
  · intro hno
    exact ⟨d, congrArg Prod.fst (h.upsert_eq_write hstamp hd hno now)⟩

/-- **Writes undo and repeat cleanly.** Where documents get no timestamps, an upsert that goes well stores the document as
it was given. To do it again, at whatever time, goes well and leaves the collection exactly as it is. If the key was new,
deleting it gives the document back and the collection exactly as it was before. -/
theorem Reachable.undo_exact [Like.Engine] (h : c.Reachable) (hstamp : c.config.timestampField = none)
    (hok : (c.upsert now d).1 = .ok new) :
    new = d ∧ (∀ later, (c.upsert now d).2.upsert later d = (.ok d, (c.upsert now d).2)) ∧
    ∀ key, d.key = .ok key → c.get? key = none → (c.upsert now d).2.delete key = (.ok d, c) := by
  have hc := h.consistent
  obtain ⟨key, hkey, -, -⟩ := upsert_eq_ok hok
  have hno : ¬c.Clashes key d := (hc.exists_upsert_iff hstamp hkey now).mp ⟨new, hok⟩
  rw [hc.upsert_eq_write hstamp hkey hno] at hok ⊢
  refine ⟨(Except.ok.inj hok).symm, fun later => ?_, fun k hk hnew => ?_⟩
  · have hconsistent : (c.write key d).Consistent := hc.write hkey
    rw [hconsistent.upsert_eq_write hstamp hkey (mt clashes_write_self_iff.mp hno), write_write]
  · cases hkey.symm.trans hk
    exact hc.delete_write hnew

open Like.Sized

/-- A collection without timestamps, with an index under one of whose tuples two keys stand. -/
def pairSample : Collection := (empty "pair" (Config.freeze {})).run
  [.addIndex ["n"] false, .upsert 1 (.ofList [("_key", .string "b"), ("n", .float ⟨0x4000000000000000⟩)]),
    .upsert 2 (.ofList [("_key", .string "a"), ("n", .int 2)])]

/-- A third document with an equal number comes under the same tuple; written twice it is there once, and deleted it
leaves the others in their order. -/
theorem undo_exact_sample :
    let d : Document := .ofList [("_key", .string "c"), ("n", .int 2)]
    (pairSample.upsert 3 d).2.upsert 4 d = (.ok d, (pairSample.upsert 3 d).2) ∧
      (pairSample.upsert 3 d).2.delete "c" = (.ok d, pairSample) := by
  intro d
  have hreachable : pairSample.Reachable := ⟨"pair", [], {}, _, rfl, rfl⟩
  have hok : (pairSample.upsert 3 d).1 = .ok d := rfl
  obtain ⟨-, hagain, hdelete⟩ := hreachable.undo_exact rfl hok
  exact ⟨hagain 4, hdelete "c" rfl rfl⟩

end Collection
end DocStore
