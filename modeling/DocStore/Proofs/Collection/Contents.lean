import DocStore.Proofs.Collection.Failures
import DocStore.Proofs.Collection.Queries
import DocStore.Proofs.Query.Reading

/-!
# A collection as an ordered map

Documents under different keys in the order in which the keys came in (`Contents`), with two changes: a document is set
in the place of the one with its key or at the end, and documents are left out while the others keep their order. What
the replies of a collection tell is enough to follow its documents (`Contents.after`, `Contents.ofLog`): they are after
every action what the replies say (`Consistent.entries_after`), and so after every run (`Consistent.entries_ofLog`).
-/

namespace DocStore

/-- Documents under different keys, in the order in which the keys came in. -/
structure Contents where
  entries : List (String × Document)
  nodup : (entries.map (·.1)).Nodup

namespace Contents

variable {m : Contents} {key : String} {d : Document} {es : List (String × Document)}

/-! ## Changes -/

def empty : Contents := ⟨[], List.nodup_nil⟩

def keys (m : Contents) : List String := m.entries.map (·.1)

/-- A document set under a key: in the place of the one with that key, or at the end. -/
def set (m : Contents) (key : String) (d : Document) : Contents :=
  if h : key ∈ m.keys then
    { entries := m.entries.map fun e => if e.1 = key then (key, d) else e
      nodup := by
        have hkeys : (m.entries.map fun e => if e.1 = key then (key, d) else e).map (·.1) = m.entries.map (·.1) := by
          rw [List.map_map]
          refine List.map_congr_left fun e _ => ?_
          by_cases he : e.1 = key
          · simp [he]
          · simp [he]
        rw [hkeys]
        exact m.nodup }
  else
    { entries := m.entries ++ [(key, d)]
      nodup := by
        rw [List.map_append, List.map_singleton, ← List.concat_eq_append, List.nodup_concat]
        exact ⟨h, m.nodup⟩ }

/-- The documents without those under some keys; the others keep their order. -/
def without (m : Contents) (keys : List String) : Contents where
  entries := m.entries.filter fun e => e.1 ∉ keys
  nodup := (List.filter_sublist.map _).nodup m.nodup

/-! ## Following replies -/

/-- The keys of some documents. -/
def keysOf (ds : List Document) : List String := ds.filterMap (·.key.toOption)

/-- What the reply to an action tells about the documents: an upsert that went well sets the document it answers, a
removal that went well leaves out what it answers, and everything else, failures included, changes nothing. -/
def after (m : Contents) : Collection.Action → Except StoreError Collection.Reply → Contents
  | .upsert _ d, .ok (.document stored) => d.key.toOption.elim m (m.set · stored)
  | .delete key, .ok (.document _) => m.without [key]
  | .removeOneEqual _, .ok (.document removed) => m.without (keysOf [removed])
  | .removeEqual _, .ok (.documents removed) => m.without (keysOf removed)
  | .removeQuery _ _, .ok (.documents removed) => m.without (keysOf removed)
  | _, _ => m

/-- The documents that a list of actions with their replies leaves of none. -/
def ofLog (log : List (Collection.Action × Except StoreError Collection.Reply)) : Contents :=
  log.foldl (fun m e => m.after e.1 e.2) empty

end Contents

variable {key : String} {d : Document} {es : List (String × Document)}

/-! ## Entries -/

theorem writeEntry_of_notMem (h : key ∉ es.map (·.1)) : writeEntry key d es = es ++ [(key, d)] := by
  induction es with
  | nil => rfl
  | cons e es ih =>
    rw [List.map_cons, List.mem_cons, not_or] at h
    rw [writeEntry, if_neg (Ne.symm h.1), ih h.2, List.cons_append]

theorem writeEntry_of_mem (h : key ∈ es.map (·.1)) (hnd : (es.map (·.1)).Nodup) :
    writeEntry key d es = es.map fun e => if e.1 = key then (key, d) else e := by
  induction es with
  | nil => cases h
  | cons e es ih =>
    rw [List.map_cons, List.nodup_cons] at hnd
    rw [writeEntry, List.map_cons]
    by_cases he : e.1 = key
    · have hrest : (es.map fun e => if e.1 = key then (key, d) else e) = es := by
        refine (List.map_congr_left fun f hf => ?_).trans (List.map_id es)
        exact if_neg fun hfk => hnd.1 (List.mem_map.mpr ⟨f, hf, hfk.trans he.symm⟩)
      rw [if_pos he, if_pos he, hrest]
    · have hmem : key ∈ es.map (·.1) := (List.mem_cons.mp h).resolve_left (Ne.symm he)
      rw [if_neg he, if_neg he, ih hmem hnd.2]

theorem removeEntry_eq_filter (hnd : (es.map (·.1)).Nodup) : removeEntry key es = es.filter fun e => e.1 ∉ [key] := by
  induction es with
  | nil => rfl
  | cons e es ih =>
    rw [List.map_cons, List.nodup_cons] at hnd
    rw [removeEntry_cons, List.filter_cons]
    by_cases he : e.1 = key
    · have hrest : (es.filter fun e => e.1 ∉ [key]) = es := by
        refine List.filter_eq_self.mpr fun f hf => ?_
        have hne : f.1 ≠ key := fun hfk => hnd.1 (List.mem_map.mpr ⟨f, hf, hfk.trans he.symm⟩)
        simp [hne]
      rw [if_pos he, hrest]
      simp [he]
    · rw [if_neg he, ih hnd.2]
      simp [he]

namespace Contents

variable {m : Contents}

theorem entries_set : (m.set key d).entries = writeEntry key d m.entries := by
  unfold set
  split
  · next h => exact (writeEntry_of_mem h m.nodup).symm
  · next h => exact (writeEntry_of_notMem h).symm

theorem keysOf_cons {ds : List Document} (h : d.key = .ok key) : keysOf (d :: ds) = key :: keysOf ds :=
  List.filterMap_cons_some (by rw [h]; rfl)

theorem entries_without_singleton : (m.without [key]).entries = removeEntry key m.entries :=
  (removeEntry_eq_filter m.nodup).symm

end Contents

namespace Collection

open Contents

variable {c : Collection} {m : Contents}

/-! ## Single actions -/

theorem documents_advance (c : Collection) (now : Int64) : (c.advance now).documents = c.documents := by
  obtain ⟨stamp, h⟩ := exists_advance_eq c now
  rw [h]

theorem documents_remove (hd : c.get? key = some d) : (c.remove key).2.documents = removeEntry key c.documents := by
  rw [remove_of_get?_eq_some hd]

theorem remove_fst (c : Collection) (key : String) : (c.remove key).1 = c.get? key := by
  cases hget : c.get? key with
  | none => rw [remove_of_get?_eq_none hget]
  | some d => rw [remove_of_get?_eq_some hget]

/-- A successful upsert answers the document that it stores, and stores it under the key of the given one. -/
theorem upsert_eq_ok {now : Int64} {stored : Document} (h : (c.upsert now d).1 = .ok stored) :
    ∃ key, d.key = .ok key ∧ stored = c.stamped now d ∧
      (c.upsert now d).2.documents = writeEntry key stored c.documents := by
  rcases c.upsert_cases now d with ⟨e, -, heq⟩ | ⟨key, hkey, -, heq⟩
  · rw [heq] at h
    cases h
  · rw [heq] at h ⊢
    cases h
    refine ⟨key, hkey, rfl, ?_⟩
    show writeEntry key _ (c.advance now).documents = _
    rw [documents_advance]

/-- The documents that are removed together are left out, by their own keys. -/
theorem Consistent.documents_removeKeys (keys : List String) : ∀ {c : Collection}, c.Consistent →
    (c.removeKeys keys).2.documents = c.documents.filter fun e => e.1 ∉ keysOf (c.removeKeys keys).1 := by
  induction keys with
  | nil => exact fun _ => (List.filter_eq_self.mpr fun e _ => by simp [keysOf, removeKeys]).symm
  | cons key keys ih =>
    intro c h
    show ((c.remove key).2.removeKeys keys).2.documents =
      c.documents.filter fun e => e.1 ∉ keysOf ((c.remove key).1.toList ++ ((c.remove key).2.removeKeys keys).1)
    rw [remove_fst]
    cases hd : c.get? key with
    | none =>
      rw [remove_of_get?_eq_none hd]
      exact ih h
    | some d =>
      have hkey : d.key = .ok key := h.key_eq (key, d) ((get?_eq_some_iff h.keys_nodup).mp hd)
      rw [ih (h.remove hd), documents_remove hd, removeEntry_eq_filter h.keys_nodup, List.filter_filter,
        Option.toList_some, List.singleton_append, keysOf_cons hkey]
      refine List.filter_congr fun e _ => ?_
      simp [Bool.and_comm]

/-! ### What replies tell -/

theorem after_error (m : Contents) (a : Action) (e : StoreError) : m.after a (.error e) = m := by
  cases a <;> rfl

theorem entries_after_upsert (hm : m.entries = c.documents) {now : Int64} {stored : Document}
    (h : (c.upsert now d).1 = .ok stored) :
    (m.after (.upsert now d) (.ok (.document stored))).entries = (c.upsert now d).2.documents := by
  obtain ⟨key, hkey, -, hdocuments⟩ := upsert_eq_ok h
  rw [hdocuments, ← hm, ← entries_set]
  simp only [after, hkey, Except.toOption, Option.elim_some]

theorem entries_after_delete (hm : m.entries = c.documents) {removed : Document} (h : (c.delete key).1 = .ok removed) :
    (m.after (.delete key) (.ok (.document removed))).entries = (c.delete key).2.documents := by
  have hd : c.get? key = some removed := by
    rw [← remove_fst]
    unfold delete at h
    split at h
    · next hr => rw [hr, Except.ok.inj h]
    · cases h
  rw [delete_snd, documents_remove hd, ← hm]
  exact entries_without_singleton

theorem Consistent.entries_after_removeOneEqual (h : c.Consistent) (hm : m.entries = c.documents)
    {predicate removed : Document} (hr : (c.removeOneEqual predicate).1 = .ok removed) :
    (m.after (.removeOneEqual predicate) (.ok (.document removed))).entries =
      (c.removeOneEqual predicate).2.documents := by
  obtain ⟨key, hd, heq⟩ : ∃ key, c.get? key = some removed ∧ (c.removeOneEqual predicate).2 = (c.remove key).2 := by
    unfold removeOneEqual at hr ⊢
    split at hr
    · cases hr
    · next key _ =>
      split at hr
      · next hrem =>
        refine ⟨key, ?_, ?_⟩
        · rw [← remove_fst, hrem, Except.ok.inj hr]
        · rw [hrem]
      · cases hr
  have hkey : removed.key = .ok key := h.key_eq (key, removed) ((get?_eq_some_iff h.keys_nodup).mp hd)
  rw [heq, documents_remove hd, ← hm, ← entries_without_singleton, after, keysOf_cons hkey]
  rfl

theorem Consistent.entries_after_removeQuery (h : c.Consistent) (hm : m.entries = c.documents) {text : String}
    {params : Document} {removed : List Document} (hr : (c.removeQuery text params).1 = .ok removed) :
    (m.after (.removeQuery text params) (.ok (.documents removed))).entries =
      (c.removeQuery text params).2.documents := by
  unfold removeQuery at hr ⊢
  split at hr
  · cases hr
  · cases hr
    rw [h.documents_removeKeys, ← hm]
    rfl

/-- After an action the documents are what the reply says. -/
theorem Consistent.entries_after [Like.Engine] (h : c.Consistent) (hm : m.entries = c.documents) (a : Action) :
    (m.after a (c.perform a).1).entries = (c.perform a).2.documents := by
  cases hreply : (c.perform a).1 with
  | error e => rw [after_error, keepsOnFailure_perform a ⟨e, hreply⟩, hm]
  | ok reply =>
    cases a with
    | upsert now d =>
      obtain ⟨stored, hstored, rfl⟩ := Query.exists_of_map_eq_ok hreply
      exact entries_after_upsert hm hstored
    | delete key =>
      obtain ⟨removed, hremoved, rfl⟩ := Query.exists_of_map_eq_ok hreply
      exact entries_after_delete hm hremoved
    | removeQuery text params =>
      obtain ⟨removed, hremoved, rfl⟩ := Query.exists_of_map_eq_ok hreply
      exact h.entries_after_removeQuery hm hremoved
    | removeEqual p =>
      cases hreply
      show _ = (c.removeKeys (c.equalKeys p)).2.documents
      rw [h.documents_removeKeys, ← hm]
      rfl
    | removeOneEqual p =>
      obtain ⟨removed, hremoved, rfl⟩ := Query.exists_of_map_eq_ok hreply
      exact h.entries_after_removeOneEqual hm hremoved
    | addIndex names unique => exact hm.trans (sameData_addIndex c names unique).documents
    | removeIndex names => exact hm.trans (sameData_removeIndex c names).documents
    | _ => exact hm

/-! ## Runs -/

/-- The actions of a run with their replies. -/
def log [Like.Engine] : Collection → List Action → List (Action × Except StoreError Reply)
  | _, [] => []
  | c, a :: actions => (a, (c.perform a).1) :: (c.perform a).2.log actions

/-- After a run the documents are what its replies say. -/
theorem Reachable.entries_foldl_after [Like.Engine] (h : c.Reachable) (hm : m.entries = c.documents)
    (actions : List Action) :
    ((c.log actions).foldl (fun m e => m.after e.1 e.2) m).entries = (c.run actions).documents := by
  induction actions generalizing c m with
  | nil => exact hm
  | cons a actions ih => exact ih (h.perform a) (h.consistent.entries_after hm a)

/-! ## Reads -/

theorem get?_eq_none_iff : c.get? key = none ↔ key ∉ c.documents.map (·.1) := lookup_eq_none_iff

theorem reply_get_iff [Like.Engine] (hnd : (c.documents.map (·.1)).Nodup) :
    (c.perform (.get key)).1 = .ok (.document d) ↔ (key, d) ∈ c.documents := by
  rw [← get?_eq_some_iff hnd]
  show (c.get key).map Reply.document = _ ↔ _
  unfold get
  cases c.get? key with
  | none => exact iff_of_false (fun h => by cases h) (fun h => by cases h)
  | some e => simp [Except.map]

theorem reply_get_of_notMem [Like.Engine] (h : key ∉ c.documents.map (·.1)) :
    (c.perform (.get key)).1 = .error (.documentNotFound key c.name) := by
  show (c.get key).map Reply.document = _
  unfold get
  rw [get?_eq_none_iff.mpr h]
  rfl

theorem reply_contains [Like.Engine] :
    (c.perform (.contains key)).1 = .ok (.flag (decide (key ∈ c.documents.map (·.1)))) := by
  have hcontains : c.contains key = decide (key ∈ c.documents.map (·.1)) := by
    rw [contains, Bool.eq_iff_iff, decide_eq_true_eq, Option.isSome_iff_ne_none, ne_eq, get?_eq_none_iff, not_not]
  rw [← hcontains]
  rfl

theorem reply_isEmpty [Like.Engine] : (c.perform .isEmpty).1 = .ok (.flag c.documents.isEmpty) := by
  show Except.ok (Reply.flag (c.documents.length == 0)) = _
  cases c.documents <;> rfl

end Collection
end DocStore
