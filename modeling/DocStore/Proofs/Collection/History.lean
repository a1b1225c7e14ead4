import DocStore.Proofs.Collection.Failures
import DocStore.Proofs.Collection.Removal
import DocStore.Proofs.Index.History

/-!
# The history of an index in a run

While a collection has an index over some fields, its history goes on with every action (`record`, `history`): it begins
with the documents in scan order when the index is created, and an upsert adds the arrival of its document unless the tuple
stays equal. Every other action leaves some keys out at most (`Consistent.exists_perform_eq_without`). So every action keeps
the index in step with its history (`Follows.perform`), and so does every run
(`Reachable.follows_run`).
-/

namespace DocStore.Collection

open Index (Arrival)

variable {c : Collection} {fields : FieldList} {log : List Arrival}

/-! ## Histories -/

/-- The arrival of an upsert at the tuples of the index over some fields. -/
def arrivals (fields : FieldList) (c : Collection) (now : Int64) (d : Document) : List Arrival :=
  match d.key, (c.upsert now d).1 with
  | .ok key, .ok new => Arrival.ofWrite c.separator fields key (c.get? key) new
  | _, _ => []

/-- The history of the index over some fields after an action. It begins with the documents in scan order when the index is
created; without an index there is none. -/
def record [Like.Engine] (fields : FieldList) (c : Collection) (log : List Arrival) (a : Action) : List Arrival :=
  if (c.perform a).2.hasIndex fields.names then
    if c.hasIndex fields.names then
      match a with
      | .upsert now d => log ++ c.arrivals fields now d
      | _ => log
    else Arrival.ofScan c.separator fields c.documents
  else []

/-- The history of the index over some fields after some actions. -/
def history [Like.Engine] (fields : FieldList) (c : Collection) (log : List Arrival) : List Action → List Arrival
  | [] => log
  | a :: actions => history fields (c.perform a).2 (c.record fields log a) actions

/-- The index over some fields, if there is one, follows a history. -/
def Follows (fields : FieldList) (c : Collection) (log : List Arrival) : Prop :=
  ∀ ix ∈ c.indexes, ix.descriptor.fields = fields → ix.Follows c.separator c.get? log

theorem hasIndex_iff : c.hasIndex fields.names = true ↔ fields ∈ c.indexes.map (·.descriptor.fields) := by
  unfold hasIndex
  rw [FieldList.ofNames_names]
  show (Index.find? fields c.indexes).isSome = true ↔ _
  simp [Index.find?, List.find?_isSome]

theorem follows_empty {name : String} {config : Config} : (empty name config).Follows fields [] :=
  fun ix hix => by cases hix

/-! ## Keys left out -/

theorem get?_without (c : Collection) (ks : List String) (k : String) :
    (c.without ks).get? k = if k ∈ ks then none else c.get? k := by
  unfold get? without
  dsimp only
  induction c.documents with
  | nil => simp
  | cons e es ih =>
    obtain ⟨m, d⟩ := e
    rw [lookup_cons_eq]
    by_cases hk : k = m
    · subst hk
      by_cases hm : k ∈ ks
      · rw [List.filter_cons_of_neg (by simpa using hm), ih, if_pos hm, if_pos hm]
      · rw [List.filter_cons_of_pos (by simpa using hm), List.lookup_cons_self, if_neg hm, if_pos rfl]
    · rw [if_neg hk, ← ih, List.filter_cons]
      split
      · rw [lookup_cons_eq, if_neg hk]
      · rfl

theorem map_fields_without (c : Collection) (ks : List String) :
    (c.without ks).indexes.map (·.descriptor.fields) = c.indexes.map (·.descriptor.fields) :=
  map_fields_map (f := (·.without ks)) fun _ => rfl

/-- What changes a collection only by leaving out keys when it succeeds leaves out some keys at most. -/
theorem Consistent.exists_eq_without {α : Type} {x : Except StoreError α × Collection} (h : c.Consistent)
    (hfail : c.KeepsOnFailure x) (hok : ∀ a, x.1 = .ok a → ∃ ks, x.2 = c.without ks) : ∃ ks, x.2 = c.without ks := by
  cases hx : x.1 with
  | ok a => exact hok a hx
  | error e => exact ⟨[], (hfail ⟨e, hx⟩).trans (without_nil h).symm⟩

theorem Consistent.exists_delete_eq_without (h : c.Consistent) (key : String) :
    ∃ ks, (c.delete key).2 = c.without ks := by
  rw [delete_snd]
  cases hd : c.get? key with
  | none => exact ⟨[], (congrArg Prod.snd (remove_of_get?_eq_none hd)).trans (without_nil h).symm⟩
  | some d => exact ⟨[key], congrArg Prod.snd (h.remove_eq_without hd)⟩

/-- What is neither an upsert nor creates or drops an index leaves out some keys at most. -/
theorem Consistent.exists_perform_eq_without [Like.Engine] (h : c.Consistent) (a : Action)
    (hupsert : ∀ now d, a ≠ .upsert now d)
    (hadd : ∀ names unique, a ≠ .addIndex names unique) (hremove : ∀ names, a ≠ .removeIndex names) :
    ∃ ks, (c.perform a).2 = c.without ks := by
  cases a with
  | upsert now d => exact absurd rfl (hupsert now d)
  | addIndex names unique => exact absurd rfl (hadd names unique)
  | removeIndex names => exact absurd rfl (hremove names)
  | delete key => exact h.exists_delete_eq_without key
  | removeQuery text params =>
    show ∃ ks, (c.removeQuery text params).2 = c.without ks
    exact h.exists_eq_without (keepsOnFailure_removeQuery text params) fun ds hds =>
      ⟨_, ((h.removeQuery_eq text params).2 ds hds).state⟩
  | removeEqual p => exact ⟨_, (h.removeEqual_eq p).2.state⟩
  | removeOneEqual p =>
    show ∃ ks, (c.removeOneEqual p).2 = c.without ks
    exact h.exists_eq_without (keepsOnFailure_removeOneEqual p) fun d hd => ⟨_, ((h.removeOneEqual_eq p).2 d hd).state⟩
  | _ => exact ⟨[], (without_nil h).symm⟩

theorem Follows.without (h : c.Follows fields log) (hc : c.Consistent) (ks : List String) :
    (c.without ks).Follows fields log := by
  intro ix hix hfields
  obtain ⟨jx, hj, rfl⟩ := List.mem_map.mp hix
  exact (h jx hj hfields).without (hc.tracks jx hj) (c.get?_without ks)

/-! ## Actions -/

/-- An upsert fails and changes nothing, or it writes what it answers. -/
theorem upsert_eq (c : Collection) (now : Int64) (d : Document) :
    (∃ e, c.upsert now d = (.error e, c)) ∨ ∃ key new stamp, d.key = .ok key ∧
      c.upsert now d = (.ok new, ({ c with lastStamp := stamp } : Collection).write key new) := by
  rcases c.upsert_cases now d with ⟨e, -, heq⟩ | ⟨key, hkey, -, heq⟩
  · exact .inl ⟨e, heq⟩
  · obtain ⟨stamp, hadvance⟩ := c.exists_advance_eq now
    rw [hadvance] at heq
    exact .inr ⟨key, c.stamped now d, stamp, hkey, heq⟩

theorem Follows.upsert (h : c.Follows fields log) (hc : c.Consistent) (now : Int64) (d : Document) :
    (c.upsert now d).2.Follows fields (log ++ c.arrivals fields now d) := by
  rcases c.upsert_eq now d with ⟨e, he⟩ | ⟨key, new, stamp, hkey, hnew⟩
  · have hnone : c.arrivals fields now d = [] := by
      unfold arrivals
      rw [he]
      cases d.key <;> rfl
    rw [he, hnone, List.append_nil]
    exact h
  · have hone : c.arrivals fields now d = Arrival.ofWrite c.separator fields key (c.get? key) new := by
      unfold arrivals
      rw [hnew, hkey]
    rw [hnew, hone]
    intro ix hix hfields
    obtain ⟨jx, hj, rfl⟩ := List.mem_map.mp hix
    rw [descriptor_write] at hfields
    rw [get?_write, ← hfields]
    exact (h jx hj hfields).write (hc.tracks jx hj) new

/-- Dropping an index leaves the others. -/
theorem removeIndex_eq (c : Collection) (names : List String) :
    ∃ ixs, ixs.Sublist c.indexes ∧ (c.removeIndex names).2 = { c with indexes := ixs } := by
  rcases c.removeIndex_cases names with ⟨e, -, heq⟩ | ⟨fields, ixs, -, hdrop, heq⟩
  · exact ⟨c.indexes, .refl _, congrArg Prod.snd heq⟩
  · exact ⟨ixs, Index.drop_eq_ok hdrop, congrArg Prod.snd heq⟩

theorem Follows.removeIndex (h : c.Follows fields log) (names : List String) :
    (c.removeIndex names).2.Follows fields log := by
  obtain ⟨ixs, hsub, heq⟩ := c.removeIndex_eq names
  rw [heq]
  exact fun ix hix => h ix (hsub.mem hix)

/-- What is there after an index was created was there before, or it is over fields that no index was over and is filled
with the documents. -/
theorem addIndex_eq (c : Collection) (names : List String) (unique : Bool) :
    ∃ ixs, (c.addIndex names unique).2 = { c with indexes := ixs } ∧ ∀ ix ∈ ixs, ix ∈ c.indexes ∨
      ix.descriptor.fields ∉ c.indexes.map (·.descriptor.fields) ∧
        Index.backfill c.separator (.empty ix.descriptor) c.documents = .ok ix := by
  rcases c.addIndex_cases names unique with ⟨e, -, heq⟩ | ⟨fields, ixs, -, hcreate, heq⟩
  · exact ⟨c.indexes, congrArg Prod.snd heq, fun ix => Or.inl⟩
  · refine ⟨ixs, congrArg Prod.snd heq, fun ix hix => (Index.mem_of_create_eq_ok hcreate hix).imp_right ?_⟩
    rintro ⟨hdescriptor, hfilled⟩
    rw [hdescriptor]
    exact hfilled

theorem Follows.addIndex (h : c.Follows fields log) (hc : c.Consistent) (names : List String) (unique : Bool) :
    (c.addIndex names unique).2.Follows fields
      (if c.hasIndex fields.names then log else Arrival.ofScan c.separator fields c.documents) := by
  obtain ⟨ixs, heq, hixs⟩ := c.addIndex_eq names unique
  rw [heq]
  rintro ix hix rfl
  rcases hixs ix hix with hix | ⟨hnew, hb⟩
  · rw [if_pos (hasIndex_iff.mpr (List.mem_map_of_mem hix))]
    exact h ix hix rfl
  · rw [if_neg (fun hhas => hnew (hasIndex_iff.mp hhas))]
    exact Index.follows_of_backfill_empty hc.keys_nodup hb

/-- Only creating an index brings one over other fields. -/
theorem Consistent.fields_perform_subset [Like.Engine] (h : c.Consistent) {a : Action}
    (hadd : ∀ names unique, a ≠ .addIndex names unique) :
    (c.perform a).2.indexes.map (·.descriptor.fields) ⊆ c.indexes.map (·.descriptor.fields) := by
  cases a with
  | addIndex names unique => exact absurd rfl (hadd names unique)
  | upsert now d =>
    show (c.upsert now d).2.indexes.map _ ⊆ _
    rcases c.upsert_eq now d with ⟨e, he⟩ | ⟨key, new, stamp, -, hnew⟩
    · rw [he]
      exact List.Subset.refl _
    · rw [hnew]
      show (c.indexes.map (·.write c.separator key (c.get? key) new)).map _ ⊆ _
      rw [map_fields_map fun ix => descriptor_write]
      exact List.Subset.refl _
  | removeIndex names =>
    show (c.removeIndex names).2.indexes.map _ ⊆ _
    obtain ⟨ixs, hsub, heq⟩ := c.removeIndex_eq names
    rw [heq]
    exact (hsub.map _).subset
  | _ =>
    obtain ⟨ks, hks⟩ := h.exists_perform_eq_without _ (fun _ _ h => by cases h) hadd (fun _ h => by cases h)
    rw [hks, map_fields_without]
    exact List.Subset.refl _

/-- **Every action keeps the index over some fields in step with its history.** -/
theorem Follows.perform [Like.Engine] (h : c.Follows fields log) (hc : c.Consistent) (a : Action) :
    (c.perform a).2.Follows fields (c.record fields log a) := by
  rintro ix hix rfl
  have hafter : ix.descriptor.fields ∈ (c.perform a).2.indexes.map (·.descriptor.fields) := List.mem_map_of_mem hix
  unfold record
  rw [if_pos (hasIndex_iff.mpr hafter)]
  by_cases hadd : ∃ names unique, a = .addIndex names unique
  · obtain ⟨names, unique, rfl⟩ := hadd
    exact h.addIndex hc names unique ix hix rfl
  have hadd' : ∀ names unique, a ≠ .addIndex names unique := fun names unique ha => hadd ⟨names, unique, ha⟩
  rw [if_pos (hasIndex_iff.mpr (hc.fields_perform_subset hadd' hafter))]
  cases a with
  | upsert now d => exact h.upsert hc now d ix hix rfl
  | addIndex names unique => exact absurd rfl (hadd' names unique)
  | removeIndex names => exact h.removeIndex names ix hix rfl
  | _ =>
    obtain ⟨ks, hks⟩ := hc.exists_perform_eq_without _ (fun _ _ h => by cases h) hadd' (fun _ h => by cases h)
    have hfollows := h.without hc ks
    rw [← hks] at hfollows
    exact hfollows ix hix rfl

/-- **Every run keeps the index over some fields in step with its history.** -/
theorem Reachable.follows_run [Like.Engine] (hc : c.Reachable) (h : c.Follows fields log) (actions : List Action) :
    (c.run actions).Follows fields (c.history fields log actions) := by
  induction actions generalizing c log with
  | nil => exact h
  | cons a actions ih => exact ih (hc.perform a) (h.perform hc.consistent a)

end DocStore.Collection
