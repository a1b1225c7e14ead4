import DocStore.Collection.Iteration
import DocStore.Proofs.Collection.Equality

/-!
# Iterating over keys

One step of an iteration takes keys from the front up to the first one that is stored at that moment (`Takes`,
`takes_nextOf`). What the steps give, in whatever collections they are taken, are documents with some of the keys in
their order (`Delivers`, `Takes.delivers`, `Delivers.trans`). A callback is driven by such steps, each in the state that
the call before has left (`Drives`, `drives_forEach`); two callbacks that keep two states related are driven side by
side (`rel_forEach`).
-/

namespace DocStore.Collection

variable {c : Collection} {predicate : Document} {k : String} {keys mid left left' : List String}
  {d? : Option Document} {d : Document} {ds ds' : List Document}

/-! ## The keys of the matches -/

theorem Consistent.nodup_equalKeys (h : c.Consistent) (predicate : Document) : (c.equalKeys predicate).Nodup :=
  (h.nodup_of_subperm (h.equalMatches_subperm predicate)).1

theorem Consistent.mem_equalKeys_iff (h : c.Consistent) :
    k ∈ c.equalKeys predicate ↔ ∃ d, c.get? k = some d ∧ predicate.satisfies c.separator d = true := by
  simp only [equalKeys, List.mem_map, (h.equalMatches_perm predicate).mem_iff, List.mem_filter,
    get?_eq_some_iff h.keys_nodup]
  constructor
  · rintro ⟨e, ⟨he, hs⟩, rfl⟩
    exact ⟨e.2, he, hs⟩
  · rintro ⟨d, hd, hs⟩
    exact ⟨(k, d), ⟨hd, hs⟩, rfl⟩

/-! ## Steps -/

/-- A step over some keys in a collection. Keys that are not stored are skipped; the document that is stored under the
first other key comes, and the keys after it are left. When no key is stored, nothing comes and no key is left. -/
inductive Takes (c : Collection) : List String → Option Document → List String → Prop
  | found (skipped : List String) {k : String} {left : List String} {d : Document} :
      (∀ m ∈ skipped, c.get? m = none) → c.get? k = some d → Takes c (skipped ++ k :: left) (some d) left
  | exhausted {keys : List String} : (∀ m ∈ keys, c.get? m = none) → Takes c keys none []

theorem Takes.skip (hk : c.get? k = none) (h : c.Takes keys d? left) : c.Takes (k :: keys) d? left := by
  cases h with
  | found skipped hskipped hd => exact .found (k :: _) (List.forall_mem_cons.mpr ⟨hk, hskipped⟩) hd
  | exhausted hkeys => exact .exhausted (List.forall_mem_cons.mpr ⟨hk, hkeys⟩)

theorem takes_nextOf (c : Collection) (keys : List String) : c.Takes keys (c.nextOf keys).1 (c.nextOf keys).2 := by
  induction keys with
  | nil => exact .exhausted (by simp)
  | cons k keys ih =>
    unfold nextOf
    split
    · next d hd => exact .found [] (by simp) hd
    · next hk => exact ih.skip hk

/-! ## What steps give -/

/-- Keys were taken from the front until some were left, and the documents that came have some of those keys in their
order. -/
def Delivers (keys : List String) (ds : List Document) (left : List String) : Prop :=
  ∃ taken given : List String, keys = taken ++ left ∧ given.Sublist taken ∧ ds.map Document.key = given.map .ok

namespace Delivers

theorem refl (keys : List String) : Delivers keys [] keys := ⟨[], [], rfl, .slnil, rfl⟩

theorem trans (h : Delivers keys ds mid) (h' : Delivers mid ds' left) : Delivers keys (ds ++ ds') left := by
  obtain ⟨taken, given, rfl, hsub, hkeys⟩ := h
  obtain ⟨taken', given', rfl, hsub', hkeys'⟩ := h'
  refine ⟨taken ++ taken', given ++ given', (List.append_assoc ..).symm, hsub.append hsub', ?_⟩
  rw [List.map_append, List.map_append, hkeys, hkeys']

/-- No more documents come than there are keys. -/
theorem length_le (h : Delivers keys ds left) : ds.length ≤ keys.length := by
  obtain ⟨taken, given, rfl, hsub, hkeys⟩ := h
  have hlen : ds.length = given.length := by simpa using congrArg List.length hkeys
  have := hsub.length_le
  rw [List.length_append]
  omega

theorem left_eq_nil (h : Delivers [] ds left) : left = [] := by
  obtain ⟨taken, given, hnil, -, -⟩ := h
  exact (List.append_eq_nil_iff.mp hnil.symm).2

/-- Different keys give documents with different keys. -/
theorem nodup (h : Delivers keys ds left) (hkeys : keys.Nodup) : (ds.map Document.key).Nodup := by
  obtain ⟨taken, given, rfl, hsub, hds⟩ := h
  rw [hds]
  exact (hsub.nodup (List.nodup_append.mp hkeys).1).map fun _ _ he => Except.ok.inj he

end Delivers

/-- A step gives a document with the key under which it is stored. -/
theorem Takes.delivers (h : c.Takes keys d? left) (hc : c.Consistent) : Delivers keys d?.toList left := by
  cases h with
  | @found skipped k left d _ hd =>
    have hkey : d.key = .ok k := hc.key_eq (k, d) ((get?_eq_some_iff hc.keys_nodup).mp hd)
    refine ⟨skipped ++ [k], [k], by simp, List.sublist_append_right .., ?_⟩
    rw [Option.toList_some, List.map_singleton, List.map_singleton, hkey]
  | exhausted => exact ⟨keys, [], (List.append_nil keys).symm, List.nil_sublist _, rfl⟩

/-! ## Callbacks -/

section ForEach

variable {σ : Type} {view : σ → Collection} {callback : Document → σ → Value × σ} {s s' : σ}

/-- A callback is called for the documents that steps over some keys give, each step in the state that the last call has
left, until no key is stored or right after the first truthy answer. -/
inductive Drives (view : σ → Collection) (callback : Document → σ → Value × σ) :
    List String → σ → List Document → σ → Prop
  | exhausted {keys left : List String} {s : σ} : (view s).Takes keys none left → Drives view callback keys s [] s
  | stop {keys left : List String} {s : σ} {d : Document} : (view s).Takes keys (some d) left →
      (callback d s).1.isTruthy = true → Drives view callback keys s [d] (callback d s).2
  | go {keys left : List String} {s s' : σ} {d : Document} {ds : List Document} : (view s).Takes keys (some d) left →
      (callback d s).1.isTruthy = false → Drives view callback left (callback d s).2 ds s' →
      Drives view callback keys s (d :: ds) s'

theorem Drives.skip (hk : (view s).get? k = none) (h : Drives view callback keys s ds s') :
    Drives view callback (k :: keys) s ds s' := by
  cases h with
  | exhausted ht => exact .exhausted (ht.skip hk)
  | stop ht hv => exact .stop (ht.skip hk) hv
  | go ht hv h => exact .go (ht.skip hk) hv h

theorem drives_forEach (keys : List String) (s : σ) :
    Drives view callback keys s (forEach view callback keys s).1 (forEach view callback keys s).2 := by
  induction keys generalizing s with
  | nil => exact .exhausted (.exhausted (by simp))
  | cons k keys ih =>
    unfold forEach
    split
    · next hk => exact (ih s).skip hk
    · next d hd =>
      have ht : (view s).Takes (k :: keys) (some d) keys := .found [] (by simp) hd
      cases hv : (callback d s).1.isTruthy with
      | true => simpa [hv] using Drives.stop ht hv
      | false => simpa [hv] using Drives.go ht hv (ih _)

/-- Where the callback keeps the collection in view consistent, the documents of the calls have some of the keys in
their order. -/
theorem Drives.delivers (inv : σ → Prop) (hview : ∀ s, inv s → (view s).Consistent)
    (hcall : ∀ d s, inv s → inv (callback d s).2) (h : Drives view callback keys s ds s') (hs : inv s) :
    ∃ left, Delivers keys ds left := by
  induction h with
  | exhausted ht => exact ⟨_, ht.delivers (hview _ hs)⟩
  | stop ht _ => exact ⟨_, ht.delivers (hview _ hs)⟩
  | go ht _ _ ih =>
    obtain ⟨left, hleft⟩ := ih (hcall _ _ hs)
    exact ⟨left, (ht.delivers (hview _ hs)).trans hleft⟩

/-- What holds between every state and the one after a call holds between the first and the last state. -/
theorem Drives.induction {r : σ → σ → Prop} (hrefl : ∀ s, r s s) (htrans : ∀ s s' s'', r s s' → r s' s'' → r s s'')
    (hcall : ∀ d s, r s (callback d s).2) (h : Drives view callback keys s ds s') : r s s' := by
  induction h with
  | exhausted _ => exact hrefl _
  | stop _ _ => exact hcall _ _
  | go _ _ _ ih => exact htrans _ _ _ (hcall _ _) ih

/-- Two iterations over the same keys go side by side: as long as the states are related, the documents of the calls are
related too, and so are the last states. -/
theorem rel_forEach {τ : Type} {view' : τ → Collection} {callback' : Document → τ → Value × τ}
    {D : Document → Document → Prop} {R : σ → τ → Prop}
    (hget : ∀ s t, R s t → ∀ k, Option.Rel D ((view s).get? k) ((view' t).get? k))
    (hcall : ∀ d e s t, D d e → R s t →
      (callback d s).1.isTruthy = (callback' e t).1.isTruthy ∧ R (callback d s).2 (callback' e t).2)
    (keys : List String) (s : σ) (t : τ) (h : R s t) :
    List.Forall₂ D (forEach view callback keys s).1 (forEach view' callback' keys t).1 ∧
      R (forEach view callback keys s).2 (forEach view' callback' keys t).2 := by
  induction keys generalizing s t with
  | nil => exact ⟨.nil, h⟩
  | cons k keys ih =>
    have hk := hget s t h k
    unfold forEach
    generalize (view s).get? k = d? at hk ⊢
    generalize (view' t).get? k = e? at hk ⊢
    cases hk with
    | none => exact ih s t h
    | @some d e hde =>
      obtain ⟨hverdict, hnext⟩ := hcall d e s t hde h
      obtain ⟨hrest, hlast⟩ := ih _ _ hnext
      dsimp only
      rw [hverdict]
      split
      · exact ⟨.cons hde .nil, hnext⟩
      · exact ⟨.cons hde hrest, hlast⟩

end ForEach

end DocStore.Collection
