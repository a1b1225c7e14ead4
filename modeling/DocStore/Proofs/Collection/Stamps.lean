import DocStore.Proofs.Collection.Contents
import DocStore.Proofs.Collection.History

/-!
# Timestamps of writes

The log of a run tells which documents were written, when, and as what they were stored (`Written`, `writes`). Where the
configuration has a timestamp field, each was stored with a stamp that is no earlier than the clock and than the stamps
before it, the last stamp is that of the last write, and every stored document is one of them (`Stamped`). A write that
goes well goes on with this (`Stamped.upsert`), everything else leaves it alone (`Stamped.perform`), and so it holds
after every run from an empty collection (`stamped_run`).
-/

namespace DocStore.Collection

variable {c : Collection} {f : String} {ws : List Written} {actions : List Action}

/-- A write that went well: what the clock said, the document given and the document stored. -/
structure Written where
  now : Int64
  given : Document
  stored : Document

/-- The write that an action was, if its reply tells that it went well. -/
def Written.ofReply? : Action × Except StoreError Reply → Option Written
  | (.upsert now d, .ok (.document stored)) => some ⟨now, d, stored⟩
  | _ => none

/-- The writes of a run that went well, in order. -/
def writes [Like.Engine] (c : Collection) (actions : List Action) : List Written :=
  (c.log actions).filterMap Written.ofReply?

/-- The writes that went well gave their documents stamps under a field: no earlier than the clock, never earlier than the
one before, the last one remembered. All stored documents came with these writes. -/
structure Stamped (f : String) (c : Collection) (ws : List Written) : Prop where
  written : ∀ w ∈ ws, ∃ i, w.stored = w.given.insert f (.int i) ∧ w.now ≤ i ∧ i ≤ c.lastStamp
  ascending : ws.Pairwise fun v w => ∀ i j, v.stored.get? f = some (.int i) → w.stored.get? f = some (.int j) → i ≤ j
  last : ∀ w, ws.getLast? = some w → w.stored.get? f = some (.int c.lastStamp)
  stored : ∀ k d, c.get? k = some d → ∃ w ∈ ws, w.given.key = .ok k ∧ w.stored = d

theorem stamped_empty (f name : String) (config : Config) : Stamped f (empty name config) [] where
  written _ h := nomatch h
  ascending := .nil
  last _ h := nomatch h
  stored _ _ h := nomatch h

/-! ## Stamps -/

theorem now_le_stampAt (c : Collection) (now : Int64) : now ≤ c.stampAt now := by
  show now ≤ if now ≤ c.lastStamp then c.lastStamp else now
  split
  · assumption
  · exact Int64.le_refl now

theorem lastStamp_le_stampAt (c : Collection) (now : Int64) : c.lastStamp ≤ c.stampAt now := by
  show c.lastStamp ≤ if now ≤ c.lastStamp then c.lastStamp else now
  split
  · exact Int64.le_refl _
  · next h => exact (Int64.le_total _ _).resolve_right h

/-- With a timestamp field an upsert fails and changes nothing, or it stores the given document with a stamp and remembers
the stamp. -/
theorem upsert_of_timestampField (hf : c.config.timestampField = some f) (now : Int64) (d : Document) :
    (∃ e, c.upsert now d = (.error e, c)) ∨ ∃ key, d.key = .ok key ∧
      c.upsert now d = (.ok (d.insert f (.int (c.stampAt now))),
        ({ c with lastStamp := c.stampAt now } : Collection).write key (d.insert f (.int (c.stampAt now)))) := by
  have hstamped : c.stamped now d = d.insert f (.int (c.stampAt now)) := by rw [stamped, hf]
  have hadvance : c.advance now = { c with lastStamp := c.stampAt now } := by rw [advance, hf]
  rcases c.upsert_cases now d with ⟨e, -, heq⟩ | ⟨key, hkey, -, heq⟩
  · exact .inl ⟨e, heq⟩
  · rw [hstamped, hadvance] at heq
    exact .inr ⟨key, hkey, heq⟩

/-! ## Actions -/

/-- What leaves the last stamp alone and stores nothing new leaves the writes as they are. -/
theorem Stamped.of_get? {c' : Collection} (h : Stamped f c ws) (hlast : c'.lastStamp = c.lastStamp)
    (hget : ∀ k d, c'.get? k = some d → c.get? k = some d) : Stamped f c' ws where
  written := hlast ▸ h.written
  ascending := h.ascending
  last := hlast ▸ h.last
  stored k d hd := h.stored k d (hget k d hd)

/-- A write that goes well is the latest from then on. -/
theorem Stamped.write (h : Stamped f c ws) (now : Int64) {d : Document} {key : String} (hd : d.key = .ok key) :
    Stamped f (({ c with lastStamp := c.stampAt now } : Collection).write key (d.insert f (.int (c.stampAt now))))
      (ws ++ [⟨now, d, d.insert f (.int (c.stampAt now))⟩]) where
  written w hw := by
    rcases List.mem_append.mp hw with hw | hw
    · obtain ⟨i, hstored, hnow, hi⟩ := h.written w hw
      exact ⟨i, hstored, hnow, Int64.le_trans hi (c.lastStamp_le_stampAt now)⟩
    · rw [List.mem_singleton.mp hw]
      exact ⟨c.stampAt now, rfl, c.now_le_stampAt now, Int64.le_refl _⟩
  ascending := by
    refine List.pairwise_append.mpr ⟨h.ascending, List.pairwise_singleton _ _, fun v hv w hw i j hi hj => ?_⟩
    obtain ⟨i', hstored, -, hle⟩ := h.written v hv
    rw [hstored, Document.get?_insert, if_pos rfl] at hi
    rw [List.mem_singleton.mp hw, Document.get?_insert, if_pos rfl] at hj
    cases hi
    cases hj
    exact Int64.le_trans hle (c.lastStamp_le_stampAt now)
  last w hw := by
    rw [List.getLast?_concat] at hw
    cases hw
    rw [Document.get?_insert, if_pos rfl]
    rfl
  stored k e he := by
    rw [get?_write, Function.update_apply] at he
    split at he
    · next hk =>
      cases he
      exact ⟨_, List.mem_append_right _ (List.mem_singleton.mpr rfl), hk ▸ hd, rfl⟩
    · obtain ⟨w, hw, hgiven⟩ := h.stored k e he
      exact ⟨w, List.mem_append_left _ hw, hgiven⟩

theorem Stamped.upsert [Like.Engine] (h : Stamped f c ws) (hf : c.config.timestampField = some f) (now : Int64)
    (d : Document) :
    Stamped f (c.perform (.upsert now d)).2
      (ws ++ (Written.ofReply? (.upsert now d, (c.perform (.upsert now d)).1)).toList) := by
  show Stamped f (c.upsert now d).2
    (ws ++ (Written.ofReply? (.upsert now d, (c.upsert now d).1.map .document)).toList)
  rcases upsert_of_timestampField hf now d with ⟨e, he⟩ | ⟨key, hkey, hok⟩
  · rw [he]
    show Stamped f c (ws ++ [])
    rw [List.append_nil]
    exact h
  · rw [hok]
    exact h.write now hkey

theorem Written.ofReply?_of_ne {a : Action} (h : ∀ now d, a ≠ .upsert now d) (r : Except StoreError Reply) :
    Written.ofReply? (a, r) = none := by
  unfold Written.ofReply?
  split
  · next he => exact absurd (Prod.mk.inj he).1 (h _ _)
  · rfl

theorem Stamped.perform_of_ne [Like.Engine] (h : Stamped f c ws) (hc : c.Consistent) (a : Action)
    (hupsert : ∀ now d, a ≠ .upsert now d)
    (hadd : ∀ names unique, a ≠ .addIndex names unique) (hremove : ∀ names, a ≠ .removeIndex names) :
    Stamped f (c.perform a).2 (ws ++ (Written.ofReply? (a, (c.perform a).1)).toList) := by
  obtain ⟨ks, hks⟩ := hc.exists_perform_eq_without a hupsert hadd hremove
  rw [Written.ofReply?_of_ne hupsert, Option.toList_none, List.append_nil, hks]
  refine h.of_get? rfl fun k d hd => ?_
  rw [get?_without] at hd
  split at hd
  · cases hd
  · exact hd

/-- **Every action goes on with the stamps.** -/
theorem Stamped.perform [Like.Engine] (h : Stamped f c ws) (hf : c.config.timestampField = some f) (hc : c.Consistent)
    (a : Action) :
    Stamped f (c.perform a).2 (ws ++ (Written.ofReply? (a, (c.perform a).1)).toList) := by
  cases a with
  | upsert now d => exact h.upsert hf now d
  | addIndex names unique =>
    obtain ⟨ixs, heq, -⟩ := c.addIndex_eq names unique
    show Stamped f (c.addIndex names unique).2 (ws ++ [])
    rw [List.append_nil, heq]
    exact h.of_get? rfl fun _ _ => id
  | removeIndex names =>
    obtain ⟨ixs, -, heq⟩ := c.removeIndex_eq names
    show Stamped f (c.removeIndex names).2 (ws ++ [])
    rw [List.append_nil, heq]
    exact h.of_get? rfl fun _ _ => id
  | _ => exact h.perform_of_ne hc _ nofun nofun nofun

/-! ## Runs -/

theorem Stamped.run [Like.Engine] (h : Stamped f c ws) (hf : c.config.timestampField = some f) (hc : c.Reachable)
    (actions : List Action) : Stamped f (c.run actions) (ws ++ c.writes actions) := by
  induction actions generalizing c ws with
  | nil =>
    show Stamped f c (ws ++ [])
    rw [List.append_nil]
    exact h
  | cons a actions ih =>
    have hnext := ih (h.perform hf hc.consistent a) ((congrArg _ (config_perform c a)).trans hf) (hc.perform a)
    have hwrites : c.writes (a :: actions) =
        (Written.ofReply? (a, (c.perform a).1)).toList ++ (c.perform a).2.writes actions := by
      unfold writes
      rw [log, List.filterMap_cons]
      cases Written.ofReply? (a, (c.perform a).1) <;> rfl
    rw [hwrites, ← List.append_assoc]
    exact hnext

/-- **Write stamps never go back.** With a timestamp field, whatever the clock says and whatever is done: each document
that was written carries an integer under the field that is no earlier than the clock and not beyond the last stamp
remembered, which is that of the last write, and in all other fields, the key among them, it is the document given. Stamps
of later writes are no earlier. A write that is refused changes nothing, the last stamp included. Every stored document is
one that was written, under its key, with a stamp not beyond the last. -/
theorem stamps_exact [Like.Engine] {settings : List Setting} {config : Config}
    (hset : Config.setAll {} settings = .ok config)
    (hf : config.timestampField = some f) (name : String) (actions : List Action) :
    let start := empty name config.freeze
    let c := start.run actions
    (∀ w ∈ start.writes actions, ∃ i, w.stored.get? f = some (.int i) ∧ w.now ≤ i ∧ i ≤ c.lastStamp ∧
      (∀ n, n ≠ f → w.stored.get? n = w.given.get? n) ∧ w.stored.get? keyField = w.given.get? keyField) ∧
    ((start.writes actions).Pairwise fun v w =>
      ∀ i j, v.stored.get? f = some (.int i) → w.stored.get? f = some (.int j) → i ≤ j) ∧
    (∀ w, (start.writes actions).getLast? = some w → w.stored.get? f = some (.int c.lastStamp)) ∧
    (∀ now d e, (c.upsert now d).1 = .error e → (c.upsert now d).2 = c) ∧
    ∀ k d, c.get? k = some d → (∃ i, d.get? f = some (.int i) ∧ i ≤ c.lastStamp) ∧
      ∃ w ∈ start.writes actions, w.given.key = .ok k ∧ w.stored = d := by
  intro start c
  have hreachable : start.Reachable := ⟨name, settings, config, [], hset, rfl⟩
  have hstamped : Stamped f c (start.writes actions) := (stamped_empty f name config.freeze).run hf hreachable actions
  have hkey : keyField ≠ f := fun he => Config.timestampField_ne_keyField hset (he ▸ hf)
  refine ⟨fun w hw => ?_, hstamped.ascending, hstamped.last, fun now d e he => ?_, fun k d hd => ?_⟩
  · obtain ⟨i, hstored, hnow, hi⟩ := hstamped.written w hw
    have hother (n : String) (hn : n ≠ f) : w.stored.get? n = w.given.get? n := by
      rw [hstored, Document.get?_insert, if_neg hn]
    refine ⟨i, ?_, hnow, hi, hother, hother keyField hkey⟩
    rw [hstored, Document.get?_insert, if_pos rfl]
  · rcases c.upsert_eq now d with ⟨e', he'⟩ | ⟨key, new, stamp, -, hok⟩
    · rw [he']
    · rw [hok] at he
      cases he
  · obtain ⟨w, hw, hgiven, rfl⟩ := hstamped.stored k d hd
    obtain ⟨i, hstored, -, hi⟩ := hstamped.written w hw
    refine ⟨⟨i, ?_, hi⟩, w, hw, hgiven, rfl⟩
    rw [hstored, Document.get?_insert, if_pos rfl]

open Like.Sized

/-- In the sample the clock goes back from five to three and four: all four writes have the stamp five, and it is the one
remembered. -/
theorem stamps_exact_sample :
    Config.setAll {} [.timestampField "at"] = .ok { timestampField := some "at" } ∧
    ((empty "sample" (Config.freeze { timestampField := some "at" })).writes sampleActions).map (·.now) = [5, 3, 4, 4] ∧
    (∀ w ∈ (empty "sample" (Config.freeze { timestampField := some "at" })).writes sampleActions,
      ∃ i, w.stored.get? "at" = some (.int i) ∧ w.now ≤ i ∧ i ≤ sample.lastStamp) ∧
    sample.lastStamp = 5 := by
  have hset : Config.setAll {} [.timestampField "at"] = .ok { timestampField := some "at" } := rfl
  refine ⟨hset, by decide +kernel, fun w hw => ?_, by decide +kernel⟩
  obtain ⟨i, hi, hnow, hle, -⟩ := (stamps_exact hset rfl "sample" sampleActions).1 w hw
  exact ⟨i, hi, hnow, hle⟩

end DocStore.Collection
