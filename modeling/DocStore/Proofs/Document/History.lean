import DocStore.Proofs.Document.Map
import Mathlib.Data.List.Induction

/-!
# Documents and their histories

The history of a document lists what was set and removed in it, the earliest first. A document that is put together from
entries starts a new history with them, and a copy goes on with the history of its source (`record`). Every action keeps
that a document follows its history (`follows_perform`): what is read under a name is what the last change of that name
left there. So after every run the documents are the finite maps given by their own histories (`follows_run`), and
documents in other places never show in them (`run_append_of_place_ne`). Two documents are the same when the last changes in
their histories are, however they were put together (`Follows.unique`).
-/

namespace DocStore.Document

/-- That a name was given a value, or was left without one. -/
structure Change where
  name : String
  value : Option Value

variable {ι : Type} {log : List Change} {c : Change} {d : Document} {name : String} {v : Value} {value : Option Value}

/-! ## The last change of a name -/

/-- What the last change of a name left there. -/
def LastChange (log : List Change) (name : String) (value : Option Value) : Prop :=
  ∃ earlier later, log = earlier ++ ⟨name, value⟩ :: later ∧ ∀ c ∈ later, c.name ≠ name

theorem not_lastChange_nil : ¬ LastChange [] name value := by
  rintro ⟨earlier, later, heq, -⟩
  exact List.append_ne_nil_of_right_ne_nil earlier (List.cons_ne_nil _ later) heq.symm

/-- A change is the last one of its name, and of the other names the last ones stay. -/
theorem lastChange_concat :
    LastChange (log ++ [c]) name value ↔ if c.name = name then c.value = value else LastChange log name value := by
  constructor
  · rintro ⟨earlier, later, heq, hlater⟩
    induction later using List.reverseRecOn with
    | nil =>
      obtain ⟨-, hc⟩ := List.append_inj' heq rfl
      obtain rfl := List.singleton_inj.mp hc
      exact if_pos rfl ▸ rfl
    | append_singleton later x =>
      have hsplit : log ++ [c] = (earlier ++ ⟨name, value⟩ :: later) ++ [x] := by
        rw [heq, List.append_assoc, List.cons_append]
      obtain ⟨hlog, hx⟩ := List.append_inj' hsplit rfl
      obtain rfl : c = x := List.singleton_inj.mp hx
      rw [if_neg (hlater c (List.mem_append_right _ (List.mem_singleton_self c)))]
      exact ⟨earlier, later, hlog, fun y hy => hlater y (List.mem_append_left _ hy)⟩
  · intro h
    split at h
    · next hname =>
      subst hname h
      exact ⟨log, [], rfl, nofun⟩
    · next hname =>
      obtain ⟨earlier, later, rfl, hlater⟩ := h
      refine ⟨earlier, later ++ [c], by rw [List.append_assoc, List.cons_append], fun x hx => ?_⟩
      rcases List.mem_append.mp hx with hx | hx
      · exact hlater x hx
      · exact List.mem_singleton.mp hx ▸ hname

/-! ## Following a history -/

/-- Under every name there is what its last change left there. -/
def Follows (d : Document) (log : List Change) : Prop :=
  ∀ name v, d.get? name = some v ↔ LastChange log name (some v)

/-- Histories with the same last values give one document. -/
theorem Follows.unique {e : Document} {log' : List Change} (hd : d.Follows log) (he : e.Follows log')
    (h : ∀ name v, LastChange log name (some v) ↔ LastChange log' name (some v)) : d = e :=
  ext_get? fun name => Option.ext fun v => by rw [hd, he, h]

theorem follows_empty : empty.Follows [] := fun _ _ => ⟨nofun, fun h => absurd h not_lastChange_nil⟩

theorem Follows.insert (h : d.Follows log) (name : String) (v : Value) :
    (d.insert name v).Follows (log ++ [⟨name, some v⟩]) := by
  intro n w
  rw [get?_insert, lastChange_concat]
  by_cases hn : n = name
  · rw [if_pos hn, if_pos hn.symm]
  · rw [if_neg hn, if_neg (Ne.symm hn), h]

theorem Follows.erase (h : d.Follows log) (name : String) : (d.erase name).Follows (log ++ [⟨name, none⟩]) := by
  intro n w
  rw [get?_erase, lastChange_concat]
  by_cases hn : n = name
  · rw [if_pos hn, if_pos hn.symm]
  · rw [if_neg hn, if_neg (Ne.symm hn), h]

/-- The changes that put entries together. -/
def changes (es : List (String × Value)) : List Change := es.map fun e => ⟨e.1, some e.2⟩

theorem Follows.insertAll (h : d.Follows log) (es : List (String × Value)) :
    (es.foldl (fun d e => d.insert e.1 e.2) d).Follows (log ++ changes es) := by
  induction es generalizing d log with
  | nil =>
    rw [changes, List.map_nil, List.append_nil]
    exact h
  | cons e es ih =>
    have hes := ih (h.insert e.1 e.2)
    rwa [List.append_assoc] at hes

theorem follows_ofList (es : List (String × Value)) : (ofList es).Follows (changes es) := follows_empty.insertAll es

/-! ## Histories of a run -/

variable [DecidableEq ι] {ds : ι → Document} {logs : ι → List Change} {i : ι}

/-- An empty name is refused, and nothing changes. -/
theorem perform_put_empty : perform ds (.put i "" v) = (.error .fieldNameEmpty, ds) := by
  rw [perform, put, if_pos rfl]

theorem perform_put (h : name ≠ "") :
    perform ds (.put i name v) = (.ok none, Function.update ds i ((ds i).insert name v)) := by
  rw [perform, put, if_neg h]

/-- The histories after an action. An empty name changes nothing. -/
def record (logs : ι → List Change) : Action ι → ι → List Change
  | .put i name v => if name = "" then logs else Function.update logs i (logs i ++ [⟨name, some v⟩])
  | .remove i name => Function.update logs i (logs i ++ [⟨name, none⟩])
  | .collect i es => Function.update logs i (changes es)
  | .convert i m => Function.update logs i (changes m.toList)
  | .copy i j => Function.update logs i (logs j)

/-- The history of the document in every place after some actions. -/
def histories (actions : List (Action ι)) : ι → List Change := actions.foldl record fun _ => []

theorem follows_update (h : ∀ j, (ds j).Follows (logs j)) (hd : d.Follows log) (j : ι) :
    (Function.update ds i d j).Follows (Function.update logs i log j) := by
  by_cases hj : j = i
  · subst hj
    rwa [Function.update_self, Function.update_self]
  · rw [Function.update_of_ne hj, Function.update_of_ne hj]
    exact h j

/-- Every action keeps that all documents follow their histories. -/
theorem follows_perform (h : ∀ j, (ds j).Follows (logs j)) (a : Action ι) (j : ι) :
    ((perform ds a).2 j).Follows (record logs a j) := by
  cases a with
  | put i name v =>
    by_cases hname : name = ""
    · subst hname
      rw [perform_put_empty, record, if_pos rfl]
      exact h j
    · rw [perform_put hname, record, if_neg hname]
      exact follows_update h ((h i).insert name v) j
  | remove i name => exact follows_update h ((h i).erase name) j
  | collect i es => exact follows_update h (follows_ofList es) j
  | convert i m => exact follows_update h (follows_ofList m.toList) j
  | copy i k => exact follows_update h (h k) j

theorem run_concat (actions : List (Action ι)) (a : Action ι) :
    run (actions ++ [a]) = (perform (run actions) a).2 := by
  rw [run, run, List.foldl_concat]

/-- After every run all documents follow their histories. -/
theorem follows_run (actions : List (Action ι)) (j : ι) : (run actions j).Follows (histories actions j) := by
  induction actions using List.reverseRecOn generalizing j with
  | nil => exact follows_empty
  | append_singleton actions a ih =>
    rw [run_concat, histories, List.foldl_concat]
    exact follows_perform ih a j

/-! ## Independence -/

theorem perform_of_place_ne {a : Action ι} (h : a.place ≠ i) : (perform ds a).2 i = ds i := by
  cases a with
  | put j name v =>
    by_cases hname : name = ""
    · rw [hname, perform_put_empty]
    · rw [perform_put hname]
      exact Function.update_of_ne (Ne.symm h) ..
  | remove j name => exact Function.update_of_ne (Ne.symm h) ..
  | collect j es => exact Function.update_of_ne (Ne.symm h) ..
  | convert j m => exact Function.update_of_ne (Ne.symm h) ..
  | copy j k => exact Function.update_of_ne (Ne.symm h) ..

/-- Actions in other places leave a document as it is. -/
theorem run_append_of_place_ne (actions : List (Action ι)) {later : List (Action ι)} (h : ∀ a ∈ later, a.place ≠ i) :
    run (actions ++ later) i = run actions i := by
  induction later using List.reverseRecOn with
  | nil => rw [List.append_nil]
  | append_singleton later a ih =>
    have ha : a.place ≠ i := h a (List.mem_append_right _ (List.mem_singleton_self a))
    rw [← List.append_assoc, run_concat, perform_of_place_ne ha]
    exact ih fun x hx => h x (List.mem_append_left _ hx)

/-! ## What is listed -/

/-- The text of a document has its entries in the order of their names. -/
theorem toList_text (d : Document) : d.text.toList = '\x7b' :: Json.joined '\x7d' (d.entries.map Json.entryChars) := by
  rw [text, Value.text, String.toList_ofList, toValue, Json.chars_document]

/-- A document is the finite map of a history and lists its fields in strictly increasing order of the code points of
their names. -/
structure IsMapOf (d : Document) (log : List Change) : Prop where
  get? : ∀ name v, d.get? name = some v ↔ LastChange log name (some v)
  entries : ∀ name v, (name, v) ∈ d.entries ↔ LastChange log name (some v)
  names : d.names = d.entries.map (·.1)
  increasing : d.names.Pairwise fun m n => m.toList < n.toList
  size : d.size = d.names.length
  toMap : d.toMap.toList = d.entries
  text : d.text.toList = '\x7b' :: Json.joined '\x7d' (d.entries.map Json.entryChars)

theorem Follows.isMapOf (h : d.Follows log) : d.IsMapOf log where
  get? := h
  entries name v := get?_eq_some_iff.symm.trans (h name v)
  names := rfl
  increasing := List.pairwise_map.mpr d.sorted
  size := (List.length_map _).symm
  toMap := toList_toMap d
  text := toList_text d

/-! ## Documents are extensional finite maps -/

/-- **Every document is the finite map that its own history gives.** After every run of actions on documents in any
number of places: setting a field fails for the empty name alone, and then nothing changes; removing a field gives the
value that was there or none; what is done in other places does not show in a document, also when one is a copy of the
other; the document of a finite map reads as that map, and the document of its own finite map is the same; histories with
the same last values give one document; and two documents are equal in their order exactly when they have equal values
under the same names. -/
theorem maps_exact (actions : List (Action ι)) (i : ι) :
    (run actions i).IsMapOf (histories actions i) ∧
    (∀ v, perform (run actions) (.put i "" v) = (.error .fieldNameEmpty, run actions)) ∧
    StoreError.fieldNameEmpty.kind = .invalidOperation ∧
    (∀ name v, name ≠ "" → (perform (run actions) (.put i name v)).1 = .ok none) ∧
    (∀ name, ∃ removed?, (perform (run actions) (.remove i name)).1 = .ok removed? ∧
      ∀ v, removed? = some v ↔ LastChange (histories actions i) name (some v)) ∧
    (∀ j later, (∀ a ∈ later, a.place ≠ i) → run (actions ++ .copy i j :: later) i = run actions j) ∧
    (∀ j later, j ≠ i → (∀ a ∈ later, a.place ≠ i) → run (actions ++ .copy j i :: later) i = run actions i) ∧
    (∀ m name, (run (actions ++ [.convert i m]) i).get? name = m[name]?) ∧
    ofMap (run actions i).toMap = run actions i ∧
    (∀ j, (∀ name v, LastChange (histories actions i) name (some v) ↔ LastChange (histories actions j) name (some v)) →
      run actions i = run actions j) ∧
    (∀ j, compare (run actions i) (run actions j) = .eq ↔
      ∀ name, Option.Rel (fun v w => (v == w) = true) ((run actions i).get? name) ((run actions j).get? name)) := by
  have hfollows := follows_run actions i
  refine ⟨hfollows.isMapOf, fun v => perform_put_empty, rfl, fun name v hname => congrArg Prod.fst (perform_put hname),
    fun name => ⟨_, rfl, hfollows name⟩, ?_, ?_, ?_, ofMap_toMap _, fun j => hfollows.unique (follows_run actions j),
    fun j => compare_eq_iff_get?⟩
  · intro j later hlater
    rw [← List.singleton_append, ← List.append_assoc, run_append_of_place_ne _ hlater, run_concat]
    exact Function.update_self ..
  · intro j later hj hlater
    rw [← List.singleton_append, ← List.append_assoc, run_append_of_place_ne _ hlater, run_concat]
    exact Function.update_of_ne (Ne.symm hj) ..
  · intro m name
    have hconverted : run (actions ++ [.convert i m]) i = ofMap m := by
      rw [run_concat]
      exact Function.update_self ..
    rw [hconverted, get?_ofMap]

/-- Two documents with the same fields, put together in different ways. -/
def sampleActions : List (Action Nat) :=
  [.collect 0 [("b", .int 1), ("a", .int 2), ("b", .int 3)], .put 0 "c" .null, .remove 0 "c", .put 1 "a" (.int 2),
    .copy 2 1, .put 1 "b" (.int 3), .put 1 "" .null]

theorem lastChange_sampleActions (name : String) (v : Value) :
    LastChange (histories sampleActions 0) name (some v) ↔ LastChange (histories sampleActions 1) name (some v) := by
  have hcollected : histories sampleActions 0 = [] ++ [⟨"b", some (.int 1)⟩] ++ [⟨"a", some (.int 2)⟩] ++
      [⟨"b", some (.int 3)⟩] ++ [⟨"c", some .null⟩] ++ [⟨"c", none⟩] := rfl
  have hput : histories sampleActions 1 = [] ++ [⟨"a", some (.int 2)⟩] ++ [⟨"b", some (.int 3)⟩] := rfl
  rw [hcollected, hput]
  simp only [lastChange_concat, not_lastChange_nil]
  grind

theorem maps_exact_sample :
    ("b" ≠ "" ∧ (perform (run sampleActions) (.put 2 "b" .null)).1 = .ok none) ∧
    ((∀ a ∈ [Action.remove 1 "b"], a.place ≠ 2) ∧
      run (sampleActions ++ .copy 2 1 :: [.remove 1 "b"]) 2 = run sampleActions 1) ∧
    (2 ≠ 1 ∧ (∀ a ∈ [Action.put 2 "b" .null], a.place ≠ 1) ∧
      run (sampleActions ++ .copy 2 1 :: [.put 2 "b" .null]) 1 = run sampleActions 1) ∧
    (∀ name v, LastChange (histories sampleActions 0) name (some v) ↔
      LastChange (histories sampleActions 1) name (some v)) ∧
    run sampleActions 0 = run sampleActions 1 := by
  have hb : "b" ≠ "" := by decide
  have hremove : ∀ a ∈ [Action.remove 1 "b"], a.place ≠ 2 := by simp [Action.place]
  have hput : ∀ a ∈ [Action.put 2 "b" .null], a.place ≠ 1 := by simp [Action.place]
  obtain ⟨-, -, -, -, -, -, -, -, -, hsame, -⟩ := maps_exact sampleActions 0
  obtain ⟨-, -, -, -, -, -, hsource, -⟩ := maps_exact sampleActions 1
  obtain ⟨-, -, -, hok, -, hcopy, -⟩ := maps_exact sampleActions 2
  exact ⟨⟨hb, hok "b" .null hb⟩, ⟨hremove, hcopy 1 _ hremove⟩, ⟨by decide, hput, hsource 2 _ (by decide) hput⟩,
    lastChange_sampleActions, hsame 1 lastChange_sampleActions⟩

end DocStore.Document
