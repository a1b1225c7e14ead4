import DocStore.Proofs.FirstFailure
import DocStore.Proofs.Query.Equality
import Mathlib.Data.List.Forall2

/-!
# What binding a query gives

The operands of a query stand in an order: those of its conditions, then the offset and the count of its limit. Each is
a place (`Slot`) that the parameters fill with a value (`Operand.Denotes`) or with a count (`Operand.Counts`), or that
they cannot fill (`Slot.Rejects`). Binding gives the query with every place filled (`Filled`, `bind_eq_ok_iff`) or fails
as the first place that cannot be filled (`FirstRejected`, `bind_eq_error_iff`), and it reads only the parameters that
the query names (`bind_congr`).
-/

namespace DocStore.Query

variable {params params' : Document} {q : Query} {o : Operand} {e : StoreError}

/-! ## Places -/

/-- The value that an operand stands for. -/
inductive Operand.Denotes (params : Document) : Operand → Value → Prop where
  | literal (v : Value) : Denotes params (.literal v) v
  | param {name : String} {v : Value} (h : params.get? name = some v) : Denotes params (.param name) v

/-- A value that says how many: an integer, and none below zero. -/
def IsCount (v : Value) (n : Nat) : Prop := ∃ i : Int64, v = .number (.int i) ∧ i.toInt = n

/-- The count that an operand stands for. -/
def Operand.Counts (params : Document) (o : Operand) (n : Nat) : Prop := ∃ v, o.Denotes params v ∧ IsCount v n

/-- A place of a query: one for any value, or one for a count. -/
inductive Slot where
  | value (o : Operand)
  | count (o : Operand)

/-- The operand that stands at a place. -/
def Slot.operand : Slot → Operand
  | value o => o
  | count o => o

/-- The parameters fill a place. -/
inductive Slot.Accepts (params : Document) : Slot → Prop where
  | value {o : Operand} {v : Value} (h : o.Denotes params v) : Accepts params (.value o)
  | count {o : Operand} {n : Nat} (h : o.Counts params n) : Accepts params (.count o)

/-- The parameters do not fill a place: there is none of the name that stands there, or the value is no count. -/
inductive Slot.Rejects (params : Document) : Slot → StoreError → Prop where
  | unbound {s : Slot} {name : String} (hs : s.operand = .param name) (h : params.get? name = none) :
    Rejects params s (.parameterUnbound name)
  | notCount {o : Operand} {v : Value} (ho : o.Denotes params v) (h : ∀ n, ¬IsCount v n) :
    Rejects params (.count o) (.limitNotCount v)

/-- The first place that the parameters do not fill fails in this way. -/
def FirstRejected (params : Document) (slots : List Slot) (e : StoreError) : Prop :=
  FirstFailing (Slot.Accepts params) (Slot.Rejects params) slots e

/-- The offset, if it is said, and the count. -/
def Limit.operands (l : Limit) : List Operand := l.offset.toList ++ [l.count]

/-- The operands of the limit, if there is one. -/
def limitOperands (q : Query) : List Operand := q.limit.elim [] Limit.operands

/-- The places of a query in their order. -/
def slots (q : Query) : List Slot :=
  q.conditions.map (fun c => Slot.value c.operand) ++ q.limitOperands.map Slot.count

/-- The query names this parameter. -/
def Names (q : Query) (name : String) : Prop := ∃ s ∈ q.slots, s.operand = .param name

/-- A condition with the value of its operand. -/
structure Condition.Filled (params : Document) (c : Condition) (b : BoundCondition) : Prop where
  field : b.field = c.field
  op : b.op = c.op
  value : c.operand.Denotes params b.value

/-- How many documents are skipped and how many are wanted at most: none is skipped unless it is said, and there is a
most exactly when there is a limit. -/
structure LimitFilled (params : Document) (l? : Option Limit) (offset : Nat) (count : Option Nat) : Prop where
  offset : (l?.bind Limit.offset).elim (offset = 0) fun o => o.Counts params offset
  count : Option.Rel (fun l n => l.count.Counts params n) l? count

/-- The query with all its places filled. -/
structure Filled (params : Document) (q : Query) (b : Bound) : Prop where
  collection : b.collection = q.collection
  conditions : List.Forall₂ (Condition.Filled params) q.conditions b.conditions
  sort : b.sort = q.sort
  limit : LimitFilled params q.limit b.offset b.count

/-! ## One place -/

theorem Operand.Denotes.bind_eq {v : Value} (h : o.Denotes params v) : o.bind params = .ok v := by
  cases h with
  | literal => rfl
  | param h => rw [Operand.bind, h]

theorem Operand.bind_eq_unbound {name : String} (ho : o = .param name) (h : params.get? name = none) :
    o.bind params = .error (.parameterUnbound name) := by
  rw [ho, Operand.bind, h]

theorem isCount_iff {v : Value} {n : Nat} : IsCount v n ↔ ∃ i, v.int? = some i ∧ i.toInt = n := by
  unfold IsCount Value.int?
  constructor
  · rintro ⟨i, rfl, h⟩
    exact ⟨i, rfl, h⟩
  · rintro ⟨i, hv, h⟩
    split at hv
    next j =>
      cases hv
      exact ⟨i, rfl, h⟩
    next => cases hv

theorem Operand.Denotes.bindCount_eq {v : Value} (h : o.Denotes params v) :
    o.bindCount params = match v.int? with
      | some i => if 0 ≤ i.toInt then .ok i.toInt.toNat else .error (StoreError.limitNotCount v)
      | none => .error (StoreError.limitNotCount v) := by
  rw [Operand.bindCount, h.bind_eq]
  rfl

theorem Operand.Counts.bindCount_eq_ok {n : Nat} (h : o.Counts params n) : o.bindCount params = .ok n := by
  obtain ⟨v, hv, hn⟩ := h
  obtain ⟨i, hi, hin⟩ := isCount_iff.mp hn
  have hle : 0 ≤ i.toInt := by omega
  rw [hv.bindCount_eq, hi]
  dsimp only
  rw [if_pos hle, hin, Int.toNat_natCast]

theorem Operand.Denotes.bindCount_eq_error {v : Value} (ho : o.Denotes params v) (h : ∀ n, ¬IsCount v n) :
    o.bindCount params = .error (.limitNotCount v) := by
  rw [ho.bindCount_eq]
  cases hi : v.int? with
  | none => rfl
  | some i =>
    have hneg : ¬0 ≤ i.toInt := fun hle => h i.toInt.toNat (isCount_iff.mpr ⟨i, hi, (Int.toNat_of_nonneg hle).symm⟩)
    dsimp only
    rw [if_neg hneg]

theorem Slot.Rejects.bind_eq (h : (Slot.value o).Rejects params e) : o.bind params = .error e := by
  cases h with
  | unbound ho h => exact Operand.bind_eq_unbound ho h

theorem Slot.Rejects.bindCount_eq (h : (Slot.count o).Rejects params e) : o.bindCount params = .error e := by
  cases h with
  | unbound ho h =>
    have hunbound : o.bind params = _ := Operand.bind_eq_unbound ho h
    rw [Operand.bindCount, hunbound]
    rfl
  | notCount ho h => exact ho.bindCount_eq_error h

theorem Operand.denotes_or_unbound (params : Document) (o : Operand) :
    (∃ v, o.Denotes params v) ∨ ∃ name, o = .param name ∧ params.get? name = none := by
  cases o with
  | literal v => exact Or.inl ⟨v, .literal v⟩
  | param name =>
    cases h : params.get? name with
    | none => exact Or.inr ⟨name, rfl, h⟩
    | some v => exact Or.inl ⟨v, .param h⟩

/-- A place is filled or it is not, and then there is an error that says why. -/
theorem Slot.accepts_or_rejects (params : Document) (s : Slot) : s.Accepts params ∨ ∃ e, s.Rejects params e := by
  rcases s.operand.denotes_or_unbound params with ⟨v, hv⟩ | ⟨name, ho, h⟩
  · cases s with
    | value o => exact Or.inl (.value hv)
    | count o =>
      by_cases hn : ∃ n, IsCount v n
      · obtain ⟨n, hn⟩ := hn
        exact Or.inl (.count ⟨v, hv, hn⟩)
      · exact Or.inr ⟨_, .notCount hv (not_exists.mp hn)⟩
  · exact Or.inr ⟨_, .unbound ho h⟩

/-! ## The conditions -/

variable {cs : List Condition} {bs : List BoundCondition}

theorem bindConditions_of_filled (h : List.Forall₂ (Condition.Filled params) cs bs) :
    bindConditions params cs = .ok bs := by
  induction h with
  | nil => rfl
  | @cons c b cs bs hb _ ih =>
    have hcondition : c.bind params = .ok b := by
      rw [Condition.bind, hb.value.bind_eq, ← hb.field, ← hb.op]
      rfl
    rw [bindConditions, hcondition, ih]
    rfl

theorem exists_filled_conditions (h : ∀ s ∈ cs.map fun c => Slot.value c.operand, s.Accepts params) :
    ∃ bs, List.Forall₂ (Condition.Filled params) cs bs := by
  induction cs with
  | nil => exact ⟨[], .nil⟩
  | cons c cs ih =>
    obtain ⟨hc, hcs⟩ := List.forall_mem_cons.mp h
    obtain ⟨bs, hbs⟩ := ih hcs
    cases hc with
    | value hv => exact ⟨⟨c.field, c.op, _⟩ :: bs, .cons ⟨rfl, rfl, hv⟩ hbs⟩

theorem bindConditions_of_firstRejected (h : FirstRejected params (cs.map fun c => Slot.value c.operand) e) :
    bindConditions params cs = .error e := by
  induction cs with
  | nil => exact absurd h not_firstFailing_nil
  | cons c cs ih =>
    rcases firstFailing_cons.mp h with hc | ⟨hc, hcs⟩
    · rw [bindConditions, Condition.bind, hc.bind_eq]
      rfl
    · cases hc with
      | value hv =>
        rw [bindConditions, Condition.bind, hv.bind_eq, ih hcs]
        rfl

/-! ## The limit -/

theorem LimitFilled.bindLimit_eq {l? : Option Limit} {m : Nat} {n? : Option Nat} (h : LimitFilled params l? m n?) :
    bindLimit params l? = .ok (m, n?) := by
  obtain ⟨hoffset, hcount⟩ := h
  cases hcount with
  | none =>
    cases hoffset
    rfl
  | @some l n hn =>
    obtain ⟨offset?, count⟩ := l
    unfold bindLimit
    dsimp only at hn ⊢
    rw [hn.bindCount_eq_ok]
    cases offset? with
    | none =>
      cases hoffset
      rfl
    | some o =>
      have ho : o.Counts params m := hoffset
      dsimp only
      rw [ho.bindCount_eq_ok]
      rfl

theorem exists_limitFilled {l? : Option Limit} (h : ∀ s ∈ (l?.elim [] Limit.operands).map Slot.count, s.Accepts params) :
    ∃ m n?, LimitFilled params l? m n? := by
  cases l? with
  | none => exact ⟨0, none, rfl, .none⟩
  | some l =>
    obtain ⟨offset?, count⟩ := l
    have hcounts : ∀ o ∈ offset?.toList ++ [count], ∃ n, o.Counts params n := by
      intro o ho
      cases h (.count o) (List.mem_map_of_mem ho) with
      | count hn => exact ⟨_, hn⟩
    obtain ⟨n, hn⟩ := hcounts count (List.mem_append_right _ List.mem_cons_self)
    cases offset? with
    | none => exact ⟨0, some n, rfl, .some hn⟩
    | some o =>
      obtain ⟨m, hm⟩ := hcounts o List.mem_cons_self
      exact ⟨m, some n, hm, .some hn⟩

theorem bindLimit_of_firstRejected {l? : Option Limit}
    (h : FirstRejected params ((l?.elim [] Limit.operands).map Slot.count) e) : bindLimit params l? = .error e := by
  cases l? with
  | none => exact absurd h not_firstFailing_nil
  | some l =>
    obtain ⟨offset?, count⟩ := l
    unfold bindLimit
    dsimp only
    cases offset? with
    | none =>
      rcases firstFailing_cons.mp h with hn | ⟨-, hnil⟩
      · rw [hn.bindCount_eq]
        rfl
      · exact absurd hnil not_firstFailing_nil
    | some o =>
      dsimp only
      rcases firstFailing_cons.mp h with hm | ⟨hm, hrest⟩
      · rw [hm.bindCount_eq]
        rfl
      · cases hm with
        | count hm =>
          rcases firstFailing_cons.mp hrest with hn | ⟨-, hnil⟩
          · rw [hm.bindCount_eq_ok, hn.bindCount_eq]
            rfl
          · exact absurd hnil not_firstFailing_nil

/-! ## The whole query -/

theorem Filled.bind_eq {b : Bound} (h : Filled params q b) : q.bind params = .ok b := by
  rw [Query.bind, bindConditions_of_filled h.conditions, h.limit.bindLimit_eq, ← h.collection, ← h.sort]
  rfl

theorem FirstRejected.bind_eq (h : FirstRejected params q.slots e) : q.bind params = .error e := by
  rcases firstFailing_append.mp h with hconditions | ⟨hconditions, hlimit⟩
  · rw [Query.bind, bindConditions_of_firstRejected hconditions]
    rfl
  · obtain ⟨bs, hbs⟩ := exists_filled_conditions hconditions
    rw [Query.bind, bindConditions_of_filled hbs, bindLimit_of_firstRejected hlimit]
    rfl

theorem exists_filled (h : ∀ s ∈ q.slots, s.Accepts params) : ∃ b, Filled params q b := by
  obtain ⟨hconditions, hlimit⟩ := List.forall_mem_append.mp h
  obtain ⟨bs, hbs⟩ := exists_filled_conditions hconditions
  obtain ⟨m, n?, hl⟩ := exists_limitFilled hlimit
  exact ⟨⟨q.collection, bs, q.sort, m, n?⟩, rfl, hbs, rfl, hl⟩

/-- A query has all its places filled, or one is the first that is not: binding answers which. -/
theorem filled_or_firstRejected (params : Document) (q : Query) :
    (∃ b, Filled params q b) ∨ ∃ e, FirstRejected params q.slots e :=
  (accepted_or_firstFailing (Slot.accepts_or_rejects params) q.slots).imp_left exists_filled

theorem bind_eq_ok_iff {b : Bound} : q.bind params = .ok b ↔ Filled params q b :=
  eq_ok_iff_of_total (fun _ => Filled.bind_eq) (fun _ => FirstRejected.bind_eq) (filled_or_firstRejected params q)

theorem bind_eq_error_iff : q.bind params = .error e ↔ FirstRejected params q.slots e :=
  eq_error_iff_of_total (fun _ => Filled.bind_eq) (fun _ => FirstRejected.bind_eq) (filled_or_firstRejected params q)

theorem names_of_mem_conditions {c : Condition} {name : String} (hc : c ∈ q.conditions) (h : c.operand = .param name) :
    q.Names name :=
  ⟨.value c.operand, List.mem_append_left _ (List.mem_map_of_mem hc), h⟩

theorem names_of_mem_limitOperands {name : String} (ho : o ∈ q.limitOperands) (h : o = .param name) : q.Names name :=
  ⟨.count o, List.mem_append_right _ (List.mem_map_of_mem ho), h⟩

/-- All places of a query are filled exactly when the parameters that it names are there and the operands of its limit
stand for counts. -/
theorem forall_accepts_iff : (∀ s ∈ q.slots, s.Accepts params) ↔
    (∀ name, q.Names name → params.contains name = true) ∧ ∀ o ∈ q.limitOperands, ∃ n, o.Counts params n := by
  constructor
  · intro h
    constructor
    · rintro name ⟨s, hs, hname⟩
      obtain ⟨v, hv⟩ : ∃ v, s.operand.Denotes params v := by
        cases h s hs with
        | value hv => exact ⟨_, hv⟩
        | count hn => exact hn.imp fun _ => And.left
      rw [hname] at hv
      cases hv with
      | param hv => exact Option.isSome_iff_exists.mpr ⟨v, hv⟩
    · intro o ho
      cases h (.count o) (List.mem_append_right _ (List.mem_map_of_mem ho)) with
      | count hn => exact ⟨_, hn⟩
  · rintro ⟨hnames, hcounts⟩ s hs
    rcases List.mem_append.mp hs with hs | hs
    · obtain ⟨c, hc, rfl⟩ := List.mem_map.mp hs
      rcases c.operand.denotes_or_unbound params with ⟨v, hv⟩ | ⟨name, hname, hnone⟩
      · exact .value hv
      · have hsome := hnames name (names_of_mem_conditions hc hname)
        rw [Document.contains, hnone] at hsome
        cases hsome
    · obtain ⟨o, ho, rfl⟩ := List.mem_map.mp hs
      obtain ⟨n, hn⟩ := hcounts o ho
      exact .count hn

theorem bindConditions_congr (h : ∀ c ∈ cs, ∀ name, c.operand = .param name → params.get? name = params'.get? name) :
    bindConditions params cs = bindConditions params' cs := by
  induction cs with
  | nil => rfl
  | cons c cs ih =>
    obtain ⟨hc, hcs⟩ := List.forall_mem_cons.mp h
    rw [bindConditions, bindConditions, Condition.bind, Condition.bind, Operand.bind_eq_of_get? hc, ih hcs]

/-- Binding reads only the parameters that the query names. -/
theorem bind_congr (h : ∀ name, q.Names name → params.get? name = params'.get? name) :
    q.bind params = q.bind params' := by
  have hlimit : bindLimit params q.limit = bindLimit params' q.limit := by
    refine bindLimit_eq fun l hl name hname => h name ?_
    have hoperands : q.limitOperands = l.offset.toList ++ [l.count] := by
      rw [limitOperands, hl]
      rfl
    rcases hname with hoffset | hcount
    · refine names_of_mem_limitOperands (o := .param name) ?_ rfl
      rw [hoperands, hoffset]
      exact List.mem_cons_self
    · refine names_of_mem_limitOperands (o := l.count) ?_ hcount
      rw [hoperands]
      exact List.mem_append_right _ List.mem_cons_self
  rw [Query.bind, Query.bind, hlimit,
    bindConditions_congr fun c hc name hname => h name (names_of_mem_conditions hc hname)]

/-- The floating point number two. -/
def two : Value := .float ⟨0x4000000000000000⟩

/-- **Binding is substitution with a fixed order of errors.** It gives a query exactly when every parameter that the
query names is there and the operands of its limit are counts, and then the query with every place filled. Otherwise
the error is that of the first place that is not filled, conditions before the offset and the offset before the count:
that of an unbound parameter, or of a value that is no count. Parameters that the query does not name do not matter. -/
theorem bind_exact (q : Query) (params : Document) :
    ((∃ b, q.bind params = .ok b) ↔
      (∀ name, q.Names name → params.contains name = true) ∧ ∀ o ∈ q.limitOperands, ∃ n, o.Counts params n) ∧
    (∀ b, q.bind params = .ok b ↔ Filled params q b) ∧
    (∀ e, q.bind params = .error e ↔ FirstRejected params q.slots e) ∧
    (∀ (s : Slot) (e : StoreError), s.Rejects params e →
      (∃ name, s.operand = .param name ∧ e.kind = .unboundParameter ∧
        e.message = "Bind parameter @" ++ name ++ " is not bound") ∨
      (∃ v, s.operand.Denotes params v ∧ e.kind = .malformedQuery ∧
        e.message = "LIMIT expects a non-negative integer, found " ++ v.text)) ∧
    ∀ params', (∀ name, q.Names name → params.get? name = params'.get? name) → q.bind params = q.bind params' := by
  refine ⟨?_, fun b => bind_eq_ok_iff, fun e => bind_eq_error_iff, ?_, fun params' h => bind_congr h⟩
  · rw [← forall_accepts_iff]
    constructor
    · rintro ⟨b, hb⟩
      rcases accepted_or_firstFailing (Slot.accepts_or_rejects params) q.slots with h | ⟨e, he⟩
      · exact h
      · cases (FirstRejected.bind_eq he).symm.trans hb
    · intro h
      obtain ⟨b, hb⟩ := exists_filled h
      exact ⟨b, hb.bind_eq⟩
  · rintro s e (⟨hs, -⟩ | ⟨hv, -⟩)
    · exact Or.inl ⟨_, hs, rfl, rfl⟩
    · exact Or.inr ⟨_, hv, rfl, rfl⟩

/-- A missing parameter of a condition is reported before a limit that is no count, as `2.0` is none, and that before a
missing parameter that comes after it. With whole numbers in their places the query is bound. -/
theorem bind_exact_sample :
    let q (v : Value) : Query := ⟨"v", "c", [⟨"a", .eq, .param "x"⟩], [], some ⟨some (.literal v), .param "n"⟩⟩
    (q two).bind Document.empty = .error (.parameterUnbound "x") ∧
    (q two).bind (Document.empty.insert "x" .null) = .error (.limitNotCount two) ∧
    (q (.int 2)).bind ((Document.empty.insert "x" .null).insert "n" (.int 5)) =
      .ok ⟨"c", [⟨"a", .eq, .null⟩], [], 2, some 5⟩ := by
  intro q
  refine ⟨?_, ?_, ?_⟩
  · exact ((bind_exact (q two) _).2.2.1 _).mpr ⟨[], _, _, rfl, List.forall_mem_nil _, .unbound rfl rfl⟩
  · refine ((bind_exact (q two) _).2.2.1 _).mpr ⟨[_], _, _, rfl, ?_, .notCount (.literal two) ?_⟩
    · exact List.forall_mem_singleton.mpr (.value (.param rfl))
    · rintro n ⟨i, hi, -⟩
      cases hi
  · refine ((bind_exact (q (.int 2)) _).2.1 _).mpr ⟨rfl, ?_, rfl, ⟨_, .literal _, 2, rfl, rfl⟩, ?_⟩
    · exact .cons ⟨rfl, rfl, .param rfl⟩ .nil
    · exact .some ⟨_, .param rfl, 5, rfl, rfl⟩

end DocStore.Query
