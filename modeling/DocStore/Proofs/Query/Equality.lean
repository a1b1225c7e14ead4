import DocStore.Proofs.Document.Equality

/-!
# Queries with equal parameters

A query is bound alike with two lots of parameters when those that its conditions name are equal and those that its
limit names are the same (`ParamsAlike`, `outcome_bind`).
-/

namespace DocStore.Query

variable {params params' : Document} {q : Query}

/-- Parameters that are equal where a condition names them and the same where the limit does. -/
structure ParamsAlike (q : Query) (params params' : Document) : Prop where
  conditions : ∀ c ∈ q.conditions, ∀ name, c.operand = .param name →
    Option.Rel Same (params.get? name) (params'.get? name)
  limit : ∀ l, q.limit = some l → ∀ name, l.offset = some (.param name) ∨ l.count = .param name →
    params.get? name = params'.get? name

/-- Parameters that are alike for the query that a text spells, if it spells one. -/
def TextParamsAlike (separator text : String) (params params' : Document) : Prop :=
  ∀ q, Query.parse text separator = .ok q → q.ParamsAlike params params'

/-- Bound queries with equal values in their conditions, and the same in everything else. -/
structure Bound.Alike (b b' : Bound) : Prop where
  collection : b.collection = b'.collection
  conditions : List.Forall₂ BoundCondition.Alike b.conditions b'.conditions
  sort : b.sort = b'.sort
  offset : b.offset = b'.offset
  count : b.count = b'.count

theorem outcome_operand {o : Operand}
    (h : ∀ name, o = .param name → Option.Rel Same (params.get? name) (params'.get? name)) :
    Outcome Same (o.bind params) (o.bind params') := by
  cases o with
  | literal v => exact .ok BEq.rfl
  | param name =>
    have hget := h name rfl
    unfold Operand.bind
    dsimp only
    generalize params.get? name = a at hget ⊢
    generalize params'.get? name = b at hget ⊢
    cases hget with
    | none => exact .error rfl
    | some hvw => exact .ok hvw

theorem outcome_bindConditions {cs : List Condition}
    (h : ∀ c ∈ cs, ∀ name, c.operand = .param name → Option.Rel Same (params.get? name) (params'.get? name)) :
    Outcome (List.Forall₂ BoundCondition.Alike) (bindConditions params cs) (bindConditions params' cs) := by
  induction cs with
  | nil => exact .ok .nil
  | cons c cs ih =>
    obtain ⟨hc, hcs⟩ := List.forall_mem_cons.mp h
    have hcondition : Outcome BoundCondition.Alike (c.bind params) (c.bind params') :=
      (outcome_operand hc).bind fun v w hvw => .ok ⟨rfl, rfl, hvw⟩
    exact hcondition.bind fun b b' hb => (ih hcs).bind fun bs bs' hbs => .ok (.cons hb hbs)

theorem Operand.bind_eq_of_get? {o : Operand} (h : ∀ name, o = .param name → params.get? name = params'.get? name) :
    o.bind params = o.bind params' := by
  cases o with
  | literal v => rfl
  | param name =>
    unfold Operand.bind
    dsimp only
    rw [h name rfl]

theorem bindCount_eq {o : Operand} (h : ∀ name, o = .param name → params.get? name = params'.get? name) :
    o.bindCount params = o.bindCount params' := by
  unfold Operand.bindCount
  rw [Operand.bind_eq_of_get? h]

theorem bindLimit_eq {l? : Option Limit}
    (h : ∀ l, l? = some l → ∀ name, l.offset = some (.param name) ∨ l.count = .param name →
      params.get? name = params'.get? name) :
    bindLimit params l? = bindLimit params' l? := by
  cases l? with
  | none => rfl
  | some l =>
    have hcount : l.count.bindCount params = l.count.bindCount params' :=
      bindCount_eq fun name hname => h l rfl name (Or.inr hname)
    have hoffset (o : Operand) (ho : l.offset = some o) : o.bindCount params = o.bindCount params' :=
      bindCount_eq fun name hname => h l rfl name (Or.inl (hname ▸ ho))
    unfold bindLimit
    dsimp only
    rw [hcount]
    cases ho : l.offset with
    | none => rfl
    | some o =>
      dsimp only
      rw [hoffset o ho]

/-- With equal parameters for its conditions a query is bound alike. -/
theorem outcome_bind (h : q.ParamsAlike params params') : Outcome Bound.Alike (q.bind params) (q.bind params') := by
  unfold Query.bind
  rw [bindLimit_eq h.limit]
  refine (outcome_bindConditions h.conditions).bind fun bs bs' hbs => ?_
  cases bindLimit params' q.limit with
  | error e => exact .error rfl
  | ok l => exact .ok ⟨rfl, hbs, rfl, rfl, rfl⟩

end DocStore.Query
