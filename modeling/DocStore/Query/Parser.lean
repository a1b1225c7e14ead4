import DocStore.Query.Lexer
import DocStore.Query.Syntax

/-!
# Reading queries

`Query.parse` reads a text of the form

    FOR v IN c { FILTER cond { && cond } } [ SORT path [ASC|DESC] { , path [ASC|DESC] } ]
      [ LIMIT [operand ,] operand ] RETURN v

where `AND` may stand for `&&`, a path is the loop variable with one or more field names after points, and a condition
has its path on either side: the operator is mirrored when the operand comes first. A condition starts with its path
exactly when it starts with the loop variable and a point, which two tokens decide, so no word has to be reserved.

Every reading function takes tokens off the front of a sequence. None of them puts any back (`suffix_readCondition`,
`suffix_readSortKey`), which is why the repeated parts come to an end.
-/

namespace DocStore.Query

/-- A reading of something at the front of a token sequence, with the tokens after it. -/
abbrev Reading (α : Type) := List Token → Except SyntaxError (α × List Token)

/-! ## Words and keywords -/

/-- The tokens after a keyword. -/
def expectKeyword (k : Keyword) : List Token → Except SyntaxError (List Token)
  | [] => .error (.expected (.keyword k) none)
  | t :: ts => if t.isKeyword k then .ok ts else .error (.expected (.keyword k) (some t))

/-- A word that plays the given part. -/
def readWord (what : Expectation) : Reading String
  | .word w :: ts => .ok (w, ts)
  | ts => .error (.expected what ts.head?)

/-! ## Paths, operands and operators -/

/-- The field names after points. -/
def readNames : Reading (List String)
  | .dot :: .word w :: ts => do
    let (ws, ts) ← readNames ts
    return (w :: ws, ts)
  | .dot :: ts => .error (.expected .fieldName ts.head?)
  | ts => .ok ([], ts)

/-- A path: the loop variable and one or more field names, which are joined by the separator. -/
def readPath (separator loopVar : String) : Reading String := fun ts => do
  let (head, ts) ← readWord .fieldReference ts
  if head ≠ loopVar then throw (.foreignField head loopVar)
  let (names, ts) ← readNames ts
  if names = [] then throw (.missingField loopVar)
  return (separator.intercalate names, ts)

/-- The value of a word that is a literal. -/
def literalWord? (w : String) : Option Value :=
  if sameLetters w "true" then some (.bool true)
  else if sameLetters w "false" then some (.bool false)
  else if sameLetters w "null" then some .null
  else none

/-- A parameter or a literal. -/
def readOperand : Reading Operand
  | .param name :: ts => .ok (.param name, ts)
  | .literal v :: ts => .ok (.literal v, ts)
  | .word w :: ts =>
    match literalWord? w with
    | some v => .ok (.literal v, ts)
    | none => .error (.expected .operand (some (.word w)))
  | ts => .error (.expected .operand ts.head?)

/-- A comparison operator. -/
def readOperator : Reading CompareOp
  | .comparison op :: ts => .ok (op, ts)
  | .conjunction :: _ => .error .conjunctionAsOperator
  | ts => .error (.expected .operator ts.head?)

/-! ## Conditions -/

/-- Whether a sequence starts with the loop variable and a point. -/
def startsWithPath (loopVar : String) : List Token → Bool
  | .word w :: .dot :: _ => w == loopVar
  | _ => false

/-- A condition with its path on either side. -/
def readCondition (separator loopVar : String) : Reading Condition := fun ts =>
  if startsWithPath loopVar ts then do
    let (field, ts) ← readPath separator loopVar ts
    let (op, ts) ← readOperator ts
    let (operand, ts) ← readOperand ts
    return (⟨field, op, operand⟩, ts)
  else do
    let (operand, ts) ← readOperand ts
    let (op, ts) ← readOperator ts
    let (field, ts) ← readPath separator loopVar ts
    return (⟨field, op.mirrored, operand⟩, ts)

/-! ## Sort keys and limits -/

/-- A path with its direction, ascending where none is given. -/
def readSortKey (separator loopVar : String) : Reading SortKey := fun ts => do
  let (field, ts) ← readPath separator loopVar ts
  match ts with
  | t :: rest =>
    if t.isKeyword .DESC then return (⟨field, .descending⟩, rest)
    else if t.isKeyword .ASC then return (⟨field, .ascending⟩, rest)
    else return (⟨field, .ascending⟩, t :: rest)
  | [] => return (⟨field, .ascending⟩, [])

/-- The operands of a limit. -/
def readLimit : Reading Limit := fun ts => do
  let (first, ts) ← readOperand ts
  match ts with
  | .comma :: ts =>
    let (second, ts) ← readOperand ts
    return (⟨some first, second⟩, ts)
  | ts => return (⟨none, first⟩, ts)

/-! ## Nothing is put back -/

section Suffix

variable {α β : Type} {ts rest : List Token}

theorem bind_eq_ok {x : Except SyntaxError α} {f : α → Except SyntaxError β} {b : β} (h : x >>= f = .ok b) :
    ∃ a, x = .ok a ∧ f a = .ok b := by
  cases x with
  | error e => cases h
  | ok a => exact ⟨a, rfl, h⟩

theorem suffix_readWord {what : Expectation} {w : String} (h : readWord what ts = .ok (w, rest)) :
    rest <:+ ts := by
  unfold readWord at h
  split at h
  · cases h; exact List.suffix_cons ..
  · cases h

theorem suffix_readNames {names : List String} (h : readNames ts = .ok (names, rest)) : rest <:+ ts := by
  fun_induction readNames ts generalizing names with
  | case1 w ts ih =>
    obtain ⟨⟨a, b⟩, h1, h2⟩ := bind_eq_ok h
    cases h2
    exact ((ih h1).trans (List.suffix_cons ..)).trans (List.suffix_cons ..)
  | case2 => cases h
  | case3 => cases h; exact List.suffix_rfl

theorem suffix_readPath {separator loopVar f : String} (h : readPath separator loopVar ts = .ok (f, rest)) :
    rest <:+ ts := by
  obtain ⟨⟨head, ts₁⟩, h1, h⟩ := bind_eq_ok h
  dsimp only at h
  split at h
  · cases h
  · obtain ⟨⟨names, ts₂⟩, h2, h⟩ := bind_eq_ok h
    dsimp only at h
    split at h
    · cases h
    · cases h
      exact (suffix_readNames h2).trans (suffix_readWord h1)

theorem suffix_readOperand {o : Operand} (h : readOperand ts = .ok (o, rest)) : rest <:+ ts := by
  unfold readOperand at h
  split at h
  · cases h; exact List.suffix_cons ..
  · cases h; exact List.suffix_cons ..
  · split at h
    · cases h; exact List.suffix_cons ..
    · cases h
  · cases h

theorem suffix_readOperator {op : CompareOp} (h : readOperator ts = .ok (op, rest)) : rest <:+ ts := by
  unfold readOperator at h
  split at h
  · cases h; exact List.suffix_cons ..
  · cases h
  · cases h

/-- A condition leaves a suffix of the tokens. -/
theorem suffix_readCondition {separator loopVar : String} {c : Condition}
    (h : readCondition separator loopVar ts = .ok (c, rest)) : rest <:+ ts := by
  unfold readCondition at h
  split at h
  · obtain ⟨⟨f, ts₁⟩, h1, h⟩ := bind_eq_ok h
    obtain ⟨⟨op, ts₂⟩, h2, h⟩ := bind_eq_ok h
    obtain ⟨⟨o, ts₃⟩, h3, h⟩ := bind_eq_ok h
    cases h
    exact (suffix_readOperand h3).trans ((suffix_readOperator h2).trans (suffix_readPath h1))
  · obtain ⟨⟨o, ts₁⟩, h1, h⟩ := bind_eq_ok h
    obtain ⟨⟨op, ts₂⟩, h2, h⟩ := bind_eq_ok h
    obtain ⟨⟨f, ts₃⟩, h3, h⟩ := bind_eq_ok h
    cases h
    exact (suffix_readPath h3).trans ((suffix_readOperator h2).trans (suffix_readOperand h1))

/-- A sort key leaves a suffix of the tokens. -/
theorem suffix_readSortKey {separator loopVar : String} {k : SortKey}
    (h : readSortKey separator loopVar ts = .ok (k, rest)) : rest <:+ ts := by
  obtain ⟨⟨f, ts₁⟩, h1, h⟩ := bind_eq_ok h
  have hp := suffix_readPath h1
  dsimp only at h
  split at h
  · split at h
    · cases h; exact (List.suffix_cons ..).trans hp
    · split at h <;> cases h
      · exact (List.suffix_cons ..).trans hp
      · exact hp
  · cases h; exact hp

end Suffix

/-! ## Repeated parts -/

/-- Whether a token leads to a condition: `FILTER` always, and after another condition `&&` and `AND` too. -/
def opensCondition (opened : Bool) (t : Token) : Bool :=
  t.isKeyword .FILTER || opened && (t matches .conjunction || t.isKeyword .AND)

/-- The conditions of all filter clauses, in the order of the text. -/
def readConditions (separator loopVar : String) (opened : Bool) (ts : List Token) :
    Except SyntaxError (List Condition × List Token) :=
  match ts with
  | [] => .ok ([], [])
  | t :: ts =>
    if opensCondition opened t then
      match h : readCondition separator loopVar ts with
      | .error e => .error e
      | .ok (c, rest) =>
        have := (suffix_readCondition h).length_le
        (readConditions separator loopVar true rest).map fun (cs, rest) => (c :: cs, rest)
    else .ok ([], t :: ts)
termination_by ts.length

/-- The sort keys of a sort clause, between commas. -/
def readSortKeys (separator loopVar : String) (ts : List Token) : Except SyntaxError (List SortKey × List Token) :=
  match h : readSortKey separator loopVar ts with
  | .error e => .error e
  | .ok (k, .comma :: rest) =>
    have := (suffix_readSortKey h).length_le
    (readSortKeys separator loopVar rest).map fun (ks, rest) => (k :: ks, rest)
  | .ok (k, rest) => .ok ([k], rest)
termination_by ts.length

/-! ## Whole queries -/

/-- The sort clause, if there is one. -/
def readSort (separator loopVar : String) : Reading (List SortKey)
  | t :: ts => if t.isKeyword .SORT then readSortKeys separator loopVar ts else .ok ([], t :: ts)
  | [] => .ok ([], [])

/-- The limit clause, if there is one. -/
def readLimitClause : Reading (Option Limit)
  | t :: ts => if t.isKeyword .LIMIT then (readLimit ts).map fun (l, rest) => (some l, rest) else .ok (none, t :: ts)
  | [] => .ok (none, [])

/-- The query that a whole token sequence spells. -/
def ofTokens (separator : String) (ts : List Token) : Except SyntaxError Query := do
  let ts ← expectKeyword .FOR ts
  let (loopVar, ts) ← readWord .loopVariable ts
  let ts ← expectKeyword .IN ts
  let (collection, ts) ← readWord .collectionName ts
  let (conditions, ts) ← readConditions separator loopVar false ts
  let (sort, ts) ← readSort separator loopVar ts
  let (limit, ts) ← readLimitClause ts
  let ts ← expectKeyword .RETURN ts
  let (returned, ts) ← readWord .returnVariable ts
  if returned ≠ loopVar then throw (.foreignReturn returned loopVar)
  match ts with
  | [] => return ⟨loopVar, collection, conditions, sort, limit⟩
  | t :: _ => throw (.trailing t)

/-- The query that a text spells; its paths are joined by the separator. -/
def parse (text separator : String) : Except SyntaxError Query := do
  ofTokens separator (← tokens text)

end DocStore.Query
