import DocStore.Proofs.Query.Literals
import DocStore.Proofs.Query.Parsing
import DocStore.Query.Binding
import Mathlib.Data.List.Chain
import Mathlib.Data.List.Forall2

/-!
# Literals in place of parameters

A token sequence stays a query when literals of a value take the place of a parameter (`QueryTree.exists_fills`): the query then
has the value where it had the parameter, and nothing else changes (`Fills`). With the value bound to the parameter both are
bound alike (`Fills.bind_eq`). In a text the literal is a lexeme of its own because no point follows a parameter
(`QueryTree.head?_ne_dot`). Main result: `literals_exact`.
-/

namespace DocStore.Query

open Text (Stops stops_nil)

variable {loopVar p : String} {v : Value} {params : Document} {ts us : List Token} {t u : Token}

/-! ## Filling a parameter in -/

/-- A token with a literal of a value in place of a parameter, or unchanged. -/
inductive Token.Fills (p : String) (v : Value) : Token → Token → Prop
  | same (t : Token) : Fills p v t t
  | filled (o : OperandTree) (h : o.operand = .literal v) : Fills p v (.param p) o.token

/-- An operand with the value in place of the parameter, or unchanged. -/
inductive Operand.Fills (p : String) (v : Value) : Operand → Operand → Prop
  | same (o : Operand) : Fills p v o o
  | filled : Fills p v (.param p) (.literal v)

/-- A condition with an operand filled in. -/
structure Condition.Fills (p : String) (v : Value) (c c' : Condition) : Prop where
  field : c'.field = c.field
  op : c'.op = c.op
  operand : c.operand.Fills p v c'.operand

/-- A limit with operands filled in. -/
structure Limit.Fills (p : String) (v : Value) (l l' : Limit) : Prop where
  offset : Option.Rel (Operand.Fills p v) l.offset l'.offset
  count : l.count.Fills p v l'.count

/-- A query with operands filled in. -/
structure Fills (p : String) (v : Value) (q q' : Query) : Prop where
  loopVar : q'.loopVar = q.loopVar
  collection : q'.collection = q.collection
  conditions : List.Forall₂ (Condition.Fills p v) q.conditions q'.conditions
  sort : q'.sort = q.sort
  limit : Option.Rel (Limit.Fills p v) q.limit q'.limit

/-! ## Binding -/

theorem Operand.Fills.bind_eq {o o' : Operand} (h : o.Fills p v o') (hp : params.get? p = some v) :
    o'.bind params = o.bind params := by
  cases h with
  | same => rfl
  | filled =>
    rw [Operand.bind, Operand.bind, hp]

theorem Operand.Fills.bindCount_eq {o o' : Operand} (h : o.Fills p v o') (hp : params.get? p = some v) :
    o'.bindCount params = o.bindCount params := by
  rw [bindCount, bindCount, h.bind_eq hp]

theorem Condition.Fills.bind_eq {c c' : Condition} (h : c.Fills p v c') (hp : params.get? p = some v) :
    c'.bind params = c.bind params := by
  rw [Condition.bind, Condition.bind, h.field, h.op, h.operand.bind_eq hp]

theorem bindConditions_eq {cs cs' : List Condition} (h : List.Forall₂ (Condition.Fills p v) cs cs')
    (hp : params.get? p = some v) : bindConditions params cs' = bindConditions params cs := by
  induction h with
  | nil => rfl
  | cons hc _ ih => rw [bindConditions, bindConditions, hc.bind_eq hp, ih]

theorem bindLimit_eq_of_fills {l? l?' : Option Limit} (h : Option.Rel (Limit.Fills p v) l? l?')
    (hp : params.get? p = some v) : bindLimit params l?' = bindLimit params l? := by
  cases h with
  | none => rfl
  | @some l l' h =>
    obtain ⟨offset, count⟩ := l
    obtain ⟨offset', count'⟩ := l'
    obtain ⟨hoffset, hcount⟩ := h
    rw [bindLimit, bindLimit, hcount.bindCount_eq hp]
    cases hoffset with
    | none => rfl
    | some ho =>
      dsimp only
      rw [ho.bindCount_eq hp]

/-- With the value bound to the parameter it makes no difference where it is filled in. -/
theorem Fills.bind_eq {q q' : Query} (h : q.Fills p v q') (hp : params.get? p = some v) :
    q'.bind params = q.bind params := by
  rw [Query.bind, Query.bind, bindConditions_eq h.conditions hp, bindLimit_eq_of_fills h.limit hp, h.collection, h.sort]

/-! ## Filling tokens in -/

theorem Token.Fills.eq_of_ne (h : t.Fills p v u) (ht : t ≠ .param p) : u = t := by
  cases h with
  | same => rfl
  | filled => exact absurd rfl ht

theorem exists_append_of_forall₂ {α β : Type} {R : α → β → Prop} {a b : List α} {us : List β}
    (h : List.Forall₂ R (a ++ b) us) :
    ∃ us₁ us₂, us = us₁ ++ us₂ ∧ List.Forall₂ R a us₁ ∧ List.Forall₂ R b us₂ := by
  induction a generalizing us with
  | nil => exact ⟨[], us, rfl, .nil, h⟩
  | cons x a ih =>
    obtain ⟨u, us, hu, hus, rfl⟩ := List.forall₂_cons_left_iff.mp h
    obtain ⟨us₁, us₂, rfl, h₁, h₂⟩ := ih hus
    exact ⟨u :: us₁, us₂, rfl, .cons hu h₁, h₂⟩

/-- Tokens without the parameter stay as they are. -/
theorem eq_of_fills (h : List.Forall₂ (Token.Fills p v) ts us) (hts : .param p ∉ ts) : us = ts := by
  induction h with
  | nil => rfl
  | cons ht _ ih =>
    rw [List.mem_cons, not_or] at hts
    obtain ⟨hne, hts⟩ := hts
    rw [ht.eq_of_ne fun he => hne he.symm, ih hts]

/-- A token that is not the parameter stays as it is at the front of others. -/
theorem exists_cons_of_fills (h : List.Forall₂ (Token.Fills p v) (t :: ts) us) (ht : t ≠ .param p) :
    ∃ us', us = t :: us' ∧ List.Forall₂ (Token.Fills p v) ts us' := by
  obtain ⟨u, us', hu, hus, rfl⟩ := List.forall₂_cons_left_iff.mp h
  exact ⟨us', by rw [hu.eq_of_ne ht], hus⟩

theorem PathTree.param_notMem (path : PathTree) : .param p ∉ path.tokens loopVar := by
  simp [tokens, pointed]

theorem OperandTree.exists_fills {o : OperandTree} (h : o.token.Fills p v u) :
    ∃ o' : OperandTree, u = o'.token ∧ o.operand.Fills p v o'.operand := by
  generalize ht : o.token = t at h
  cases h with
  | same => exact ⟨o, ht.symm, .same _⟩
  | filled o' ho' =>
    cases o with
    | param name =>
      cases ht
      refine ⟨o', rfl, ?_⟩
      rw [ho']
      exact .filled
    | _ => cases ht

/-- An operand at the front of other tokens stays one. -/
theorem OperandTree.exists_cons_of_fills {o : OperandTree} (h : List.Forall₂ (Token.Fills p v) (o.token :: ts) us) :
    ∃ (o' : OperandTree) (us' : List Token), us = o'.token :: us' ∧ o.operand.Fills p v o'.operand ∧
      List.Forall₂ (Token.Fills p v) ts us' := by
  obtain ⟨u, us', hu, hus, rfl⟩ := List.forall₂_cons_left_iff.mp h
  obtain ⟨o', rfl, hfills⟩ := OperandTree.exists_fills hu
  exact ⟨o', us', rfl, hfills, hus⟩

theorem ConditionTree.exists_fills (separator : String) {c : ConditionTree}
    (h : List.Forall₂ (Token.Fills p v) (c.tokens loopVar) us) :
    ∃ c' : ConditionTree, us = c'.tokens loopVar ∧ (c.condition separator).Fills p v (c'.condition separator) := by
  cases c with
  | pathFirst path op operand =>
    obtain ⟨us₁, us₂, rfl, hpath, htail⟩ := exists_append_of_forall₂ h
    obtain rfl := eq_of_fills hpath path.param_notMem
    obtain ⟨us₂, rfl, hlast⟩ := exists_cons_of_fills htail nofun
    obtain ⟨operand', us₂, rfl, hfills, hnil⟩ := OperandTree.exists_cons_of_fills hlast
    cases hnil
    exact ⟨.pathFirst path op operand', rfl, ⟨rfl, rfl, hfills⟩⟩
  | operandFirst operand op path =>
    obtain ⟨operand', us, rfl, hfills, htail⟩ := OperandTree.exists_cons_of_fills h
    obtain ⟨us, rfl, hpath⟩ := exists_cons_of_fills htail nofun
    obtain rfl := eq_of_fills hpath path.param_notMem
    exact ⟨.operandFirst operand' op path, rfl, ⟨rfl, rfl, hfills⟩⟩

theorem ConjunctionTree.token_ne (c : ConjunctionTree) : c.token ≠ .param p := by
  cases c <;> nofun

theorem exists_fills_conjoined (separator : String) {more : List (ConjunctionTree × ConditionTree)}
    (h : List.Forall₂ (Token.Fills p v) (conjoined loopVar more) us) :
    ∃ more' : List (ConjunctionTree × ConditionTree), us = conjoined loopVar more' ∧
      List.Forall₂ (Condition.Fills p v) (more.map fun m => m.2.condition separator)
        (more'.map fun m => m.2.condition separator) := by
  induction more generalizing us with
  | nil =>
    cases h
    exact ⟨[], rfl, .nil⟩
  | cons m more ih =>
    obtain ⟨us₁, us₂, rfl, hm, hmore⟩ := exists_append_of_forall₂ h
    obtain ⟨more', rfl, hmore'⟩ := ih hmore
    obtain ⟨us, rfl, hus⟩ := exists_cons_of_fills hm m.1.token_ne
    obtain ⟨c', rfl, hc'⟩ := ConditionTree.exists_fills separator hus
    exact ⟨(m.1, c') :: more', rfl, .cons hc' hmore'⟩

theorem FilterTree.exists_fills (separator : String) {f : FilterTree}
    (h : List.Forall₂ (Token.Fills p v) (f.tokens loopVar) us) :
    ∃ f' : FilterTree, us = f'.tokens loopVar ∧
      List.Forall₂ (Condition.Fills p v) (f.conditions separator) (f'.conditions separator) := by
  obtain ⟨us, rfl, hus⟩ := exists_cons_of_fills h nofun
  obtain ⟨us₁, us₂, rfl, hfirst, hmore⟩ := exists_append_of_forall₂ hus
  obtain ⟨first', rfl, hfirst'⟩ := ConditionTree.exists_fills separator hfirst
  obtain ⟨more', rfl, hmore'⟩ := exists_fills_conjoined separator hmore
  exact ⟨⟨f.keyword, first', more'⟩, rfl, .cons hfirst' hmore'⟩

theorem exists_fills_filters (separator : String) {filters : List FilterTree}
    (h : List.Forall₂ (Token.Fills p v) (filters.flatMap (·.tokens loopVar)) us) :
    ∃ filters' : List FilterTree, us = filters'.flatMap (·.tokens loopVar) ∧
      List.Forall₂ (Condition.Fills p v) (filters.flatMap (·.conditions separator))
        (filters'.flatMap (·.conditions separator)) := by
  induction filters generalizing us with
  | nil =>
    cases h
    exact ⟨[], rfl, .nil⟩
  | cons f filters ih =>
    obtain ⟨us₁, us₂, rfl, hf, hfilters⟩ := exists_append_of_forall₂ h
    obtain ⟨f', rfl, hf'⟩ := FilterTree.exists_fills separator hf
    obtain ⟨filters', rfl, hfilters'⟩ := ih hfilters
    exact ⟨f' :: filters', rfl, List.rel_append hf' hfilters'⟩

theorem SortKeyTree.param_notMem (k : SortKeyTree) : .param p ∉ k.tokens loopVar := by
  rw [tokens, List.mem_append, not_or]
  refine ⟨k.path.param_notMem, ?_⟩
  cases k.direction <;> simp [DirectionTree.tokens, Spelling.token]

theorem SortTree.param_notMem (s : SortTree) : .param p ∉ s.tokens loopVar := by
  simp [tokens, listed, Spelling.token, SortKeyTree.param_notMem]

theorem LimitTree.exists_fills {l : LimitTree} (h : List.Forall₂ (Token.Fills p v) l.tokens us) :
    ∃ l' : LimitTree, us = l'.tokens ∧ l.limit.Fills p v l'.limit := by
  obtain ⟨keyword, offset, count⟩ := l
  obtain ⟨us, rfl, hus⟩ := exists_cons_of_fills h nofun
  cases offset with
  | none =>
    obtain ⟨count', us, rfl, hcount, hnil⟩ := OperandTree.exists_cons_of_fills hus
    cases hnil
    exact ⟨⟨keyword, none, count'⟩, rfl, ⟨.none, hcount⟩⟩
  | some offset =>
    obtain ⟨offset', us, rfl, hoffset, htail⟩ := OperandTree.exists_cons_of_fills hus
    obtain ⟨us, rfl, hlast⟩ := exists_cons_of_fills htail nofun
    obtain ⟨count', us, rfl, hcount, hnil⟩ := OperandTree.exists_cons_of_fills hlast
    cases hnil
    exact ⟨⟨keyword, some offset', count'⟩, rfl, ⟨.some hoffset, hcount⟩⟩

theorem exists_fills_limit {limit : Option LimitTree} (h : List.Forall₂ (Token.Fills p v) (limit.elim [] (·.tokens)) us) :
    ∃ limit' : Option LimitTree, us = limit'.elim [] (·.tokens) ∧
      Option.Rel (Limit.Fills p v) (limit.map (·.limit)) (limit'.map (·.limit)) := by
  cases limit with
  | none =>
    cases h
    exact ⟨none, rfl, .none⟩
  | some l =>
    obtain ⟨l', rfl, hl'⟩ := LimitTree.exists_fills h
    exact ⟨some l', rfl, .some hl'⟩

/-- **With parameters filled in a query is a query with operands filled in.** -/
theorem QueryTree.exists_fills (separator : String) {q : QueryTree} (h : List.Forall₂ (Token.Fills p v) q.tokens us) :
    ∃ q' : QueryTree, us = q'.tokens ∧ (q.query separator).Fills p v (q'.query separator) := by
  have hsort : .param p ∉ q.sort.elim [] (·.tokens q.loopVar) := by
    cases q.sort with
    | none => exact List.not_mem_nil
    | some s => exact s.param_notMem
  obtain ⟨us₁, us₂, rfl, hhead, hbody⟩ :=
    exists_append_of_forall₂ (a := [q.forWord.token, .word q.loopVar, q.inWord.token, .word q.collection]) h
  obtain rfl := eq_of_fills hhead (by simp [Spelling.token])
  obtain ⟨us₁, us₂, rfl, hfilters, htail⟩ := exists_append_of_forall₂ hbody
  obtain ⟨filters', rfl, hfilters'⟩ := exists_fills_filters separator hfilters
  obtain ⟨us₁, us₂, rfl, hsorted, hlimited⟩ := exists_append_of_forall₂ htail
  obtain rfl := eq_of_fills hsorted hsort
  obtain ⟨us₁, us₂, rfl, hlimit, hreturn⟩ := exists_append_of_forall₂ hlimited
  obtain ⟨limit', rfl, hlimit'⟩ := exists_fills_limit hlimit
  obtain rfl := eq_of_fills hreturn (by simp [Spelling.token])
  exact ⟨{ q with filters := filters', limit := limit' }, rfl, ⟨rfl, rfl, hfilters', rfl, hlimit'⟩⟩

/-! ## What stands before a point -/

/-- Every point stands after a word. -/
def Dotted (ts : List Token) : Prop :=
  ts.IsChain (fun t u => u = .dot → ∃ w, t = .word w) ∧ ts.head? ≠ some .dot

theorem Dotted.append (h : Dotted ts) (h' : Dotted us) : Dotted (ts ++ us) := by
  refine ⟨List.isChain_append.mpr ⟨h.1, h'.1, fun t _ u hu hdot => ?_⟩, ?_⟩
  · exact absurd (hdot ▸ hu) h'.2
  · cases ts with
    | nil => exact h'.2
    | cons t ts => exact h.2

theorem dotted_nil : Dotted [] := ⟨.nil, nofun⟩

theorem Dotted.cons (ht : t ≠ .dot) (h : Dotted ts) : Dotted (t :: ts) := by
  have hsingle : Dotted [t] := ⟨.singleton t, fun hdot => ht (Option.some.inj hdot)⟩
  exact hsingle.append h

theorem dotted_flatMap {α : Type} {f : α → List Token} {as : List α} (h : ∀ a ∈ as, Dotted (f a)) :
    Dotted (as.flatMap f) := by
  induction as with
  | nil => exact dotted_nil
  | cons a as ih =>
    obtain ⟨ha, has⟩ := List.forall_mem_cons.mp h
    exact ha.append (ih has)

theorem PathTree.dotted (path : PathTree) : Dotted (path.tokens loopVar) := by
  have hnames (w : String) (names : List String) :
      (Token.word w :: pointed names).IsChain (fun t u => u = .dot → ∃ w, t = .word w) := by
    induction names generalizing w with
    | nil => exact .singleton _
    | cons n names ih => exact .cons_cons (fun _ => ⟨w, rfl⟩) (.cons_cons nofun (ih n))
  exact ⟨hnames loopVar path.names, nofun⟩

theorem OperandTree.token_ne_dot (o : OperandTree) : o.token ≠ .dot := by
  cases o <;> nofun

theorem ConditionTree.dotted (c : ConditionTree) : Dotted (c.tokens loopVar) := by
  cases c with
  | pathFirst path op operand => exact path.dotted.append (.cons nofun (.cons operand.token_ne_dot dotted_nil))
  | operandFirst operand op path => exact .cons operand.token_ne_dot (.cons nofun path.dotted)

theorem FilterTree.dotted (f : FilterTree) : Dotted (f.tokens loopVar) := by
  have hmore (m : ConjunctionTree × ConditionTree) : Dotted (m.1.token :: m.2.tokens loopVar) :=
    .cons (by cases m.1 <;> nofun) m.2.dotted
  exact .cons nofun (f.first.dotted.append (dotted_flatMap fun m _ => hmore m))

theorem SortTree.dotted (s : SortTree) : Dotted (s.tokens loopVar) := by
  have hkey (k : SortKeyTree) : Dotted (k.tokens loopVar) := by
    refine k.path.dotted.append ?_
    cases k.direction with
    | absent => exact dotted_nil
    | _ => exact .cons nofun dotted_nil
  exact .cons nofun ((hkey s.first).append (dotted_flatMap fun k _ => .cons nofun (hkey k)))

theorem LimitTree.dotted (l : LimitTree) : Dotted l.tokens := by
  refine .cons nofun (Dotted.append ?_ (.cons l.count.token_ne_dot dotted_nil))
  cases l.offset with
  | none => exact dotted_nil
  | some o => exact .cons o.token_ne_dot (.cons nofun dotted_nil)

theorem QueryTree.dotted (q : QueryTree) : Dotted q.tokens := by
  have hsort : Dotted (q.sort.elim [] (·.tokens q.loopVar)) := by
    cases q.sort with
    | none => exact dotted_nil
    | some s => exact s.dotted
  have hlimit : Dotted (q.limit.elim [] (·.tokens)) := by
    cases q.limit with
    | none => exact dotted_nil
    | some l => exact l.dotted
  have htail : Dotted q.tailTokens := hsort.append (hlimit.append (.cons nofun (.cons nofun dotted_nil)))
  exact .cons nofun (.cons nofun (.cons nofun (.cons nofun ((dotted_flatMap fun f _ => f.dotted).append htail))))

/-- No point follows a parameter. -/
theorem QueryTree.head?_ne_dot {q : QueryTree} (h : q.tokens = ts ++ .param p :: us) : us.head? ≠ some .dot := by
  intro hdot
  obtain ⟨us, rfl⟩ : ∃ rest, us = .dot :: rest := by
    cases us with
    | nil => cases hdot
    | cons u us => exact ⟨us, by rw [Option.some.inj hdot]⟩
  have hchain := (List.isChain_append.mp (h ▸ q.dotted.1)).2.1
  obtain ⟨w, hw⟩ := (List.isChain_cons_cons.mp hchain).1 rfl
  cases hw

/-! ## Texts -/

/-- A text with a literal where another one has a parameter is a query with the value filled in. -/
theorem exists_parse_eq_ok {separator before after lit : String} {q : Query} (hbefore : tokens before = .ok ts)
    (hparam : IsWord p) (hafter : Stops isWordChar after.toList) (hlit : Spells v lit.toList)
    (hapart : Apart before.toList lit.toList) (h : parse (before ++ "@" ++ p ++ after) separator = .ok q) :
    ∃ q', parse (before ++ lit ++ after) separator = .ok q' ∧ q.Fills p v q' := by
  obtain ⟨tree, htokens, rfl⟩ := parse_eq_ok_iff.mp h
  have hscan : scan before.toList = .ok ts := tokens_eq_ok_iff.mp hbefore
  -- the parameter is a lexeme of its own
  have hat : Apart before.toList ('@' :: (p.toList ++ after.toList)) := apart_cons (by decide)
  have htext : (before ++ "@" ++ p ++ after).toList = before.toList ++ '@' :: (p.toList ++ after.toList) := by
    simp [String.toList_append]
  have htree := tokens_eq_ok_iff.mp htokens
  rw [htext, scan_append hscan hat, scan_of_next? (next?_param_of_isWord hparam hafter)] at htree
  obtain ⟨ts', hts', hall⟩ := exists_of_map_eq_ok htree
  obtain ⟨us, hus, rfl⟩ := exists_of_map_eq_ok hts'
  replace hall : tree.tokens = ts ++ .param p :: us := hall.symm
  -- so is the literal, since no point follows
  have hpoint : after.toList.head? ≠ some '.' := by
    intro hhead
    obtain ⟨cs, hcs⟩ : ∃ cs, after.toList = '.' :: cs := by
      cases hlist : after.toList with
      | nil => rw [hlist] at hhead; cases hhead
      | cons c cs => rw [hlist] at hhead; exact ⟨cs, by rw [Option.some.inj hhead]⟩
    have hdot : next? ('.' :: cs) = some (some .dot, cs) := by
      rw [next?_eq_symbol? (by decide) (by decide) (by decide) (by decide) (by decide)]
      rfl
    rw [hcs, scan_of_next? hdot] at hus
    obtain ⟨us', -, rfl⟩ := exists_of_map_eq_ok hus
    exact tree.head?_ne_dot hall rfl
  obtain ⟨o, hnext, ho⟩ := hlit.exists_operandTree hafter hpoint
  have hapart' : Apart before.toList (lit.toList ++ after.toList) := hapart.append_right hlit.ne_nil _
  have hscan' : tokens (before ++ lit ++ after) = .ok (ts ++ o.token :: us) := by
    rw [tokens_eq_ok_iff, String.toList_append, String.toList_append, List.append_assoc, scan_append hscan hapart',
      scan_of_next? hnext, hus]
    rfl
  have hfills : List.Forall₂ (Token.Fills p v) tree.tokens (ts ++ o.token :: us) := by
    rw [hall]
    exact List.rel_append (List.forall₂_same.mpr fun t _ => .same t)
      (.cons (.filled o ho) (List.forall₂_same.mpr fun t _ => .same t))
  obtain ⟨tree', htree', hq⟩ := tree.exists_fills separator hfills
  exact ⟨tree'.query separator, parse_eq_ok_iff.mpr ⟨tree', htree' ▸ hscan', rfl⟩, hq⟩

/-- **Texts and integers are read back from their literals, and a literal means what a parameter with its value means.** A text
written between quotes is a single token, the text; so is an integer in decimal. Every null, truth value, integer and text can
be written as a literal, and wherever a query has a parameter, the text with such a literal in its place, not run together
with a lexeme before it, is a query too: with the value bound to the parameter both are bound alike. -/
theorem literals_exact :
    (∀ quote ∈ quotes, ∀ (s : String) (w : List Char), Written quote s.toList w →
      tokens (String.ofList (quote :: (w ++ [quote]))) = .ok [.literal (.string s)]) ∧
    (∀ i : Int64, tokens (String.ofList (Number.decimal i.toInt)) = .ok [.literal (.int i)]) ∧
    (∀ v : Value, (v = .null ∨ (∃ b, v = .bool b) ∨ (∃ i, v = .int i) ∨ ∃ s, v = .string s) →
      ∃ lit : String, Spells v lit.toList) ∧
    ∀ (separator before p after lit : String) (v : Value) (q : Query), (∃ ts, tokens before = .ok ts) → IsWord p →
      Stops isWordChar after.toList → Spells v lit.toList → Apart before.toList lit.toList →
      parse (before ++ "@" ++ p ++ after) separator = .ok q →
      ∃ q', parse (before ++ lit ++ after) separator = .ok q' ∧
        ∀ params : Document, params.get? p = some v → q'.bind params = q.bind params := by
  have hpoint : ([] : List Char).head? ≠ some '.' := nofun
  refine ⟨fun quote hquote s w hw => ?_, fun i => ?_, fun v hv => ?_, ?_⟩
  · rw [tokens_eq_ok_iff, String.toList_ofList]
    have hnext := next?_of_written hquote hw []
    rw [String.ofList_toList] at hnext
    exact scan_singleton hnext
  · rw [tokens_eq_ok_iff, String.toList_ofList]
    have hnext := next?_decimal i stops_nil hpoint
    rw [List.append_nil] at hnext
    exact scan_singleton hnext
  · obtain ⟨w, hw⟩ := exists_spells_iff.mpr hv
    exact ⟨String.ofList w, by rwa [String.toList_ofList]⟩
  · rintro separator before p after lit v q ⟨ts, hbefore⟩ hparam hafter hlit hapart hq
    obtain ⟨q', hq', hfills⟩ := exists_parse_eq_ok hbefore hparam hafter hlit hapart hq
    exact ⟨q', hq', fun params => hfills.bind_eq⟩

/-- `FOR v IN c FILTER v.a == @p RETURN v` -/
def paramTree : QueryTree where
  forWord := .capitals .FOR
  loopVar := "v"
  inWord := .capitals .IN
  collection := "c"
  filters := [⟨.capitals .FILTER, .pathFirst ⟨"a", []⟩ .eq (.param "p"), []⟩]
  sort := none
  limit := none
  returnWord := .capitals .RETURN

/-- A text with the other quote, an escaped one and a backslash at its end is read back, and stands for a parameter. -/
theorem literals_exact_sample :
    tokens (String.ofList ('\'' :: ("\"it\\'s\\\\".toList ++ ['\'']))) = .ok [.literal (.string "\"it's\\")] ∧
    ∃ q', parse ("FOR v IN c FILTER v.a == " ++ "'\"it\\'s\\\\'" ++ " RETURN v") "." = .ok q' ∧
      ∀ params : Document, params.get? "p" = some (.string "\"it's\\") →
        q'.bind params = .ok ⟨"c", [⟨"a", .eq, .string "\"it's\\"⟩], [], 0, none⟩ := by
  have hwritten : Written '\'' "\"it's\\".toList "\"it\\'s\\\\".toList :=
    .plain (by decide) (by decide) <| .plain (by decide) (by decide) <| .plain (by decide) (by decide) <|
      .escaped (.inr rfl) <| .plain (by decide) (by decide) <| .escaped (.inl rfl) .nil
  have hspells : Spells (.string "\"it's\\") "'\"it\\'s\\\\'".toList := .string (by decide) hwritten
  have hbefore : ∃ ts, tokens "FOR v IN c FILTER v.a == " = .ok ts :=
    ⟨_, tokens_eq_ok_iff.mpr (scan_of_scanWithin (n := 30) rfl)⟩
  have hparse : parse ("FOR v IN c FILTER v.a == " ++ "@" ++ "p" ++ " RETURN v") "." = .ok (paramTree.query ".") :=
    parse_eq_ok_iff.mpr ⟨paramTree, tokens_eq_ok_iff.mpr (scan_of_scanWithin (n := 30) rfl), rfl⟩
  have hapart : Apart "FOR v IN c FILTER v.a == ".toList "'\"it\\'s\\\\'".toList := apart_cons (by decide)
  obtain ⟨q', hq', hbind⟩ := literals_exact.2.2.2 "." _ "p" " RETURN v" _ _ _ hbefore ⟨'p', [], rfl, by decide, nofun⟩
    (by intro y hy; cases hy; decide) hspells hapart hparse
  refine ⟨literals_exact.1 _ (by decide) _ _ hwritten, q', hq', fun params hp => ?_⟩
  have hoperand : (Operand.param "p").bind params = .ok (.string "\"it's\\") := by rw [Operand.bind, hp]
  have hconditions : bindConditions params (paramTree.query ".").conditions = .ok [⟨"a", .eq, .string "\"it's\\"⟩] := by
    show bindConditions params [⟨"a", .eq, .param "p"⟩] = _
    rw [bindConditions, Condition.bind, hoperand]
    rfl
  rw [hbind params hp, Query.bind, hconditions]
  rfl

end DocStore.Query
