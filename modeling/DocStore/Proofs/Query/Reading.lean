import DocStore.Proofs.Query.Grammar
import Mathlib.Tactic.Common

/-!
# Reading follows the grammar

Every reading function reads the tree that is written at the front of the tokens (`…_tokens`), and what it reads is written
there (`exists_of_read…`). A tree ends before what cannot continue it: a path before anything but a point (`PathEnds`), the
filter clauses and the sort keys before a later keyword (`Resumes`). Main lemma: `ofTokens_eq_ok_iff`.
-/

namespace DocStore.Query

variable {separator loopVar w : String} {ts rest : List Token} {t : Token} {k m : Keyword}

theorem exists_of_map_eq_ok {ε α β : Type} {x : Except ε α} {f : α → β} {b : β} (h : x.map f = .ok b) :
    ∃ a, x = .ok a ∧ f a = b := by
  cases x with
  | error e => cases h
  | ok a =>
    cases h
    exact ⟨a, rfl, rfl⟩

/-! ## Keywords -/

theorem sameLetters_eq_of_sameLetters {s : String} (h : sameLetters w s = true) (u : String) :
    sameLetters w u = sameLetters s u := by
  unfold sameLetters at h ⊢
  rw [beq_iff_eq.mp h]

/-- A keyword in some spelling is no other keyword. -/
theorem Spelling.isKeyword_token (s : Spelling k) (m : Keyword) : s.token.isKeyword m = decide (k = m) := by
  show sameLetters s.word m.text = _
  rw [sameLetters_eq_of_sameLetters s.spells]
  cases k <;> cases m <;> rfl

theorem exists_spelling (h : t.isKeyword k = true) : ∃ s : Spelling k, t = s.token := by
  cases t with
  | word name => exact ⟨⟨name, h⟩, rfl⟩
  | _ => cases h

theorem Spelling.expectKeyword_token (s : Spelling k) : expectKeyword k (s.token :: ts) = .ok ts := by
  rw [expectKeyword, s.isKeyword_token, decide_eq_true rfl, if_pos rfl]

theorem exists_of_expectKeyword (h : expectKeyword k ts = .ok rest) : ∃ s : Spelling k, ts = s.token :: rest := by
  cases ts with
  | nil => cases h
  | cons t ts =>
    rw [expectKeyword] at h
    split at h
    · next ht =>
      cases h
      obtain ⟨s, rfl⟩ := exists_spelling ht
      exact ⟨s, rfl⟩
    · cases h

theorem exists_of_readWord {what : Expectation} (h : readWord what ts = .ok (w, rest)) : ts = .word w :: rest := by
  unfold readWord at h
  split at h
  · cases h
    rfl
  · cases h

/-- What goes on with one of some keywords. -/
def Resumes (ks : List Keyword) (ts : List Token) : Prop :=
  ∃ k ∈ ks, ∃ (s : Spelling k) (rest : List Token), ts = s.token :: rest

theorem Spelling.resumes {ks : List Keyword} (s : Spelling k) (h : k ∈ ks) : Resumes ks (s.token :: rest) :=
  ⟨k, h, s, rest, rfl⟩

theorem Resumes.mono {ks ms : List Keyword} (h : Resumes ks ts) (hsub : ks ⊆ ms) : Resumes ms ts := by
  obtain ⟨k, hk, s, rest, rfl⟩ := h
  exact s.resumes (hsub hk)

/-- What goes on with one of some keywords does not start with another one. -/
theorem Resumes.isKeyword_head {ks : List Keyword} (h : Resumes ks (t :: ts)) (hm : m ∉ ks) :
    t.isKeyword m = false := by
  obtain ⟨k, hk, s, rest, hts⟩ := h
  cases hts
  rw [s.isKeyword_token]
  exact decide_eq_false fun hkm => hm (hkm ▸ hk)

/-! ## Operands and paths -/

theorem literalWord?_of_sameLetters (l : WordLiteral) (h : sameLetters w l.text = true) :
    literalWord? w = some l.value := by
  unfold literalWord?
  rw [sameLetters_eq_of_sameLetters h, sameLetters_eq_of_sameLetters h, sameLetters_eq_of_sameLetters h]
  cases l <;> rfl

theorem exists_of_literalWord? {v : Value} (h : literalWord? w = some v) :
    ∃ l : WordLiteral, sameLetters w l.text = true ∧ l.value = v := by
  unfold literalWord? at h
  split at h
  · next hw => exact ⟨.true, hw, Option.some.inj h⟩
  · split at h
    · next hw => exact ⟨.false, hw, Option.some.inj h⟩
    · split at h
      · next hw => exact ⟨.null, hw, Option.some.inj h⟩
      · cases h

theorem OperandTree.readOperand_token (o : OperandTree) : readOperand (o.token :: ts) = .ok (o.operand, ts) := by
  cases o with
  | param name => rfl
  | literal v => rfl
  | word l w spells =>
    show readOperand (.word w :: ts) = _
    rw [readOperand, literalWord?_of_sameLetters l spells]
    rfl

theorem exists_of_readOperand {o : Operand} (h : readOperand ts = .ok (o, rest)) :
    ∃ tree : OperandTree, ts = tree.token :: rest ∧ tree.operand = o := by
  unfold readOperand at h
  split at h
  · next name ts =>
    cases h
    exact ⟨.param name, rfl, rfl⟩
  · next v ts =>
    cases h
    exact ⟨.literal v, rfl, rfl⟩
  · next w ts =>
    split at h
    · next v hv =>
      cases h
      obtain ⟨l, hw, rfl⟩ := exists_of_literalWord? hv
      exact ⟨.word l w hw, rfl, rfl⟩
    · cases h
  · cases h

theorem exists_of_readOperator {op : CompareOp} (h : readOperator ts = .ok (op, rest)) :
    ts = .comparison op :: rest := by
  unfold readOperator at h
  split at h
  · cases h
    rfl
  · cases h
  · cases h

/-- No point follows. -/
def PathEnds : List Token → Prop
  | .dot :: _ => False
  | _ => True

theorem Spelling.pathEnds (s : Spelling k) : PathEnds (s.token :: rest) := trivial

theorem Resumes.pathEnds {ks : List Keyword} (h : Resumes ks ts) : PathEnds ts := by
  obtain ⟨k, -, s, rest, rfl⟩ := h
  exact s.pathEnds

theorem readNames_pointed (names : List String) (h : PathEnds rest) :
    readNames (pointed names ++ rest) = .ok (names, rest) := by
  induction names with
  | nil =>
    show readNames rest = _
    unfold readNames
    split
    · exact h.elim
    · exact h.elim
    · rfl
  | cons n names ih =>
    show readNames (.dot :: .word n :: (pointed names ++ rest)) = _
    rw [readNames, ih]
    rfl

theorem eq_of_readNames {names : List String} (h : readNames ts = .ok (names, rest)) : ts = pointed names ++ rest := by
  fun_induction readNames ts generalizing names with
  | case1 n ts ih =>
    obtain ⟨⟨ns, ts'⟩, h1, h2⟩ := bind_eq_ok h
    cases h2
    rw [ih h1]
    rfl
  | case2 => cases h
  | case3 => cases h; rfl

theorem PathTree.readPath_tokens (p : PathTree) (h : PathEnds rest) :
    readPath separator loopVar (p.tokens loopVar ++ rest) = .ok (p.field separator, rest) := by
  have hnames : readNames (pointed p.names ++ rest) = .ok (p.names, rest) := readNames_pointed p.names h
  have hne : p.names ≠ [] := List.cons_ne_nil _ _
  simp [readPath, PathTree.tokens, readWord, hnames, hne, PathTree.field, bind, Except.bind, pure, Except.pure]

theorem exists_of_readPath {field : String} (h : readPath separator loopVar ts = .ok (field, rest)) :
    ∃ p : PathTree, ts = p.tokens loopVar ++ rest ∧ p.field separator = field := by
  obtain ⟨⟨head, ts₁⟩, h1, h⟩ := bind_eq_ok h
  dsimp only at h
  split at h
  · cases h
  · next hhead =>
    obtain ⟨⟨names, ts₂⟩, h2, h⟩ := bind_eq_ok h
    dsimp only at h
    split at h
    · cases h
    · next hnames =>
      cases h
      obtain ⟨first, more, rfl⟩ := List.exists_cons_of_ne_nil hnames
      refine ⟨⟨first, more⟩, ?_, rfl⟩
      rw [exists_of_readWord h1, eq_of_readNames h2, not_not.mp hhead]
      rfl

/-! ## Conditions -/

theorem OperandTree.startsWithPath_token (o : OperandTree) (op : CompareOp) :
    startsWithPath loopVar (o.token :: .comparison op :: ts) = false := by
  cases o <;> rfl

theorem PathTree.startsWithPath_tokens (p : PathTree) : startsWithPath loopVar (p.tokens loopVar ++ ts) = true :=
  beq_self_eq_true loopVar

theorem ConditionTree.readCondition_tokens (c : ConditionTree) (h : PathEnds rest) :
    readCondition separator loopVar (c.tokens loopVar ++ rest) = .ok (c.condition separator, rest) := by
  cases c with
  | pathFirst path op operand =>
    have hpath : readPath separator loopVar (path.tokens loopVar ++ .comparison op :: operand.token :: rest)
        = .ok (path.field separator, .comparison op :: operand.token :: rest) := path.readPath_tokens trivial
    have hts : (pathFirst path op operand).tokens loopVar ++ rest
        = path.tokens loopVar ++ .comparison op :: operand.token :: rest := List.append_assoc ..
    rw [hts, readCondition, if_pos path.startsWithPath_tokens, hpath]
    show (readOperand (operand.token :: rest) >>= _) = _
    rw [operand.readOperand_token]
    rfl
  | operandFirst operand op path =>
    show readCondition separator loopVar (operand.token :: .comparison op :: (path.tokens loopVar ++ rest)) = _
    rw [readCondition, if_neg (Bool.not_eq_true _ ▸ operand.startsWithPath_token op), operand.readOperand_token]
    show (readPath separator loopVar (path.tokens loopVar ++ rest) >>= _) = _
    rw [path.readPath_tokens h]
    rfl

theorem exists_of_readCondition {c : Condition} (h : readCondition separator loopVar ts = .ok (c, rest)) :
    ∃ tree : ConditionTree, ts = tree.tokens loopVar ++ rest ∧ tree.condition separator = c := by
  unfold readCondition at h
  split at h
  · obtain ⟨⟨field, ts₁⟩, hpath, h⟩ := bind_eq_ok h
    obtain ⟨⟨op, ts₂⟩, hop, h⟩ := bind_eq_ok h
    obtain ⟨⟨operand, ts₃⟩, hoperand, h⟩ := bind_eq_ok h
    cases h
    obtain ⟨path, rfl, rfl⟩ := exists_of_readPath hpath
    obtain rfl := exists_of_readOperator hop
    obtain ⟨o, rfl, rfl⟩ := exists_of_readOperand hoperand
    exact ⟨.pathFirst path op o, by simp [ConditionTree.tokens], rfl⟩
  · obtain ⟨⟨operand, ts₁⟩, hoperand, h⟩ := bind_eq_ok h
    obtain ⟨⟨op, ts₂⟩, hop, h⟩ := bind_eq_ok h
    obtain ⟨⟨field, ts₃⟩, hpath, h⟩ := bind_eq_ok h
    cases h
    obtain ⟨o, rfl, rfl⟩ := exists_of_readOperand hoperand
    obtain rfl := exists_of_readOperator hop
    obtain ⟨path, rfl, rfl⟩ := exists_of_readPath hpath
    exact ⟨.operandFirst o op path, rfl, rfl⟩

/-! ## Filter clauses -/

theorem ConjunctionTree.opensCondition_token (c : ConjunctionTree) : opensCondition true c.token = true := by
  cases c with
  | symbol => rfl
  | word s => simp [opensCondition, token, s.isKeyword_token]

/-- A token that leads to a condition is `FILTER`, or a conjunction after another condition. -/
theorem opensCondition_eq_true {opened : Bool} (h : opensCondition opened t = true) :
    (∃ s : Spelling .FILTER, t = s.token) ∨ opened = true ∧ ∃ c : ConjunctionTree, t = c.token := by
  simp only [opensCondition, Bool.or_eq_true, Bool.and_eq_true] at h
  obtain hfilter | ⟨hopened, hsymbol | hword⟩ := h
  · exact .inl (exists_spelling hfilter)
  · cases t with
    | conjunction => exact .inr ⟨hopened, .symbol, rfl⟩
    | _ => cases hsymbol
  · obtain ⟨s, rfl⟩ := exists_spelling hword
    exact .inr ⟨hopened, .word s, rfl⟩

theorem readConditions_of_opensCondition {opened : Bool} {c : Condition} (ho : opensCondition opened t = true)
    (hc : readCondition separator loopVar ts = .ok (c, rest)) :
    readConditions separator loopVar opened (t :: ts)
      = (readConditions separator loopVar true rest).map fun (cs, rest) => (c :: cs, rest) := by
  rw [readConditions, if_pos ho]
  split
  · next he => rw [hc] at he; cases he
  · next he => rw [hc] at he; cases he; rfl

theorem Resumes.readConditions {opened : Bool} (h : Resumes [.SORT, .LIMIT, .RETURN] ts) :
    readConditions separator loopVar opened ts = .ok ([], ts) := by
  obtain ⟨k, hk, s, rest, rfl⟩ := id h
  have hshut : opensCondition opened s.token = false := by
    have hfilter : s.token.isKeyword .FILTER = false := h.isKeyword_head (by decide)
    have hand : s.token.isKeyword .AND = false := h.isKeyword_head (by decide)
    show (s.token.isKeyword .FILTER || opened && (false || s.token.isKeyword .AND)) = false
    rw [hfilter, hand, Bool.or_self, Bool.and_false, Bool.or_self]
  rw [Query.readConditions, if_neg (Bool.not_eq_true _ ▸ hshut)]

theorem pathEnds_conjoined (more : List (ConjunctionTree × ConditionTree)) (h : PathEnds ts) :
    PathEnds (conjoined loopVar more ++ ts) := by
  cases more with
  | nil => exact h
  | cons m more =>
    obtain ⟨c | c, condition⟩ := m <;> trivial

theorem pathEnds_filters (filters : List FilterTree) (h : PathEnds ts) :
    PathEnds (filters.flatMap (·.tokens loopVar) ++ ts) := by
  cases filters with
  | nil => exact h
  | cons f filters => trivial

/-- The rest of a clause is read before what follows the clause. -/
theorem readConditions_conjoined {cs : List Condition} (more : List (ConjunctionTree × ConditionTree))
    (hends : PathEnds ts) (h : readConditions separator loopVar true ts = .ok (cs, rest)) :
    readConditions separator loopVar true (conjoined loopVar more ++ ts)
      = .ok (more.map (·.2.condition separator) ++ cs, rest) := by
  induction more with
  | nil => exact h
  | cons m more ih =>
    have hts : conjoined loopVar (m :: more) ++ ts = m.1.token :: (m.2.tokens loopVar ++ (conjoined loopVar more ++ ts)) :=
      congrArg (m.1.token :: ·) (List.append_assoc ..)
    rw [hts, readConditions_of_opensCondition m.1.opensCondition_token
      (m.2.readCondition_tokens (pathEnds_conjoined more hends)), ih]
    rfl

theorem readConditions_filters {opened : Bool} (filters : List FilterTree)
    (h : Resumes [.SORT, .LIMIT, .RETURN] rest) :
    readConditions separator loopVar opened (filters.flatMap (·.tokens loopVar) ++ rest)
      = .ok (filters.flatMap (·.conditions separator), rest) := by
  induction filters generalizing opened with
  | nil => exact h.readConditions
  | cons f filters ih =>
    have hends : PathEnds (filters.flatMap (·.tokens loopVar) ++ rest) := pathEnds_filters filters h.pathEnds
    have hopens : opensCondition opened f.keyword.token = true := by
      simp [opensCondition, f.keyword.isKeyword_token]
    have hts : (f :: filters).flatMap (·.tokens loopVar) ++ rest = f.keyword.token :: (f.first.tokens loopVar
        ++ (conjoined loopVar f.more ++ (filters.flatMap (·.tokens loopVar) ++ rest))) := by
      simp [FilterTree.tokens]
    rw [hts, readConditions_of_opensCondition hopens (f.first.readCondition_tokens (pathEnds_conjoined f.more hends)),
      readConditions_conjoined f.more hends ih]
    rfl

/-- What is read as conditions is the rest of an open clause with further clauses after it. -/
theorem exists_of_readConditions {opened : Bool} {cs : List Condition}
    (h : readConditions separator loopVar opened ts = .ok (cs, rest)) :
    ∃ (more : List (ConjunctionTree × ConditionTree)) (filters : List FilterTree), (opened = false → more = []) ∧
      ts = conjoined loopVar more ++ (filters.flatMap (·.tokens loopVar) ++ rest) ∧
      more.map (·.2.condition separator) ++ filters.flatMap (·.conditions separator) = cs := by
  fun_induction readConditions separator loopVar opened ts generalizing cs with
  | case1 =>
    cases h
    exact ⟨[], [], fun _ => rfl, rfl, rfl⟩
  | case2 => cases h
  | case3 opened t ts ho c ts' hc _ ih =>
    obtain ⟨⟨cs', rest'⟩, hcs, h⟩ := exists_of_map_eq_ok h
    cases h
    obtain ⟨tree, rfl, rfl⟩ := exists_of_readCondition hc
    obtain ⟨more, filters, -, rfl, rfl⟩ := ih hcs
    obtain ⟨s, rfl⟩ | ⟨rfl, conj, rfl⟩ := opensCondition_eq_true ho
    · exact ⟨[], ⟨s, tree, more⟩ :: filters, fun _ => rfl, by simp [conjoined, FilterTree.tokens],
        by simp [FilterTree.conditions]⟩
    · exact ⟨(conj, tree) :: more, filters, nofun, by simp [conjoined], rfl⟩
  | case4 =>
    cases h
    exact ⟨[], [], fun _ => rfl, rfl, rfl⟩

/-! ## Sort keys -/

/-- No direction follows. -/
def DirectionEnds (ts : List Token) : Prop := ∀ t ∈ ts.head?, ∀ k ∈ [Keyword.ASC, .DESC], t.isKeyword k = false

theorem Resumes.ne_comma {ks : List Keyword} (h : Resumes ks ts) (us : List Token) : ts ≠ .comma :: us := by
  obtain ⟨k, -, s, rest, rfl⟩ := h
  nofun

theorem Resumes.directionEnds (h : Resumes [.LIMIT, .RETURN] ts) : DirectionEnds ts := by
  intro t ht k hk
  obtain ⟨ts, rfl⟩ := List.head?_eq_some_iff.mp ht
  refine h.isKeyword_head fun hk' => ?_
  cases k <;> simp at hk hk'

theorem directionEnds_comma : DirectionEnds (.comma :: ts) := by
  rintro t ⟨⟩ k _
  rfl

theorem SortKeyTree.readSortKey_tokens (k : SortKeyTree) (hpath : PathEnds rest) (hdir : DirectionEnds rest) :
    readSortKey separator loopVar (k.tokens loopVar ++ rest) = .ok (k.key separator, rest) := by
  obtain ⟨path, direction⟩ := k
  show readSortKey separator loopVar ((path.tokens loopVar ++ direction.tokens) ++ rest) = _
  rw [List.append_assoc, readSortKey]
  cases direction with
  | absent =>
    show (readPath separator loopVar (path.tokens loopVar ++ rest) >>= _) = _
    rw [path.readPath_tokens hpath]
    cases rest with
    | nil => rfl
    | cons t ts =>
      have hasc : t.isKeyword .ASC = false := hdir t rfl .ASC (by simp)
      have hdesc : t.isKeyword .DESC = false := hdir t rfl .DESC (by simp)
      show (if t.isKeyword .DESC then _ else if t.isKeyword .ASC then _ else _) = _
      rw [hasc, hdesc]
      rfl
  | asc s =>
    show (readPath separator loopVar (path.tokens loopVar ++ s.token :: rest) >>= _) = _
    rw [path.readPath_tokens s.pathEnds]
    show (if s.token.isKeyword .DESC then _ else if s.token.isKeyword .ASC then _ else _) = _
    rw [s.isKeyword_token, s.isKeyword_token]
    rfl
  | desc s =>
    show (readPath separator loopVar (path.tokens loopVar ++ s.token :: rest) >>= _) = _
    rw [path.readPath_tokens s.pathEnds]
    show (if s.token.isKeyword .DESC then _ else if s.token.isKeyword .ASC then _ else _) = _
    rw [s.isKeyword_token, s.isKeyword_token]
    rfl

theorem exists_of_readSortKey {key : SortKey} (h : readSortKey separator loopVar ts = .ok (key, rest)) :
    ∃ tree : SortKeyTree, ts = tree.tokens loopVar ++ rest ∧ tree.key separator = key := by
  obtain ⟨⟨field, ts₁⟩, hpath, h⟩ := bind_eq_ok h
  obtain ⟨path, rfl, rfl⟩ := exists_of_readPath hpath
  dsimp only at h
  split at h
  · next t ts =>
    split at h
    · next hdesc =>
      cases h
      obtain ⟨s, rfl⟩ := exists_spelling hdesc
      exact ⟨⟨path, .desc s⟩, by simp [SortKeyTree.tokens, DirectionTree.tokens], rfl⟩
    · split at h
      · next hasc =>
        cases h
        obtain ⟨s, rfl⟩ := exists_spelling hasc
        exact ⟨⟨path, .asc s⟩, by simp [SortKeyTree.tokens, DirectionTree.tokens], rfl⟩
      · cases h
        exact ⟨⟨path, .absent⟩, by simp [SortKeyTree.tokens, DirectionTree.tokens], rfl⟩
  · cases h
    exact ⟨⟨path, .absent⟩, by simp [SortKeyTree.tokens, DirectionTree.tokens], rfl⟩

theorem readSortKeys_of_comma {key : SortKey} (h : readSortKey separator loopVar ts = .ok (key, .comma :: rest)) :
    readSortKeys separator loopVar ts
      = (readSortKeys separator loopVar rest).map fun (ks, rest) => (key :: ks, rest) := by
  rw [readSortKeys]
  split
  · next he => rw [h] at he; cases he
  · next he => rw [h] at he; cases he; rfl
  · next hne he => rw [h] at he; cases he; exact (hne _ rfl).elim

theorem readSortKeys_of_ne_comma {key : SortKey} (h : readSortKey separator loopVar ts = .ok (key, rest))
    (hne : ∀ us, rest ≠ .comma :: us) : readSortKeys separator loopVar ts = .ok ([key], rest) := by
  rw [readSortKeys]
  split
  · next he => rw [h] at he; cases he
  · next he => rw [h] at he; cases he; exact (hne _ rfl).elim
  · next he => rw [h] at he; cases he; rfl

theorem readSortKeys_listed (first : SortKeyTree) (more : List SortKeyTree) (h : Resumes [.LIMIT, .RETURN] rest) :
    readSortKeys separator loopVar (first.tokens loopVar ++ (listed loopVar more ++ rest))
      = .ok ((first :: more).map (·.key separator), rest) := by
  induction more generalizing first with
  | nil => exact readSortKeys_of_ne_comma (first.readSortKey_tokens h.pathEnds h.directionEnds) h.ne_comma
  | cons k more ih =>
    have hts : listed loopVar (k :: more) ++ rest = .comma :: (k.tokens loopVar ++ (listed loopVar more ++ rest)) :=
      congrArg (Token.comma :: ·) (List.append_assoc ..)
    rw [hts, readSortKeys_of_comma (first.readSortKey_tokens trivial directionEnds_comma), ih]
    rfl

theorem exists_of_readSortKeys {keys : List SortKey} (h : readSortKeys separator loopVar ts = .ok (keys, rest)) :
    ∃ (first : SortKeyTree) (more : List SortKeyTree), ts = first.tokens loopVar ++ (listed loopVar more ++ rest) ∧
      (first :: more).map (·.key separator) = keys := by
  fun_induction readSortKeys separator loopVar ts generalizing keys with
  | case1 => cases h
  | case2 ts key ts' hkey _ ih =>
    obtain ⟨⟨keys', rest'⟩, hkeys, h⟩ := exists_of_map_eq_ok h
    cases h
    obtain ⟨tree, rfl, rfl⟩ := exists_of_readSortKey hkey
    obtain ⟨first, more, rfl, rfl⟩ := ih hkeys
    exact ⟨tree, first :: more, by simp [listed], rfl⟩
  | case3 ts key rest' hne hkey =>
    cases h
    obtain ⟨tree, rfl, rfl⟩ := exists_of_readSortKey hkey
    exact ⟨tree, [], rfl, rfl⟩

/-! ## Sort and limit clauses -/

theorem readSort_tokens (sort : Option SortTree) (h : Resumes [.LIMIT, .RETURN] rest) :
    readSort separator loopVar (sort.elim [] (·.tokens loopVar) ++ rest)
      = .ok (sort.elim [] (·.keys separator), rest) := by
  cases sort with
  | none =>
    obtain ⟨k, hk, s, rest, rfl⟩ := id h
    show (if s.token.isKeyword .SORT then _ else _) = _
    rw [h.isKeyword_head (by decide)]
    rfl
  | some sort =>
    have hts : sort.tokens loopVar ++ rest
        = sort.keyword.token :: (sort.first.tokens loopVar ++ (listed loopVar sort.more ++ rest)) :=
      congrArg (sort.keyword.token :: ·) (List.append_assoc ..)
    show readSort separator loopVar (sort.tokens loopVar ++ rest) = _
    rw [hts, readSort, sort.keyword.isKeyword_token, readSortKeys_listed sort.first sort.more h]
    rfl

theorem exists_of_readSort {keys : List SortKey} (h : readSort separator loopVar ts = .ok (keys, rest)) :
    ∃ sort : Option SortTree, ts = sort.elim [] (·.tokens loopVar) ++ rest ∧
      sort.elim [] (·.keys separator) = keys := by
  unfold readSort at h
  split at h
  · split at h
    · next hsort =>
      obtain ⟨s, rfl⟩ := exists_spelling hsort
      obtain ⟨first, more, rfl, rfl⟩ := exists_of_readSortKeys h
      exact ⟨some ⟨s, first, more⟩, by simp [SortTree.tokens], rfl⟩
    · cases h
      exact ⟨none, rfl, rfl⟩
  · cases h
    exact ⟨none, rfl, rfl⟩

theorem readLimitClause_tokens (limit : Option LimitTree) (h : Resumes [.RETURN] rest) :
    readLimitClause (limit.elim [] (·.tokens) ++ rest) = .ok (limit.map (·.limit), rest) := by
  obtain ⟨k, hk, s, rest, rfl⟩ := id h
  cases limit with
  | none =>
    show (if s.token.isKeyword .LIMIT then _ else _) = _
    rw [h.isKeyword_head (by decide)]
    rfl
  | some limit =>
    obtain ⟨keyword, offset, count⟩ := limit
    cases offset with
    | none =>
      show readLimitClause (keyword.token :: count.token :: s.token :: rest) = _
      rw [readLimitClause, keyword.isKeyword_token, readLimit, count.readOperand_token]
      rfl
    | some offset =>
      show readLimitClause (keyword.token :: offset.token :: .comma :: count.token :: s.token :: rest) = _
      rw [readLimitClause, keyword.isKeyword_token, readLimit, offset.readOperand_token]
      show ((readOperand (count.token :: s.token :: rest) >>= _).map _) = _
      rw [count.readOperand_token]
      rfl

theorem exists_of_readLimitClause {l : Option Limit} (h : readLimitClause ts = .ok (l, rest)) :
    ∃ limit : Option LimitTree, ts = limit.elim [] (·.tokens) ++ rest ∧ limit.map (·.limit) = l := by
  unfold readLimitClause at h
  split at h
  · split at h
    · next hlimit =>
      obtain ⟨s, rfl⟩ := exists_spelling hlimit
      obtain ⟨⟨l', rest'⟩, hread, h⟩ := exists_of_map_eq_ok h
      cases h
      obtain ⟨⟨first, ts₁⟩, hfirst, hread⟩ := bind_eq_ok hread
      obtain ⟨o, rfl, rfl⟩ := exists_of_readOperand hfirst
      dsimp only at hread
      split at hread
      · obtain ⟨⟨second, ts₂⟩, hsecond, hread⟩ := bind_eq_ok hread
        cases hread
        obtain ⟨o₂, rfl, rfl⟩ := exists_of_readOperand hsecond
        exact ⟨some ⟨s, some o, o₂⟩, rfl, rfl⟩
      · cases hread
        exact ⟨some ⟨s, none, o⟩, rfl, rfl⟩
    · cases h
      exact ⟨none, rfl, rfl⟩
  · cases h
    exact ⟨none, rfl, rfl⟩

/-! ## Whole queries -/

theorem resumes_limit (limit : Option LimitTree) (h : Resumes [.RETURN] rest) :
    Resumes [.LIMIT, .RETURN] (limit.elim [] (·.tokens) ++ rest) := by
  cases limit with
  | none => exact h.mono (by simp)
  | some limit => exact limit.keyword.resumes (by simp)

theorem resumes_sort (sort : Option SortTree) (h : Resumes [.LIMIT, .RETURN] rest) :
    Resumes [.SORT, .LIMIT, .RETURN] (sort.elim [] (·.tokens loopVar) ++ rest) := by
  cases sort with
  | none => exact h.mono (by simp)
  | some sort => exact sort.keyword.resumes (by simp)

namespace QueryTree

theorem resumes_tailTokens (q : QueryTree) : Resumes [.SORT, .LIMIT, .RETURN] q.tailTokens :=
  resumes_sort q.sort (resumes_limit q.limit (q.returnWord.resumes (by simp)))

/-- **A query that is written down is read back.** -/
theorem ofTokens_tokens (q : QueryTree) : ofTokens separator q.tokens = .ok (q.query separator) := by
  have hreturn : Resumes [.RETURN] [q.returnWord.token, .word q.loopVar] := q.returnWord.resumes (by simp)
  rw [ofTokens, tokens, q.forWord.expectKeyword_token]
  show (expectKeyword .IN (q.inWord.token :: _) >>= _) = _
  rw [q.inWord.expectKeyword_token]
  show (readConditions separator q.loopVar false (q.filters.flatMap (·.tokens q.loopVar) ++ q.tailTokens) >>= _) = _
  rw [readConditions_filters q.filters q.resumes_tailTokens]
  show (readSort separator q.loopVar q.tailTokens >>= _) = _
  rw [tailTokens, readSort_tokens q.sort (resumes_limit q.limit hreturn)]
  show (readLimitClause _ >>= _) = _
  rw [readLimitClause_tokens q.limit hreturn]
  show (expectKeyword .RETURN _ >>= _) = _
  rw [q.returnWord.expectKeyword_token]
  simp [readWord, bind, Except.bind, pure, Except.pure, query]

end QueryTree

/-- **What is read is written down.** -/
theorem exists_of_ofTokens {q : Query} (h : ofTokens separator ts = .ok q) :
    ∃ tree : QueryTree, ts = tree.tokens ∧ tree.query separator = q := by
  obtain ⟨ts₁, hfor, h⟩ := bind_eq_ok h
  obtain ⟨⟨loopVar, ts₂⟩, hvar, h⟩ := bind_eq_ok h
  obtain ⟨ts₃, hin, h⟩ := bind_eq_ok h
  obtain ⟨⟨collection, ts₄⟩, hcollection, h⟩ := bind_eq_ok h
  obtain ⟨⟨cs, ts₅⟩, hconditions, h⟩ := bind_eq_ok h
  obtain ⟨⟨keys, ts₆⟩, hsort, h⟩ := bind_eq_ok h
  obtain ⟨⟨l, ts₇⟩, hlimit, h⟩ := bind_eq_ok h
  obtain ⟨ts₈, hreturn, h⟩ := bind_eq_ok h
  obtain ⟨⟨returned, ts₉⟩, hreturned, h⟩ := bind_eq_ok h
  dsimp only at h
  split at h
  · cases h
  · next hsame =>
    obtain rfl := not_not.mp hsame
    split at h
    · cases h
      obtain ⟨forWord, rfl⟩ := exists_of_expectKeyword hfor
      obtain rfl := exists_of_readWord hvar
      obtain ⟨inWord, rfl⟩ := exists_of_expectKeyword hin
      obtain rfl := exists_of_readWord hcollection
      obtain ⟨more, filters, hmore, rfl, rfl⟩ := exists_of_readConditions hconditions
      obtain rfl := hmore rfl
      obtain ⟨sort, rfl, rfl⟩ := exists_of_readSort hsort
      obtain ⟨limit, rfl, rfl⟩ := exists_of_readLimitClause hlimit
      obtain ⟨returnWord, rfl⟩ := exists_of_expectKeyword hreturn
      obtain rfl := exists_of_readWord hreturned
      exact ⟨⟨forWord, returned, inWord, collection, filters, sort, limit, returnWord⟩, rfl, rfl⟩
    · cases h

/-- A token sequence is read exactly when it is a query written down, and what is read is what the query means. -/
theorem ofTokens_eq_ok_iff {q : Query} :
    ofTokens separator ts = .ok q ↔ ∃ tree : QueryTree, ts = tree.tokens ∧ tree.query separator = q := by
  refine ⟨exists_of_ofTokens, ?_⟩
  rintro ⟨tree, rfl, rfl⟩
  exact tree.ofTokens_tokens

end DocStore.Query
