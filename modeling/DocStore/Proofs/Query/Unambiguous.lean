import DocStore.Proofs.Query.Reading

/-!
# Queries have one derivation

Two trees of one kind that are written at the front of the same tokens are the same tree, and the same tokens follow them,
provided that what follows cannot continue either (`…_append_inj`). It goes up the grammar from words to whole queries:
what is read first tells at every place which form the text has there, and parts that repeat or may be absent follow their
items (`flatMap_append_inj`, `elim_append_inj`). Main lemma: `QueryTree.tokens_inj`.
-/

namespace DocStore.Query

variable {loopVar : String} {rest rest' : List Token} {k m : Keyword}

/-! ## Words -/

/-- A word spells one keyword at most. -/
theorem Spelling.keyword_eq {s : Spelling k} {s' : Spelling m} (h : s.token = s'.token) : k = m := by
  have hk := s.isKeyword_token m
  rw [h, s'.isKeyword_token, decide_eq_true rfl] at hk
  exact of_decide_eq_true hk.symm

theorem Spelling.token_inj {s s' : Spelling k} (h : s.token = s'.token) : s = s' := by
  cases s
  cases s'
  cases h
  rfl

theorem Resumes.keyword_mem {ks : List Keyword} {ts : List Token} {s : Spelling k} (h : Resumes ks ts)
    (hts : ts = s.token :: rest) : k ∈ ks := by
  obtain ⟨m, hm, s', rest', rfl⟩ := h
  exact Spelling.keyword_eq (List.cons.inj hts).1 ▸ hm

/-- A word is one literal at most. -/
theorem literal_eq_of_sameLetters {l l' : WordLiteral} {w : String} (h : sameLetters w l.text = true)
    (h' : sameLetters w l'.text = true) : l = l' := by
  rw [sameLetters_eq_of_sameLetters h] at h'
  cases l <;> cases l' <;> first | rfl | cases h'

theorem OperandTree.token_inj {o o' : OperandTree} (h : o.token = o'.token) : o = o' := by
  cases o with
  | param name => cases o' <;> cases h; rfl
  | literal v => cases o' <;> cases h; rfl
  | word l w spells =>
    cases o' with
    | word l' w' spells' =>
      obtain rfl : w = w' := Token.word.inj h
      obtain rfl := literal_eq_of_sameLetters spells spells'
      rfl
    | _ => cases h

theorem ConjunctionTree.token_inj {c c' : ConjunctionTree} (h : c.token = c'.token) : c = c' := by
  cases c with
  | symbol => cases c' <;> cases h; rfl
  | word s =>
    cases c' with
    | symbol => cases h
    | word s' => rw [Spelling.token_inj h]

/-! ## Paths and conditions -/

theorem pointed_append_inj {names names' : List String} (hr : PathEnds rest) (hr' : PathEnds rest')
    (h : pointed names ++ rest = pointed names' ++ rest') : names = names' ∧ rest = rest' := by
  have hread := readNames_pointed names hr
  rw [h, readNames_pointed names' hr'] at hread
  cases hread
  exact ⟨rfl, rfl⟩

theorem PathTree.tokens_append_inj {p p' : PathTree} (hr : PathEnds rest) (hr' : PathEnds rest')
    (h : p.tokens loopVar ++ rest = p'.tokens loopVar ++ rest') : p = p' ∧ rest = rest' := by
  obtain ⟨hnames, hrest⟩ := pointed_append_inj hr hr' (List.cons.inj h).2
  obtain ⟨hfirst, hmore⟩ := List.cons.inj hnames
  exact ⟨PathTree.ext hfirst hmore, hrest⟩

/-- The second token tells on which side of a condition its path stands. -/
theorem ConditionTree.tokens_append_inj {c c' : ConditionTree} (hr : PathEnds rest) (hr' : PathEnds rest')
    (h : c.tokens loopVar ++ rest = c'.tokens loopVar ++ rest') : c = c' ∧ rest = rest' := by
  cases c with
  | pathFirst path op operand =>
    cases c' with
    | pathFirst path' op' operand' =>
      rw [tokens, tokens, List.append_assoc, List.append_assoc] at h
      obtain ⟨rfl, hops⟩ := PathTree.tokens_append_inj (by trivial) (by trivial) h
      simp only [List.cons_append, List.nil_append, List.cons.injEq, Token.comparison.injEq] at hops
      obtain ⟨rfl, hoperand, hrest⟩ := hops
      rw [OperandTree.token_inj hoperand]
      exact ⟨rfl, hrest⟩
    | operandFirst operand' op' path' => cases (List.cons.inj (List.cons.inj h).2).1
  | operandFirst operand op path =>
    cases c' with
    | pathFirst path' op' operand' => cases (List.cons.inj (List.cons.inj h).2).1
    | operandFirst operand' op' path' =>
      simp only [tokens, List.cons_append, List.cons.injEq, Token.comparison.injEq] at h
      obtain ⟨hoperand, rfl, hpath⟩ := h
      obtain ⟨rfl, hrest⟩ := PathTree.tokens_append_inj hr hr' hpath
      rw [OperandTree.token_inj hoperand]
      exact ⟨rfl, hrest⟩

/-! ## Repetition -/

section Repetition

variable {α : Type} {f : α → List Token} {as as' : List α} {x x' : Option α}

/-- Repeated items are told apart when each one is, before another item as before what follows the last one, and what
follows starts with no item. -/
theorem flatMap_append_inj (follows : List Token → Prop) (h : as.flatMap f ++ rest = as'.flatMap f ++ rest')
    (hr : follows rest) (hr' : follows rest') (hend : ∀ a ts, rest ≠ f a ++ ts) (hend' : ∀ a ts, rest' ≠ f a ++ ts)
    (hnext : ∀ a ts, follows (f a ++ ts))
    (hitem : ∀ a a' ts ts', follows ts → follows ts' → f a ++ ts = f a' ++ ts' → a = a' ∧ ts = ts') :
    as = as' ∧ rest = rest' := by
  have hmore {us : List Token} (hu : follows us) (bs : List α) : follows (bs.flatMap f ++ us) := by
    cases bs with
    | nil => exact hu
    | cons b bs =>
      rw [List.flatMap_cons, List.append_assoc]
      exact hnext b _
  induction as generalizing as' with
  | nil =>
    cases as' with
    | nil => exact ⟨rfl, h⟩
    | cons a' as' =>
      rw [List.flatMap_cons, List.append_assoc] at h
      exact (hend a' _ h).elim
  | cons a as ih =>
    cases as' with
    | nil =>
      rw [List.flatMap_cons, List.append_assoc] at h
      exact (hend' a _ h.symm).elim
    | cons a' as' =>
      rw [List.flatMap_cons, List.flatMap_cons, List.append_assoc, List.append_assoc] at h
      obtain ⟨rfl, htail⟩ := hitem a a' _ _ (hmore hr as) (hmore hr' as') h
      obtain ⟨rfl, hrest⟩ := ih htail
      exact ⟨rfl, hrest⟩

/-- A clause that may be absent is told apart when it is where it is present, and what follows does not start like it. -/
theorem elim_append_inj (h : x.elim [] f ++ rest = x'.elim [] f ++ rest') (hend : ∀ a, rest ≠ f a ++ rest')
    (hend' : ∀ a, rest' ≠ f a ++ rest) (hitem : ∀ a a', f a ++ rest = f a' ++ rest' → a = a' ∧ rest = rest') :
    x = x' ∧ rest = rest' := by
  cases x with
  | none =>
    cases x' with
    | none => exact ⟨rfl, h⟩
    | some a' => exact (hend a' h).elim
  | some a =>
    cases x' with
    | none => exact (hend' a h.symm).elim
    | some a' =>
      obtain ⟨rfl, hrest⟩ := hitem a a' h
      exact ⟨rfl, hrest⟩

end Repetition

/-! ## Filter clauses -/

/-- No conjunction follows. -/
def ClauseEnds (ts : List Token) : Prop := ∀ c : ConjunctionTree, c.token ∉ ts.head?

theorem Resumes.clauseEnds {ks : List Keyword} {ts : List Token} (h : Resumes ks ts) (hand : .AND ∉ ks) :
    ClauseEnds ts := by
  obtain ⟨k, hk, s, rest, rfl⟩ := h
  rintro (_ | s') hc
  · cases hc
  · exact hand (Spelling.keyword_eq (Option.some.inj hc) ▸ hk)

theorem conjoined_append_inj {more more' : List (ConjunctionTree × ConditionTree)} (hr : PathEnds rest)
    (hr' : PathEnds rest') (hc : ClauseEnds rest) (hc' : ClauseEnds rest')
    (h : conjoined loopVar more ++ rest = conjoined loopVar more' ++ rest') : more = more' ∧ rest = rest' := by
  refine flatMap_append_inj PathEnds h hr hr' (fun m ts hts => hc m.1 (congrArg List.head? hts))
    (fun m ts hts => hc' m.1 (congrArg List.head? hts)) ?_ ?_
  · rintro ⟨c | s, condition⟩ ts <;> trivial
  · intro m m' ts ts' hts hts' h
    obtain ⟨hconj, htail⟩ := List.cons.inj h
    obtain ⟨hcond, hrest⟩ := ConditionTree.tokens_append_inj hts hts' htail
    exact ⟨Prod.ext (ConjunctionTree.token_inj hconj) hcond, hrest⟩

theorem FilterTree.tokens_append_inj {f f' : FilterTree} (hr : PathEnds rest) (hr' : PathEnds rest')
    (hc : ClauseEnds rest) (hc' : ClauseEnds rest') (h : f.tokens loopVar ++ rest = f'.tokens loopVar ++ rest') :
    f = f' ∧ rest = rest' := by
  rw [tokens, tokens, List.cons_append, List.cons_append, List.append_assoc, List.append_assoc] at h
  obtain ⟨hkeyword, htail⟩ := List.cons.inj h
  obtain ⟨hfirst, htail⟩ := ConditionTree.tokens_append_inj (pathEnds_conjoined _ hr) (pathEnds_conjoined _ hr') htail
  obtain ⟨hmore, hrest⟩ := conjoined_append_inj hr hr' hc hc' htail
  exact ⟨FilterTree.ext (Spelling.token_inj hkeyword) hfirst hmore, hrest⟩

theorem filters_append_inj {filters filters' : List FilterTree} (hr : Resumes [.SORT, .LIMIT, .RETURN] rest)
    (hr' : Resumes [.SORT, .LIMIT, .RETURN] rest')
    (h : filters.flatMap (·.tokens loopVar) ++ rest = filters'.flatMap (·.tokens loopVar) ++ rest') :
    filters = filters' ∧ rest = rest' := by
  refine flatMap_append_inj (fun ts => PathEnds ts ∧ ClauseEnds ts) h
    ⟨hr.pathEnds, hr.clauseEnds (by decide)⟩ ⟨hr'.pathEnds, hr'.clauseEnds (by decide)⟩
    (fun f ts hts => absurd (hr.keyword_mem (s := f.keyword) hts) (by decide))
    (fun f ts hts => absurd (hr'.keyword_mem (s := f.keyword) hts) (by decide)) (fun f ts => ?_) ?_
  · have hkeyword : Resumes [.FILTER] (f.tokens loopVar ++ ts) := f.keyword.resumes (by simp)
    exact ⟨hkeyword.pathEnds, hkeyword.clauseEnds (by decide)⟩
  · intro f f' ts ts' hts hts' h
    exact FilterTree.tokens_append_inj hts.1 hts'.1 hts.2 hts'.2 h

/-! ## Sort and limit clauses -/

theorem DirectionEnds.keyword_notMem {ts : List Token} {s : Spelling k} (h : DirectionEnds ts)
    (hts : ts = s.token :: rest) : k ∉ [Keyword.ASC, .DESC] := by
  intro hk
  have hs := h s.token (congrArg List.head? hts) k hk
  rw [s.isKeyword_token, decide_eq_true rfl] at hs
  cases hs

theorem DirectionTree.tokens_append_inj {d d' : DirectionTree} (hr : DirectionEnds rest) (hr' : DirectionEnds rest')
    (h : d.tokens ++ rest = d'.tokens ++ rest') : d = d' ∧ rest = rest' := by
  cases d with
  | absent =>
    cases d' with
    | absent => exact ⟨rfl, h⟩
    | asc s' => exact absurd (by simp) (hr.keyword_notMem (s := s') h)
    | desc s' => exact absurd (by simp) (hr.keyword_notMem (s := s') h)
  | asc s =>
    cases d' with
    | absent => exact absurd (by simp) (hr'.keyword_notMem (s := s) h.symm)
    | asc s' =>
      obtain ⟨hs, hrest⟩ := List.cons.inj h
      rw [Spelling.token_inj hs]
      exact ⟨rfl, hrest⟩
    | desc s' => cases Spelling.keyword_eq (List.cons.inj h).1
  | desc s =>
    cases d' with
    | absent => exact absurd (by simp) (hr'.keyword_notMem (s := s) h.symm)
    | asc s' => cases Spelling.keyword_eq (List.cons.inj h).1
    | desc s' =>
      obtain ⟨hs, hrest⟩ := List.cons.inj h
      rw [Spelling.token_inj hs]
      exact ⟨rfl, hrest⟩

theorem DirectionTree.pathEnds_tokens (d : DirectionTree) (h : PathEnds rest) : PathEnds (d.tokens ++ rest) := by
  cases d with
  | absent => exact h
  | _ => trivial

theorem SortKeyTree.tokens_append_inj {k k' : SortKeyTree} (hp : PathEnds rest) (hp' : PathEnds rest')
    (hd : DirectionEnds rest) (hd' : DirectionEnds rest')
    (h : k.tokens loopVar ++ rest = k'.tokens loopVar ++ rest') : k = k' ∧ rest = rest' := by
  rw [tokens, tokens, List.append_assoc, List.append_assoc] at h
  obtain ⟨hpath, htail⟩ := PathTree.tokens_append_inj (k.direction.pathEnds_tokens hp)
    (k'.direction.pathEnds_tokens hp') h
  obtain ⟨hdirection, hrest⟩ := DirectionTree.tokens_append_inj hd hd' htail
  exact ⟨SortKeyTree.ext hpath hdirection, hrest⟩

theorem listed_append_inj {more more' : List SortKeyTree} (hr : Resumes [.LIMIT, .RETURN] rest)
    (hr' : Resumes [.LIMIT, .RETURN] rest') (h : listed loopVar more ++ rest = listed loopVar more' ++ rest') :
    more = more' ∧ rest = rest' := by
  refine flatMap_append_inj (fun ts => PathEnds ts ∧ DirectionEnds ts) h ⟨hr.pathEnds, hr.directionEnds⟩
    ⟨hr'.pathEnds, hr'.directionEnds⟩ (fun k ts => hr.ne_comma _) (fun k ts => hr'.ne_comma _)
    (fun k ts => ⟨trivial, directionEnds_comma⟩) ?_
  intro k k' ts ts' hts hts' h
  exact SortKeyTree.tokens_append_inj hts.1 hts'.1 hts.2 hts'.2 (List.cons.inj h).2

theorem ends_listed (loopVar : String) (more : List SortKeyTree) (h : Resumes [.LIMIT, .RETURN] rest) :
    PathEnds (listed loopVar more ++ rest) ∧ DirectionEnds (listed loopVar more ++ rest) := by
  cases more with
  | nil => exact ⟨h.pathEnds, h.directionEnds⟩
  | cons k more => exact ⟨trivial, directionEnds_comma⟩

theorem SortTree.tokens_append_inj {s s' : SortTree} (hr : Resumes [.LIMIT, .RETURN] rest)
    (hr' : Resumes [.LIMIT, .RETURN] rest') (h : s.tokens loopVar ++ rest = s'.tokens loopVar ++ rest') :
    s = s' ∧ rest = rest' := by
  rw [tokens, tokens, List.cons_append, List.cons_append, List.append_assoc, List.append_assoc] at h
  obtain ⟨hkeyword, htail⟩ := List.cons.inj h
  obtain ⟨hp, hd⟩ := ends_listed loopVar s.more hr
  obtain ⟨hp', hd'⟩ := ends_listed loopVar s'.more hr'
  obtain ⟨hfirst, htail⟩ := SortKeyTree.tokens_append_inj hp hp' hd hd' htail
  obtain ⟨hmore, hrest⟩ := listed_append_inj hr hr' htail
  exact ⟨SortTree.ext (Spelling.token_inj hkeyword) hfirst hmore, hrest⟩

theorem sort_append_inj {sort sort' : Option SortTree} (hr : Resumes [.LIMIT, .RETURN] rest)
    (hr' : Resumes [.LIMIT, .RETURN] rest')
    (h : sort.elim [] (·.tokens loopVar) ++ rest = sort'.elim [] (·.tokens loopVar) ++ rest') :
    sort = sort' ∧ rest = rest' :=
  elim_append_inj h (fun s hs => absurd (hr.keyword_mem (s := s.keyword) hs) (by decide))
    (fun s hs => absurd (hr'.keyword_mem (s := s.keyword) hs) (by decide))
    fun _ _ => SortTree.tokens_append_inj hr hr'

/-- The token after the first operand tells whether it is an offset. -/
theorem LimitTree.tokens_append_inj {l l' : LimitTree} (hr : Resumes [.RETURN] rest) (hr' : Resumes [.RETURN] rest')
    (h : l.tokens ++ rest = l'.tokens ++ rest') : l = l' ∧ rest = rest' := by
  obtain ⟨keyword, offset, count⟩ := l
  obtain ⟨keyword', offset', count'⟩ := l'
  obtain ⟨hkeyword, htail⟩ := List.cons.inj h
  cases offset with
  | none =>
    cases offset' with
    | none =>
      obtain ⟨hcount, hrest⟩ := List.cons.inj htail
      exact ⟨LimitTree.ext (Spelling.token_inj hkeyword) rfl (OperandTree.token_inj hcount), hrest⟩
    | some offset' => exact (hr.ne_comma _ (List.cons.inj htail).2).elim
  | some offset =>
    cases offset' with
    | none => exact (hr'.ne_comma _ (List.cons.inj htail).2.symm).elim
    | some offset' =>
      obtain ⟨hfirst, htail⟩ := List.cons.inj htail
      obtain ⟨hcount, hrest⟩ := List.cons.inj (List.cons.inj htail).2
      exact ⟨LimitTree.ext (Spelling.token_inj hkeyword) (congrArg some (OperandTree.token_inj hfirst))
        (OperandTree.token_inj hcount), hrest⟩

theorem limit_append_inj {limit limit' : Option LimitTree} (hr : Resumes [.RETURN] rest)
    (hr' : Resumes [.RETURN] rest') (h : limit.elim [] (·.tokens) ++ rest = limit'.elim [] (·.tokens) ++ rest') :
    limit = limit' ∧ rest = rest' :=
  elim_append_inj h (fun l hl => absurd (hr.keyword_mem (s := l.keyword) hl) (by decide))
    (fun l hl => absurd (hr'.keyword_mem (s := l.keyword) hl) (by decide))
    fun _ _ => LimitTree.tokens_append_inj hr hr'

/-! ## Whole queries -/

/-- **A token sequence has one derivation at most.** -/
theorem QueryTree.tokens_inj {q q' : QueryTree} (h : q.tokens = q'.tokens) : q = q' := by
  have hreturn (v : String) : Resumes [.RETURN] [q.returnWord.token, .word v] := q.returnWord.resumes (by simp)
  have hreturn' (v : String) : Resumes [.RETURN] [q'.returnWord.token, .word v] := q'.returnWord.resumes (by simp)
  simp only [tokens, List.cons.injEq, Token.word.injEq] at h
  obtain ⟨hfor, hvar, hin, hcollection, h⟩ := h
  rw [hvar] at h
  obtain ⟨hfilters, htail⟩ := filters_append_inj q.resumes_tailTokens q'.resumes_tailTokens h
  rw [tailTokens, tailTokens, hvar] at htail
  obtain ⟨hsort, htail⟩ := sort_append_inj (resumes_limit _ (hreturn _)) (resumes_limit _ (hreturn' _)) htail
  obtain ⟨hlimit, htail⟩ := limit_append_inj (hreturn _) (hreturn' _) htail
  exact QueryTree.ext (Spelling.token_inj hfor) hvar (Spelling.token_inj hin) hcollection hfilters hsort hlimit
    (Spelling.token_inj (List.cons.inj htail).1)

end DocStore.Query
