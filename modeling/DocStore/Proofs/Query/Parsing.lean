import DocStore.Error
import DocStore.Proofs.Query.Lexing
import DocStore.Proofs.Query.Unambiguous

/-!
# Parsing accepts exactly the grammar

A text is parsed exactly when its tokens are a query written down, and what is parsed is what that query means; the
derivation is the only one. Its literals are numbers and texts (`literal_of_tokens`), since no other value has a lexeme.
Main result: `parse_exact`.
-/

namespace DocStore.Query

variable {separator text : String} {ts : List Token} {t : Token} {v : Value} {cs rest : List Char}

/-! ## The literals of a text -/

theorem number_of_number? (h : number? cs = some (v, rest)) : ∃ x, v = .number x := by
  have hunsigned {negative : Bool} {cs : List Char} (h : unsigned? negative cs = some (v, rest)) :
      ∃ x, v = .number x := by
    cases cs with
    | nil => cases h
    | cons c cs =>
      rw [unsigned?, Option.ite_none_right_eq_some, Option.some.injEq] at h
      obtain ⟨-, h⟩ := h
      obtain rfl := (congrArg Prod.fst h).symm
      unfold numberAfter
      split
      · split <;> exact ⟨_, rfl⟩
      · split <;> exact ⟨_, rfl⟩
  unfold number? at h
  split at h
  · exact hunsigned h
  · exact hunsigned h

theorem symbol?_ne_literal (h : symbol? cs = some (t, rest)) : t ≠ .literal v := by
  rintro rfl
  unfold symbol? at h
  split at h <;> cases h

/-- A lexeme that gives a literal is a number or a quotation. -/
theorem literal_of_next? (h : next? cs = some (some (.literal v), rest)) :
    (∃ x, v = .number x) ∨ ∃ s, v = .string s := by
  simp only [next?, Option.orElse_eq_orElse, Option.orElse_eq_or, Option.or_eq_some_iff, Option.map_eq_some_iff,
    Prod.mk.injEq, Prod.exists] at h
  obtain h | ⟨-, ⟨_, _, _, ht, -⟩ | ⟨-, ⟨_, _, _, ht, -⟩ | ⟨-, ⟨_, _, h, ht, -⟩ | ⟨-, ⟨s, _, _, ht, -⟩ |
    ⟨-, ⟨s, _, _, ht, -⟩ | ⟨-, _, _, h, ht, -⟩⟩⟩⟩⟩⟩ := h
  · exact (blank?_ne_token h).elim
  · cases ht
  · cases ht
  · cases ht
    exact .inl (number_of_number? h)
  · cases ht
    exact .inr ⟨s, rfl⟩
  · cases ht
    exact .inr ⟨s, rfl⟩
  · cases ht
    exact (symbol?_ne_literal h rfl).elim

/-- **The literals of a text are numbers and texts.** -/
theorem literal_of_tokens (h : tokens text = .ok ts) (hv : .literal v ∈ ts) :
    (∃ x, v = .number x) ∨ ∃ s, v = .string s := by
  obtain ⟨cs, rest, hnext⟩ := exists_next?_of_mem_scan (tokens_eq_ok_iff.mp h) hv
  exact literal_of_next? hnext

/-! ## Texts -/

theorem parse_eq_ok_iff {q : Query} :
    parse text separator = .ok q ↔ ∃ tree : QueryTree, tokens text = .ok tree.tokens ∧ tree.query separator = q := by
  constructor
  · intro h
    obtain ⟨ts, hts, h⟩ := bind_eq_ok h
    obtain ⟨tree, rfl, hq⟩ := ofTokens_eq_ok_iff.mp h
    exact ⟨tree, hts, hq⟩
  · rintro ⟨tree, hts, rfl⟩
    rw [parse, hts]
    exact tree.ofTokens_tokens

/-- **Parsing accepts exactly the grammar and gives the meaning of the only derivation.** Every text that is no query
fails as a malformed query. -/
theorem parse_exact (text separator : String) :
    (∀ q, parse text separator = .ok q ↔
      ∃ tree : QueryTree, tokens text = .ok tree.tokens ∧ tree.query separator = q) ∧
    (∀ tree tree' : QueryTree, tree.tokens = tree'.tokens → tree = tree') ∧
    (∀ tree : QueryTree, tokens text = .ok tree.tokens → ∀ v, .literal v ∈ tree.tokens →
      (∃ x, v = .number x) ∨ ∃ s, v = .string s) ∧
    ((∀ tree : QueryTree, tokens text ≠ .ok tree.tokens) →
      ∃ e, parse text separator = .error e ∧ (StoreError.badSyntax e).kind = .malformedQuery) := by
  refine ⟨fun q => parse_eq_ok_iff, fun tree tree' => QueryTree.tokens_inj,
    fun tree h v hv => literal_of_tokens h hv, fun hno => ?_⟩
  cases h : parse text separator with
  | error e => exact ⟨e, rfl, rfl⟩
  | ok q =>
    obtain ⟨tree, htree, -⟩ := parse_eq_ok_iff.mp h
    exact (hno tree htree).elim

/-! ## A text with words in unusual places -/

/-- The tokens of a text with at most a given number of lexemes. -/
def scanWithin : Nat → List Char → Option (List Token)
  | _, [] => some []
  | 0, _ :: _ => none
  | n + 1, c :: cs => (next? (c :: cs)).bind fun (t, rest) => (scanWithin n rest).map (t.toList ++ ·)

theorem scan_of_scanWithin {n : Nat} (h : scanWithin n cs = some ts) : scan cs = .ok ts := by
  induction n generalizing cs ts with
  | zero =>
    cases cs with
    | nil => cases h; rw [scan.eq_def]
    | cons c cs => cases h
  | succ n ih =>
    cases cs with
    | nil => cases h; rw [scan.eq_def]
    | cons c cs =>
      obtain ⟨⟨t, rest⟩, hnext, h⟩ := Option.bind_eq_some_iff.mp h
      obtain ⟨ts', hts', rfl⟩ := Option.map_eq_some_iff.mp h
      rw [scan.eq_def]
      dsimp only
      split
      · next he => rw [hnext] at he; cases he
      · next he =>
        rw [hnext] at he
        cases he
        rw [ih hts']
        rfl

/-- The variable is called like a keyword, the collection and a field like literals. -/
def oddText : String :=
  "for FOR in null Filter true == FOR.false AND FOR.a.b <= @p && FOR.c != 2 SORT FOR.k desc, FOR.n LIMIT 1, @m return FOR"

def oddTree : QueryTree where
  forWord := ⟨"for", by decide⟩
  loopVar := "FOR"
  inWord := ⟨"in", by decide⟩
  collection := "null"
  filters := [⟨⟨"Filter", by decide⟩, .operandFirst (.word .true "true" (by decide)) .eq ⟨"false", []⟩,
    [(.word ⟨"AND", by decide⟩, .pathFirst ⟨"a", ["b"]⟩ .le (.param "p")),
      (.symbol, .pathFirst ⟨"c", []⟩ .ne (.literal (.ofInt 2)))]⟩]
  sort := some ⟨⟨"SORT", by decide⟩, ⟨⟨"k", []⟩, .desc ⟨"desc", by decide⟩⟩, [⟨⟨"n", []⟩, .absent⟩]⟩
  limit := some ⟨⟨"LIMIT", by decide⟩, some (.literal (.ofInt 1)), .param "m"⟩
  returnWord := ⟨"return", by decide⟩

set_option maxRecDepth 4000 in
theorem tokens_oddText : tokens oddText = .ok oddTree.tokens := by
  have hscan : scan oddText.toList = .ok oddTree.tokens := scan_of_scanWithin (n := 100) rfl
  rw [tokens, hscan]
  rfl

/-- The text parses as its tree says, from no other tree, and a text without the word `in` does not parse. -/
theorem parse_exact_oddText :
    parse oddText "/" = .ok ⟨"FOR", "null",
      [⟨"false", .eq, .literal (.bool true)⟩, ⟨"a/b", .le, .param "p"⟩, ⟨"c", .ne, .literal (.ofInt 2)⟩],
      [⟨"k", .descending⟩, ⟨"n", .ascending⟩], some ⟨some (.literal (.ofInt 1)), .param "m"⟩⟩ ∧
    (∀ tree : QueryTree, tokens oddText = .ok tree.tokens → tree = oddTree) ∧
    ∃ e, parse "for v of c return v" "/" = .error e ∧ (StoreError.badSyntax e).kind = .malformedQuery := by
  refine ⟨((parse_exact oddText "/").1 _).mpr ⟨oddTree, tokens_oddText, rfl⟩, fun tree htree => ?_,
    (parse_exact "for v of c return v" "/").2.2.2 fun tree htree => ?_⟩
  · rw [tokens_oddText] at htree
    exact (parse_exact oddText "/").2.1 _ _ (Except.ok.inj htree).symm
  · have hscan : scan "for v of c return v".toList
        = .ok [.word "for", .word "v", .word "of", .word "c", .word "return", .word "v"] :=
      scan_of_scanWithin (n := 20) rfl
    rw [tokens, hscan] at htree
    have hafter := (List.cons.inj (Except.ok.inj htree)).2
    have hof : .word "of" = tree.inWord.token := (List.cons.inj (List.cons.inj hafter).2).1
    have hno : sameLetters "of" "IN" = true := Token.word.inj hof.symm ▸ tree.inWord.spells
    exact absurd hno (by decide)

end DocStore.Query
