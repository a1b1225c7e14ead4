import DocStore.Proofs.Query.Numerals

/-!
# Lexemes and their alternatives

A lexeme is of one of eight kinds, tried in a fixed order: each has a pattern for what counts in it, with given characters
before and after (`alternatives`). What the lexer reads of each kind is what the pattern prefers, with the token that the
lexeme stands for (`Alternative.Reads`, `reads_alternatives`). So the lexer takes the first lexeme of a text: of the first
alternative that matches at its front, at its greatest length (`exists_firstLexeme?_of_next?`), of which there is at most
one (`TakesLexeme.unique`), and where it takes none no alternative matches (`firstLexeme?_of_next?_eq_none`).
-/

namespace DocStore.Query

open Text (Pattern)
open Text.Pattern

variable {cs rest w : List Char} {c d quote : Char} {t : Token}

/-! ## Quotations -/

/-- The text that the inside of a quotation stands for; a backslash at its end would stand for itself. -/
def unescaped : List Char → List Char
  | [] => []
  | c :: cs =>
    if c = '\\' then
      match cs with
      | [] => ['\\']
      | d :: ds => unescape d :: unescaped ds
    else c :: unescaped cs

/-- Whether a backslash without a character to take with it ends a text. -/
def endsInBackslash : List Char → Bool
  | [] => false
  | c :: cs =>
    if c = '\\' then
      match cs with
      | [] => true
      | _ :: ds => endsInBackslash ds
    else endsInBackslash cs

theorem ends_quotationPattern_plain (hquote : c ≠ quote) (hc : c ≠ '\\') (cs : List Char) :
    (quotationPattern quote).ends (c :: cs) = (quotationPattern quote).ends cs ++ [c :: cs] := by
  refine ends_many_of_singleton ?_ (Nat.lt_succ_self _)
  rw [ends, ends_one_cons, char, ends_seq_one_cons, if_pos (by simp [hquote, hc]), if_neg (by simpa using hc)]
  rfl

theorem ends_quotationPattern_escaped (hd : d ≠ '\n') (ds : List Char) :
    (quotationPattern quote).ends ('\\' :: d :: ds) = (quotationPattern quote).ends ds ++ ['\\' :: d :: ds] := by
  refine ends_many_of_singleton ?_ (Nat.lt_succ_of_lt (Nat.lt_succ_self _))
  rw [ends, ends_one_cons, char, ends_seq_one_cons, if_neg (by simp), if_pos (beq_self_eq_true _), ends_one_cons,
    if_pos (by simpa using hd)]
  rfl

/-- The inside of a quotation stops before a quote, and before a backslash that takes nothing with it. -/
theorem ends_quotationPattern_stop (h : c = quote ∧ c ≠ '\\' ∨ c = '\\' ∧ ∀ d ∈ cs.head?, d = '\n') :
    (quotationPattern quote).ends (c :: cs) = [c :: cs] := by
  refine ends_many_of_nil ?_
  rw [ends, ends_one_cons, char, ends_seq_one_cons]
  rcases h with ⟨rfl, hc⟩ | ⟨rfl, hcs⟩
  · rw [if_neg (by simp), if_neg (by simpa using hc)]
    rfl
  · rw [if_neg (by simp), if_pos (beq_self_eq_true _)]
    cases cs with
    | nil => rfl
    | cons d ds =>
      rw [ends_one_cons, if_neg (by simpa using hcs d rfl)]
      rfl

/-- The closing quote is found where the lexer finds it, and only there. -/
theorem ends_quotation (hquote : quote ≠ '\\') (cs : List Char) :
    (seq (quotationPattern quote) (char quote)).ends cs = ((quotationBody? quote cs).map (·.2)).toList := by
  have hclose (c : Char) (cs : List Char) : (char quote).ends (c :: cs) = if c == quote then [cs] else [] := rfl
  rw [ends]
  fun_induction quotationBody? quote cs with
  | case1 =>
    rw [quotationPattern, ends_many_of_nil rfl]
    rfl
  | case2 cs =>
    rw [ends_quotationPattern_stop (.inl ⟨rfl, hquote⟩), List.flatMap_singleton, hclose, if_pos (beq_self_eq_true _)]
    rfl
  | case3 hc =>
    have hstop : ∀ d ∈ ([] : List Char).head?, d = '\n' := fun d hd => by cases hd
    rw [ends_quotationPattern_stop (.inr ⟨rfl, hstop⟩), List.flatMap_singleton, hclose, if_neg (by simpa using hc)]
    rfl
  | case4 ds hc =>
    have hstop : ∀ d ∈ ('\n' :: ds).head?, d = '\n' := fun d hd => (Option.some.inj hd).symm
    rw [ends_quotationPattern_stop (.inr ⟨rfl, hstop⟩), List.flatMap_singleton, hclose, if_neg (by simpa using hc)]
    rfl
  | case5 d ds hd hc ih =>
    rw [ends_quotationPattern_escaped hd, List.flatMap_append, ih, List.flatMap_singleton, hclose,
      if_neg (by simpa using hc), List.append_nil, Option.map_map]
    rfl
  | case6 c cs hne hc ih =>
    rw [ends_quotationPattern_plain hne hc, List.flatMap_append, ih, List.flatMap_singleton, hclose,
      if_neg (by simpa using hne), List.append_nil, Option.map_map]
    rfl

/-- A quotation that is read has the text that its inside stands for, and no backslash stands alone at its end. -/
theorem exists_of_quotationBody? {s : List Char} (h : quotationBody? quote cs = some (s, rest)) :
    ∃ body, cs = body ++ quote :: rest ∧ unescaped body = s ∧ endsInBackslash body = false := by
  fun_induction quotationBody? quote cs generalizing s with
  | case1 => cases h
  | case2 cs =>
    cases h
    exact ⟨[], rfl, rfl, rfl⟩
  | case3 => cases h
  | case4 => cases h
  | case5 d ds hd hquote ih =>
    obtain ⟨⟨s', rest'⟩, hbody, hr⟩ := Option.map_eq_some_iff.mp h
    cases hr
    obtain ⟨body, rfl, rfl, hend⟩ := ih hbody
    exact ⟨'\\' :: d :: body, rfl, rfl, hend⟩
  | case6 c cs hquote hc ih =>
    obtain ⟨⟨s', rest'⟩, hbody, hr⟩ := Option.map_eq_some_iff.mp h
    cases hr
    obtain ⟨body, rfl, rfl, hend⟩ := ih hbody
    refine ⟨c :: body, rfl, ?_, ?_⟩
    · rw [unescaped.eq_def]
      exact if_neg hc
    · rw [endsInBackslash.eq_def]
      exact (if_neg hc).trans hend

/-! ## Operators and punctuation -/

/-- An operator at the front of a text. -/
def operator? : List Char → Option (Token × List Char)
  | '=' :: '=' :: cs => some (.comparison .eq, cs)
  | '!' :: '=' :: cs => some (.comparison .ne, cs)
  | '>' :: '=' :: cs => some (.comparison .ge, cs)
  | '<' :: '=' :: cs => some (.comparison .le, cs)
  | '>' :: cs => some (.comparison .gt, cs)
  | '<' :: cs => some (.comparison .lt, cs)
  | '&' :: '&' :: cs => some (.conjunction, cs)
  | _ => none

/-- A punctuation character at the front of a text. -/
def punctuation? : List Char → Option (Token × List Char)
  | '.' :: cs => some (.dot, cs)
  | ',' :: cs => some (.comma, cs)
  | _ => none

/-- A symbol is an operator or punctuation. -/
theorem symbol?_eq (cs : List Char) : symbol? cs = (operator? cs).or (punctuation? cs) := by
  unfold operator?
  split
  case h_5 hge =>
    rw [symbol?]
    · rfl
    · exact hge
  case h_6 hle =>
    rw [symbol?]
    · rfl
    · exact hle
  case h_8 =>
    unfold punctuation?
    split
    case h_3 =>
      rw [symbol?] <;> first | rfl | assumption
    all_goals rfl
  all_goals rfl

/-- The token of an operator. -/
def operatorToken (s : String) : Token := (CompareOp.ofSymbol? s).elim .conjunction .comparison

theorem ends_char_eq_nil (h : ∀ ds, cs ≠ c :: ds) : (char c).ends cs = [] := by
  cases cs with
  | nil => rfl
  | cons x xs => exact ends_one_cons.trans (if_neg fun hx => h xs (by rw [beq_iff_eq.mp hx]))

theorem ends_pair_eq_nil (h : ∀ ds, cs ≠ c :: d :: ds) : (pair c d).ends cs = [] := by
  cases cs with
  | nil => rfl
  | cons x xs =>
    rw [pair, char, ends_seq_one_cons]
    split
    · next hx => exact ends_char_eq_nil fun ds hds => h ds (by rw [beq_iff_eq.mp hx, hds])
    · rfl

/-! ## Alternatives -/

/-- The kinds of lexemes. -/
inductive Kind where
  | blank
  | word
  | param
  | number
  | doubleQuoted
  | singleQuoted
  | operator
  | punctuation
  deriving DecidableEq

/-- A piece of a text that gives a token or none: all of it, and what counts in it. -/
structure Lexeme where
  kind : Kind
  text : List Char
  body : List Char

/-- A kind of lexemes with the pattern of what counts in them and the characters before and after it. -/
structure Alternative where
  kind : Kind
  opening : Option Char
  body : Pattern
  closing : Option Char

/-- The kinds of lexemes in the order in which they are tried. -/
def alternatives : List Alternative :=
  [⟨.blank, none, blankPattern, none⟩, ⟨.word, none, wordPattern, none⟩, ⟨.param, some '@', wordPattern, none⟩,
    ⟨.number, none, numberPattern, none⟩, ⟨.doubleQuoted, some '"', quotationPattern '"', some '"'⟩,
    ⟨.singleQuoted, some '\'', quotationPattern '\'', some '\''⟩, ⟨.operator, none, operatorPattern, none⟩,
    ⟨.punctuation, none, punctuationPattern, none⟩]

namespace Alternative

/-- A given character, or nothing. -/
def given (c? : Option Char) : Pattern := c?.elim empty char

/-- The pattern of the whole lexeme. -/
def pattern (a : Alternative) : Pattern := seq (given a.opening) (seq a.body (given a.closing))

/-- The lexeme with a given text. -/
def lexeme (a : Alternative) (w : List Char) : Lexeme where
  kind := a.kind
  text := w
  body := (w.drop a.opening.toList.length).take (w.length - a.opening.toList.length - a.closing.toList.length)

end Alternative

/-- What can go wrong when tokens are read. -/
inductive Fault where
  | unexpectedCharacter (offset : Nat)
  | invalidNumber (text : List Char)
  | splitCharacter (offset : Nat)

/-- The token of a lexeme, none for a blank. -/
def Lexeme.token (l : Lexeme) : Except Fault (Option Token) :=
  let s := String.ofList l.body
  match l.kind with
  | .blank => .ok none
  | .word => .ok (some (.word s))
  | .param => .ok (some (.param s))
  | .number =>
    match numberValue? l.body with
    | some v => .ok (some (.literal v))
    | none => .error (.invalidNumber l.body)
  | .doubleQuoted | .singleQuoted => .ok (some (.literal (.string (String.ofList (unescaped l.body)))))
  | .operator => .ok (some (operatorToken s))
  | .punctuation => .ok (some (if s = "." then .dot else .comma))

/-- An alternative reads a token and what follows it off the front of a text, or does not match there. -/
def Alternative.Reads (a : Alternative) (cs : List Char) : Option (Option Token × List Char) → Prop
  | none => a.pattern.ends cs = []
  | some (token?, rest) => ∃ w, cs = w ++ rest ∧ a.pattern.Prefers cs rest ∧ (a.lexeme w).token = .ok token?

theorem ends_plain (k : Kind) (r : Pattern) (cs : List Char) :
    (Alternative.mk k none r none).pattern.ends cs = r.ends cs := by
  rw [Alternative.pattern]
  show [cs].flatMap (fun ds => (r.ends ds).flatMap fun x => [x]) = r.ends cs
  rw [List.flatMap_singleton, List.flatMap_singleton']

theorem lexeme_plain (k : Kind) (r : Pattern) (w : List Char) : (Alternative.mk k none r none).lexeme w = ⟨k, w, w⟩ :=
  congrArg (Lexeme.mk k w) List.take_length

/-- A pattern without other characters around it reads what it takes. -/
theorem reads_plain {k : Kind} {r : Pattern} {token? : Option Token} (hcs : cs = w ++ rest) (h : r.Prefers cs rest)
    (htoken : (Lexeme.mk k w w).token = .ok token?) : (Alternative.mk k none r none).Reads cs (some (token?, rest)) :=
  ⟨w, hcs, h.of_ends_eq (ends_plain k r cs), by rw [lexeme_plain, htoken]⟩

theorem reads_plain_none {k : Kind} {r : Pattern} (h : r.ends cs = []) : (Alternative.mk k none r none).Reads cs none :=
  (ends_plain k r cs).trans h

theorem reads_blank (cs : List Char) : (Alternative.mk .blank none blankPattern none).Reads cs (blank? cs) := by
  have hleaves := leaves_blank? cs
  cases hblank : blank? cs with
  | none =>
    rw [hblank] at hleaves
    exact reads_plain_none hleaves
  | some r =>
    obtain ⟨token?, rest⟩ := r
    rw [hblank] at hleaves
    obtain ⟨w, hcs, -⟩ := exists_accepts_of_mem_ends (Prefers.mem hleaves)
    cases token? with
    | none => exact reads_plain hcs hleaves rfl
    | some t => exact (blank?_ne_token hblank).elim

/-- A word that is read is the beginning of the text. -/
theorem eq_append_of_word? {s : String} (h : word? cs = some (s, rest)) : cs = s.toList ++ rest := by
  cases cs with
  | nil => cases h
  | cons c cs =>
    rw [word?, Option.ite_none_right_eq_some] at h
    obtain ⟨-, h⟩ := h
    cases h
    rw [String.toList_ofList, List.cons_append, List.takeWhile_append_dropWhile]

theorem reads_word (cs : List Char) : (Alternative.mk .word none wordPattern none).Reads cs
    ((word? cs).map fun (s, rest) => (some (.word s), rest)) := by
  have hleaves := leaves_word? cs
  cases hword : word? cs with
  | none =>
    rw [hword] at hleaves
    exact reads_plain_none hleaves
  | some r =>
    rw [hword] at hleaves
    refine reads_plain (eq_append_of_word? hword) hleaves ?_
    rw [Lexeme.token, String.ofList_toList]

theorem reads_param (cs : List Char) : (Alternative.mk .param (some '@') wordPattern none).Reads cs
    ((param? cs).map fun (s, rest) => (some (.param s), rest)) := by
  have hends (c : Char) (ds : List Char) : (Alternative.mk .param (some '@') wordPattern none).pattern.ends (c :: ds) =
      if c == '@' then wordPattern.ends ds else [] := by
    refine ends_seq_one_cons.trans ?_
    have hword : (seq wordPattern (Alternative.given none)).ends ds = wordPattern.ends ds := List.flatMap_singleton' _
    rw [hword]
  unfold param?
  split
  · next ds =>
    have hleaves := (leaves_word? ds).of_ends_eq (hends '@' ds)
    cases hword : word? ds with
    | none =>
      rw [hword] at hleaves
      exact hleaves
    | some r =>
      obtain ⟨s, rest⟩ := r
      rw [hword] at hleaves
      refine ⟨'@' :: s.toList, congrArg ('@' :: ·) (eq_append_of_word? hword), hleaves, ?_⟩
      have hbody : (Alternative.mk .param (some '@') wordPattern none).lexeme ('@' :: s.toList) =
          ⟨.param, '@' :: s.toList, s.toList⟩ := congrArg (Lexeme.mk _ _) List.take_length
      rw [hbody, Lexeme.token, String.ofList_toList]
  · next hno =>
    cases cs with
    | nil => rfl
    | cons c ds => exact (hends c ds).trans (if_neg fun hc => hno ds (by rw [beq_iff_eq.mp hc]))

theorem reads_number (cs : List Char) : (Alternative.mk .number none numberPattern none).Reads cs
    ((number? cs).map fun (v, rest) => (some (.literal v), rest)) := by
  have hleaves := leaves_number? cs
  cases hnumber : number? cs with
  | none =>
    rw [hnumber] at hleaves
    exact reads_plain_none hleaves
  | some r =>
    rw [hnumber] at hleaves
    obtain ⟨w, hcs, hvalue⟩ := exists_of_number? hnumber
    refine reads_plain hcs hleaves ?_
    rw [Lexeme.token]
    dsimp only
    rw [hvalue]

/-- What counts in a quotation stands between its quotes. -/
theorem lexeme_quoted (k : Kind) (r : Pattern) (quote : Char) (body : List Char) :
    (Alternative.mk k (some quote) r (some quote)).lexeme (quote :: (body ++ [quote])) =
      ⟨k, quote :: (body ++ [quote]), body⟩ := by
  have hlength : (quote :: (body ++ [quote])).length - 1 - 1 = body.length := by simp
  refine congrArg (Lexeme.mk _ _) ?_
  show (body ++ [quote]).take ((quote :: (body ++ [quote])).length - 1 - 1) = body
  rw [hlength, List.take_left]

/-- A quoted text is read to its closing quote. -/
theorem reads_quotation {k : Kind} (hk : k = .doubleQuoted ∨ k = .singleQuoted) (hquote : quote ≠ '\\') (cs : List Char) :
    (Alternative.mk k (some quote) (quotationPattern quote) (some quote)).Reads cs
      ((quotation? quote cs).map fun (s, rest) => (some (.literal (.string s)), rest)) := by
  have hends (c : Char) (ds : List Char) :
      (Alternative.mk k (some quote) (quotationPattern quote) (some quote)).pattern.ends (c :: ds) =
        if c == quote then ((quotationBody? quote ds).map (·.2)).toList else [] := by
    rw [← ends_quotation hquote]
    exact ends_seq_one_cons
  cases cs with
  | nil => rfl
  | cons c ds =>
    rw [quotation?]
    by_cases hc : c = quote
    · subst hc
      rw [if_pos rfl]
      cases hbody : quotationBody? c ds with
      | none =>
        refine (hends c ds).trans ?_
        rw [hbody, if_pos (beq_self_eq_true c)]
        rfl
      | some r =>
        obtain ⟨s, rest⟩ := r
        obtain ⟨body, rfl, rfl, -⟩ := exists_of_quotationBody? hbody
        refine ⟨c :: (body ++ [c]), by simp, prefers_of_ends_eq ?_, ?_⟩
        · rw [hends, hbody, if_pos (beq_self_eq_true c)]
          rfl
        · rw [lexeme_quoted]
          rcases hk with rfl | rfl
          · rfl
          · rfl
    · rw [if_neg hc]
      exact (hends c ds).trans (if_neg (by simpa using hc))

theorem reads_punctuation (cs : List Char) : (Alternative.mk .punctuation none punctuationPattern none).Reads cs
    ((punctuation? cs).map fun (t, rest) => (some t, rest)) := by
  unfold punctuation?
  split
  · next ds => exact reads_plain (w := ['.']) rfl (prefers_of_ends_eq rfl) rfl
  · next ds => exact reads_plain (w := [',']) rfl (prefers_of_ends_eq rfl) rfl
  · next hdot hcomma =>
    refine reads_plain_none ?_
    cases cs with
    | nil => rfl
    | cons c ds =>
      refine ends_one_cons.trans (if_neg fun hc => ?_)
      rw [Bool.or_eq_true, beq_iff_eq, beq_iff_eq] at hc
      rcases hc with rfl | rfl
      · exact hdot ds rfl
      · exact hcomma ds rfl

theorem ends_operatorPattern (cs : List Char) : operatorPattern.ends cs =
    (pair '=' '=').ends cs ++ ((pair '!' '=').ends cs ++ ((pair '>' '=').ends cs ++ ((pair '<' '=').ends cs ++
      ((char '>').ends cs ++ ((char '<').ends cs ++ (pair '&' '&').ends cs))))) := rfl

theorem reads_operator (cs : List Char) :
    (Alternative.mk .operator none operatorPattern none).Reads cs ((operator? cs).map fun (t, rest) => (some t, rest)) := by
  have hlonger (c : Char) (cs : List Char) : ∀ y ∈ [cs, c :: cs], cs.length ≤ y.length := by
    simp only [List.forall_mem_cons, List.length_cons]
    exact ⟨Nat.le_refl _, Nat.le_succ _, nofun⟩
  unfold operator?
  split
  · next cs => exact ⟨['=', '='], rfl, prefers_of_ends_eq rfl, rfl⟩
  · next cs => exact ⟨['!', '='], rfl, prefers_of_ends_eq rfl, rfl⟩
  · next cs => exact ⟨['>', '='], rfl, ⟨rfl, hlonger '=' cs⟩, rfl⟩
  · next cs => exact ⟨['<', '='], rfl, ⟨rfl, hlonger '=' cs⟩, rfl⟩
  · next cs hge =>
    refine ⟨['>'], rfl, prefers_of_ends_eq ?_, rfl⟩
    have hnil : (pair '>' '=').ends ('>' :: cs) = [] := ends_pair_eq_nil fun ds hds => hge ds (List.cons.inj hds).2
    rw [ends_plain, ends_operatorPattern, hnil]
    rfl
  · next cs hle =>
    refine ⟨['<'], rfl, prefers_of_ends_eq ?_, rfl⟩
    have hnil : (pair '<' '=').ends ('<' :: cs) = [] := ends_pair_eq_nil fun ds hds => hle ds (List.cons.inj hds).2
    rw [ends_plain, ends_operatorPattern, hnil]
    rfl
  · next cs => exact ⟨['&', '&'], rfl, prefers_of_ends_eq rfl, rfl⟩
  · next heq hne hge hle hgt hlt hand =>
    show (Alternative.mk .operator none operatorPattern none).pattern.ends cs = []
    rw [ends_plain, ends_operatorPattern, ends_pair_eq_nil heq, ends_pair_eq_nil hne, ends_pair_eq_nil hge,
      ends_pair_eq_nil hle, ends_char_eq_nil hgt, ends_char_eq_nil hlt, ends_pair_eq_nil hand]
    rfl

/-! ## The first lexeme -/

/-- The lexeme at the front of a text and what follows it: of the first alternative that matches, in its preferred way. -/
def firstLexeme? (cs : List Char) : Option (Lexeme × List Char) :=
  alternatives.findSome? fun a =>
    (a.pattern.ends cs).head?.map fun rest => (a.lexeme (cs.take (cs.length - rest.length)), rest)

/-- No alternative matches at the front of a text. -/
def NoLexeme (cs : List Char) : Prop := ∀ a ∈ alternatives, ∀ w rest, cs = w ++ rest → ¬ a.pattern.Accepts w

/-- The first alternative that matches at the front of a text takes a lexeme off it, the longest that it can. -/
def TakesLexeme (cs : List Char) (l : Lexeme) (rest : List Char) : Prop :=
  ∃ earlier a later, alternatives = earlier ++ a :: later ∧
    (∀ b ∈ earlier, ∀ w rest, cs = w ++ rest → ¬ b.pattern.Accepts w) ∧ cs = l.text ++ rest ∧ l = a.lexeme l.text ∧
    a.pattern.Accepts l.text ∧ ∀ w rest, cs = w ++ rest → a.pattern.Accepts w → w.length ≤ l.text.length

/-- What each alternative reads, in their order. -/
def readings (cs : List Char) : List (Option (Option Token × List Char)) :=
  [blank? cs, (word? cs).map fun (s, rest) => (some (.word s), rest),
    (param? cs).map fun (s, rest) => (some (.param s), rest),
    (number? cs).map fun (v, rest) => (some (.literal v), rest),
    (quotation? '"' cs).map fun (s, rest) => (some (.literal (.string s)), rest),
    (quotation? '\'' cs).map fun (s, rest) => (some (.literal (.string s)), rest),
    (operator? cs).map fun (t, rest) => (some t, rest), (punctuation? cs).map fun (t, rest) => (some t, rest)]

theorem reads_alternatives (cs : List Char) : List.Forall₂ (fun a r => a.Reads cs r) alternatives (readings cs) :=
  .cons (reads_blank cs) <| .cons (reads_word cs) <| .cons (reads_param cs) <| .cons (reads_number cs) <|
    .cons (reads_quotation (.inl rfl) (by decide) cs) <| .cons (reads_quotation (.inr rfl) (by decide) cs) <|
    .cons (reads_operator cs) <| .cons (reads_punctuation cs) .nil

/-- The lexer takes what the first alternative reads that reads something. -/
theorem next?_eq (cs : List Char) : next? cs = (readings cs).foldr Option.or none := by
  simp only [next?, readings, symbol?_eq, List.foldr_cons, List.foldr_nil, Option.orElse_eq_orElse, Option.orElse_eq_or,
    Option.map_or, Option.or_none]

theorem ends_eq_nil_of_reads {as : List Alternative} {rs : List (Option (Option Token × List Char))}
    (h : List.Forall₂ (fun a r => a.Reads cs r) as rs) (hnone : rs.foldr Option.or none = none) :
    ∀ a ∈ as, a.pattern.ends cs = [] := by
  induction h with
  | nil => exact nofun
  | cons hread _ ih =>
    rw [List.foldr_cons, Option.or_eq_none_iff] at hnone
    exact List.forall_mem_cons.mpr ⟨(hnone.1 ▸ hread : Alternative.Reads _ cs none), ih hnone.2⟩

/-- What is read first is read by an alternative that no other one that matches comes before. -/
theorem exists_of_reads {as : List Alternative} {rs : List (Option (Option Token × List Char))} {token? : Option Token}
    (h : List.Forall₂ (fun a r => a.Reads cs r) as rs) (hsome : rs.foldr Option.or none = some (token?, rest)) :
    ∃ earlier a later, as = earlier ++ a :: later ∧ (∀ b ∈ earlier, b.pattern.ends cs = []) ∧
      a.Reads cs (some (token?, rest)) := by
  induction h with
  | nil => cases hsome
  | @cons a r as rs hread _ ih =>
    cases r with
    | some r =>
      rw [List.foldr_cons, Option.some_or] at hsome
      exact ⟨[], a, as, rfl, nofun, hsome ▸ hread⟩
    | none =>
      rw [List.foldr_cons, Option.none_or] at hsome
      obtain ⟨earlier, b, later, rfl, hearlier, hb⟩ := ih hsome
      exact ⟨a :: earlier, b, later, rfl, List.forall_mem_cons.mpr ⟨hread, hearlier⟩, hb⟩

theorem firstLexeme?_of_next?_eq_none (h : next? cs = none) : firstLexeme? cs = none ∧ NoLexeme cs := by
  have hends := ends_eq_nil_of_reads (reads_alternatives cs) (next?_eq cs ▸ h)
  refine ⟨List.findSome?_eq_none_iff.mpr fun a ha => ?_, fun a ha => ends_eq_nil_iff.mp (hends a ha)⟩
  rw [hends a ha]
  rfl

/-- **The lexer takes the first lexeme of the text**, as its alternatives prefer it, with the token that it stands for. -/
theorem exists_firstLexeme?_of_next? {token? : Option Token} (h : next? cs = some (token?, rest)) :
    ∃ l, firstLexeme? cs = some (l, rest) ∧ TakesLexeme cs l rest ∧ l.token = .ok token? := by
  obtain ⟨earlier, a, later, halternatives, hearlier, w, hcs, hprefers, htoken⟩ :=
    exists_of_reads (reads_alternatives cs) (next?_eq cs ▸ h)
  obtain ⟨u, hu, haccepts⟩ := exists_accepts_of_mem_ends hprefers.mem
  obtain rfl : u = w := List.append_cancel_right (hu.symm.trans hcs)
  refine ⟨a.lexeme u, ?_, ⟨earlier, a, later, halternatives, fun b hb => ends_eq_nil_iff.mp (hearlier b hb), hcs, rfl,
    haccepts, fun v rest' hv hvaccepts => ?_⟩, htoken⟩
  · have hnone : (earlier.findSome? fun b =>
        (b.pattern.ends cs).head?.map fun rest => (b.lexeme (cs.take (cs.length - rest.length)), rest)) = none :=
      List.findSome?_eq_none_iff.mpr fun b hb => by
        rw [hearlier b hb]
        rfl
    have htake : cs.take (cs.length - rest.length) = u := by
      rw [hcs, List.length_append, Nat.add_sub_cancel, List.take_left]
    rw [firstLexeme?, halternatives, List.findSome?_append, hnone, Option.none_or, List.findSome?_cons, hprefers.head?,
      Option.map_some, htake]
  · have hle := hprefers.length_le rest' (mem_ends_iff.mpr ⟨v, hv, hvaccepts⟩)
    have hlength := congrArg List.length (hcs.symm.trans hv)
    rw [List.length_append, List.length_append] at hlength
    show v.length ≤ u.length
    omega

/-- Of two alternatives that match, each the first one, neither comes before the other. -/
theorem eq_of_alternatives {earlier earlier' later later' : List Alternative} {a a' : Alternative} {p : Alternative → Prop}
    (heq : earlier ++ a :: later = earlier' ++ a' :: later') (h : ∀ b ∈ earlier, ¬ p b) (h' : ∀ b ∈ earlier', ¬ p b)
    (ha : p a) (ha' : p a') : a = a' := by
  induction earlier generalizing earlier' with
  | nil =>
    cases earlier' with
    | nil => exact (List.cons.inj heq).1
    | cons b bs => exact absurd ((List.cons.inj heq).1 ▸ ha) (h' b (List.mem_cons_self ..))
  | cons b bs ih =>
    cases earlier' with
    | nil => exact absurd ((List.cons.inj heq).1 ▸ ha') (h b (List.mem_cons_self ..))
    | cons b' bs' =>
      exact ih (List.cons.inj heq).2 (List.forall_mem_cons.mp h).2 (List.forall_mem_cons.mp h').2

/-- A text has at most one first lexeme. -/
theorem TakesLexeme.unique {l l' : Lexeme} {rest' : List Char} (h : TakesLexeme cs l rest)
    (h' : TakesLexeme cs l' rest') : l = l' ∧ rest = rest' := by
  obtain ⟨earlier, a, later, halternatives, hearlier, hcs, hl, haccepts, hlongest⟩ := h
  obtain ⟨earlier', a', later', halternatives', hearlier', hcs', hl', haccepts', hlongest'⟩ := h'
  obtain rfl : a = a' := eq_of_alternatives (p := fun b => ∃ w rest, cs = w ++ rest ∧ b.pattern.Accepts w)
    (halternatives.symm.trans halternatives') (fun b hb ⟨w, rest, hw, hb'⟩ => hearlier b hb w rest hw hb')
    (fun b hb ⟨w, rest, hw, hb'⟩ => hearlier' b hb w rest hw hb') ⟨_, _, hcs, haccepts⟩ ⟨_, _, hcs', haccepts'⟩
  have hlength : l.text.length = l'.text.length :=
    Nat.le_antisymm (hlongest' _ _ hcs haccepts) (hlongest _ _ hcs' haccepts')
  obtain ⟨htext, hrest⟩ := List.append_inj (hcs.symm.trans hcs') hlength
  exact ⟨by rw [hl, hl', htext], hrest⟩

theorem TakesLexeme.not_noLexeme {l : Lexeme} (h : TakesLexeme cs l rest) : ¬ NoLexeme cs := by
  obtain ⟨earlier, a, later, halternatives, -, hcs, -, haccepts, -⟩ := h
  have ha : a ∈ alternatives := halternatives ▸ List.mem_append_right _ (List.mem_cons_self ..)
  exact fun hno => hno a ha _ _ hcs haccepts

end DocStore.Query
