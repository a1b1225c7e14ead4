import DocStore.Proofs.Query.Lexemes
import Mathlib.Data.List.Forall2

/-!
# Reading tokens round by round

Tokens are read in rounds at byte offsets (`round`, `readFrom`): every round cuts the text at its offset, takes the
first lexeme there and goes on behind it. The offsets are those at which characters start (`isValid_iff`), since a round
that starts at one ends at one (`exists_round_of_next?`), and every lexeme takes at least a byte, so reading ends. It gives
what the lexer gives (`readFrom_eq`), which goes through the lexemes of the text (`Lexemes`) up to its end or up to the
first place where no alternative matches (`exists_lexemes`). Every lexeme is converted (`TakesLexeme.converts`).
-/

namespace DocStore.Query

open Text (Pattern)
open Text.Pattern

variable {cs rest w : List Char} {l : Lexeme} {ls : List Lexeme} {token? : Option Token} {ts : List Token} {text : String}

/-! ## Offsets -/

theorem byteCount_append (cs ds : List Char) : byteCount (cs ++ ds) = byteCount cs + byteCount ds := by
  induction cs with
  | nil => exact (Nat.zero_add _).symm
  | cons c cs ih => rw [List.cons_append, byteCount, byteCount, ih, Nat.add_assoc]

theorem byteCount_pos (h : cs ≠ []) : 0 < byteCount cs := by
  obtain ⟨c, ds, rfl⟩ := List.exists_cons_of_ne_nil h
  exact Nat.add_pos_left c.utf8Size_pos _

theorem byteCount_lt_append (w : List Char) (h : rest ≠ []) : byteCount w < byteCount (w ++ rest) := by
  rw [byteCount_append]
  exact Nat.lt_add_of_pos_right (byteCount_pos h)

theorem byteCount_eq_utf8ByteSize (cs : List Char) : byteCount cs = (String.ofList cs).utf8ByteSize := by
  induction cs with
  | nil => rfl
  | cons c cs ih =>
    rw [← List.singleton_append, String.ofList_append, String.utf8ByteSize_append, ← ih, ← String.singleton_eq_ofList,
      String.utf8ByteSize_singleton]
    rfl

theorem byteCount_toList (text : String) : byteCount text.toList = text.utf8ByteSize := by
  rw [byteCount_eq_utf8ByteSize, String.ofList_toList]

/-- The offsets of a text at which a character starts, and its end. -/
theorem isValid_iff {n : Nat} :
    String.Pos.Raw.IsValid text ⟨n⟩ ↔ ∃ w rest, text.toList = w ++ rest ∧ n = byteCount w := by
  rw [String.Pos.Raw.isValid_iff_exists_append]
  constructor
  · rintro ⟨s, t, rfl, hn⟩
    exact ⟨s.toList, t.toList, String.toList_append, (congrArg String.Pos.Raw.byteIdx hn).trans (byteCount_toList s).symm⟩
  · rintro ⟨w, rest, hw, rfl⟩
    refine ⟨String.ofList w, String.ofList rest, ?_, congrArg String.Pos.Raw.mk (byteCount_eq_utf8ByteSize w)⟩
    rw [← String.ofList_append, ← hw, String.ofList_toList]

/-- The text from an offset on; nothing if no character starts there and the text does not end there. -/
def sliceFrom? : List Char → Nat → Option (List Char)
  | [], n => if n = 0 then some [] else none
  | c :: cs, n =>
    if n = 0 then some (c :: cs) else if c.utf8Size ≤ n then sliceFrom? cs (n - c.utf8Size) else none

theorem sliceFrom?_byteCount (w rest : List Char) : sliceFrom? (w ++ rest) (byteCount w) = some rest := by
  induction w with
  | nil => cases rest <;> rfl
  | cons c w ih =>
    have hne : byteCount (c :: w) ≠ 0 := Nat.ne_of_gt (byteCount_pos (List.cons_ne_nil c w))
    have hle : c.utf8Size ≤ byteCount (c :: w) := Nat.le_add_right ..
    rw [List.cons_append, sliceFrom?, if_neg hne, if_pos hle, byteCount, Nat.add_sub_cancel_left, ih]

/-! ## Rounds -/

/-- One round of reading: at an offset, the token of the first lexeme there, if it gives one, and the offset behind it. -/
def round (text : List Char) (offset : Nat) : Except Fault (Option Token × Nat) :=
  match sliceFrom? text offset with
  | none => .error (.splitCharacter offset)
  | some rest =>
    match firstLexeme? rest with
    | none => .error (.unexpectedCharacter offset)
    | some (l, _) =>
      if byteCount l.text = 0 then .error (.unexpectedCharacter offset)
      else l.token.map fun token? => (token?, offset + byteCount l.text)

theorem lt_of_round {cs : List Char} {offset next : Nat} (h : round cs offset = .ok (token?, next)) : offset < next := by
  unfold round at h
  split at h
  · cases h
  · split at h
    · cases h
    · split at h
      · cases h
      · next l _ _ hne =>
        cases htoken : l.token with
        | error f =>
          rw [htoken] at h
          cases h
        | ok token? =>
          rw [htoken] at h
          cases h
          exact Nat.lt_add_of_pos_right (Nat.pos_of_ne_zero hne)

/-- The tokens of a text from an offset on, read round by round up to its end. -/
def readFrom (text : List Char) (offset : Nat) : Except Fault (List Token) :=
  if offset < byteCount text then
    match h : round text offset with
    | .error f => .error f
    | .ok (token?, next) =>
      have := lt_of_round h
      (readFrom text next).map (token?.toList ++ ·)
  else .ok []
termination_by byteCount text - offset

/-- Where no lexeme starts, a round fails at its offset. -/
theorem round_of_next?_eq_none (w : List Char) (h : next? rest = none) :
    round (w ++ rest) (byteCount w) = .error (.unexpectedCharacter (byteCount w)) := by
  rw [round, sliceFrom?_byteCount]
  dsimp only
  rw [(firstLexeme?_of_next?_eq_none h).1]

/-- Where a lexeme starts, a round gives its token and goes on behind it. -/
theorem exists_round_of_next? (w : List Char) {left : List Char} (h : next? rest = some (token?, left)) :
    ∃ u, u ≠ [] ∧ rest = u ++ left ∧ round (w ++ rest) (byteCount w) = .ok (token?, byteCount (w ++ u)) := by
  obtain ⟨l, hfirst, htakes, htoken⟩ := exists_firstLexeme?_of_next? h
  obtain ⟨_, _, _, _, _, hrest, _⟩ := htakes
  obtain ⟨u, hne, hu⟩ := consumes_next? h
  obtain rfl : u = l.text := List.append_cancel_right (hu.symm.trans hrest)
  refine ⟨l.text, hne, hrest, ?_⟩
  rw [round, sliceFrom?_byteCount]
  dsimp only
  rw [hfirst]
  dsimp only
  rw [if_neg (Nat.ne_of_gt (byteCount_pos hne)), htoken, byteCount_append]
  rfl

theorem readFrom_of_round_error {offset : Nat} {f : Fault} (hlt : offset < byteCount cs) (h : round cs offset = .error f) :
    readFrom cs offset = .error f := by
  rw [readFrom, if_pos hlt]
  split
  · next h' => exact congrArg Except.error (Except.error.inj (h'.symm.trans h))
  · next h' => cases h'.symm.trans h

theorem readFrom_of_round_ok {offset next : Nat} (hlt : offset < byteCount cs) (h : round cs offset = .ok (token?, next)) :
    readFrom cs offset = (readFrom cs next).map (token?.toList ++ ·) := by
  rw [readFrom, if_pos hlt]
  split
  · next h' => cases h'.symm.trans h
  · next h' => cases h'.symm.trans h; rfl

/-- Reading round by round from an offset gives what the lexer gives for the rest of the text. -/
theorem readFrom_eq (w rest : List Char) : readFrom (w ++ rest) (byteCount w) =
    (scan rest).mapError fun left => .unexpectedCharacter (byteCount (w ++ rest) - byteCount left) := by
  fun_induction scan rest generalizing w with
  | case1 =>
    rw [readFrom, List.append_nil, if_neg (Nat.lt_irrefl _)]
    rfl
  | case2 c cs hnone =>
    have hlt := byteCount_lt_append w (List.cons_ne_nil c cs)
    rw [readFrom_of_round_error hlt (round_of_next?_eq_none w hnone)]
    show _ = Except.error (Fault.unexpectedCharacter _)
    rw [byteCount_append, Nat.add_sub_cancel]
  | case3 c cs token? rest hnext _ ih =>
    have hlt := byteCount_lt_append w (List.cons_ne_nil c cs)
    obtain ⟨u, -, hu, hround⟩ := exists_round_of_next? w hnext
    rw [readFrom_of_round_ok hlt hround, hu, ← List.append_assoc, ih (w ++ u)]
    cases scan rest <;> rfl

/-! ## Lexemes of a text -/

/-- Lexemes taken off a text one after the other, and what follows them. -/
inductive Lexemes : List Char → List Lexeme → List Char → Prop
  | nil (rest : List Char) : Lexemes rest [] rest
  | cons {cs mid rest : List Char} {l : Lexeme} {ls : List Lexeme} :
      TakesLexeme cs l mid → Lexemes mid ls rest → Lexemes cs (l :: ls) rest

/-- Lexemes stand for some tokens; blanks among them stand for none. -/
def StandFor (ls : List Lexeme) (ts : List Token) : Prop :=
  ∃ tokens, List.Forall₂ (fun l token? => l.token = .ok token?) ls tokens ∧ ts = tokens.reduceOption

/-- A text is its lexemes and what follows them. -/
theorem Lexemes.eq_append (h : Lexemes cs ls rest) : cs = ls.flatMap (·.text) ++ rest := by
  induction h with
  | nil rest => rfl
  | cons htakes _ ih =>
    obtain ⟨_, _, _, _, _, hcs, _⟩ := htakes
    rw [hcs, ih, List.flatMap_cons, List.append_assoc]

/-- Lexemes up to a place where no alternative matches are determined by the text. -/
theorem Lexemes.unique {ls' : List Lexeme} {rest' : List Char} (h : Lexemes cs ls rest) (h' : Lexemes cs ls' rest')
    (hrest : NoLexeme rest) (hrest' : NoLexeme rest') : ls = ls' ∧ rest = rest' := by
  induction h generalizing ls' with
  | nil rest =>
    cases h' with
    | nil => exact ⟨rfl, rfl⟩
    | cons htakes _ => exact absurd hrest htakes.not_noLexeme
  | cons htakes _ ih =>
    cases h' with
    | nil => exact absurd hrest' htakes.not_noLexeme
    | cons htakes' hls' =>
      obtain ⟨rfl, rfl⟩ := htakes.unique htakes'
      obtain ⟨rfl, rfl⟩ := ih hls' hrest
      exact ⟨rfl, rfl⟩

/-- Lexemes stand for one list of tokens. -/
theorem StandFor.unique {ts' : List Token} (h : StandFor ls ts) (h' : StandFor ls ts') : ts = ts' := by
  obtain ⟨tokens, htokens, rfl⟩ := h
  obtain ⟨tokens', htokens', rfl⟩ := h'
  have hone : Relator.RightUnique fun (l : Lexeme) token? => l.token = .ok token? := fun l a b ha hb =>
    Except.ok.inj (ha.symm.trans hb)
  rw [List.right_unique_forall₂' hone htokens htokens']

/-- The lexer goes through the lexemes of a text up to its end, or up to the first place where no alternative matches. -/
theorem exists_lexemes (cs : List Char) : ∃ ls rest, Lexemes cs ls rest ∧ NoLexeme rest ∧
    match scan cs with
    | .ok ts => rest = [] ∧ StandFor ls ts
    | .error left => rest ≠ [] ∧ left = rest := by
  fun_induction scan cs with
  | case1 => exact ⟨[], [], .nil [], (firstLexeme?_of_next?_eq_none rfl).2, rfl, [], .nil, rfl⟩
  | case2 c cs hnone => exact ⟨[], c :: cs, .nil _, (firstLexeme?_of_next?_eq_none hnone).2, List.cons_ne_nil c cs, rfl⟩
  | case3 c cs token? mid hnext _ ih =>
    obtain ⟨l, -, htakes, htoken⟩ := exists_firstLexeme?_of_next? hnext
    obtain ⟨ls, rest, hls, hrest, hscan⟩ := ih
    refine ⟨l :: ls, rest, .cons htakes hls, hrest, ?_⟩
    cases hmid : scan mid with
    | error left =>
      rw [hmid] at hscan
      exact hscan
    | ok ts =>
      rw [hmid] at hscan
      obtain ⟨hnil, tokens, htokens, rfl⟩ := hscan
      refine ⟨hnil, token? :: tokens, .cons htoken htokens, ?_⟩
      cases token? <;> rfl

/-- The lexer succeeds when its lexemes are the whole text. -/
theorem tokens_eq_ok_iff_lexemes : tokens text = .ok ts ↔
    ∃ ls, Lexemes text.toList ls [] ∧ text.toList = ls.flatMap (·.text) ∧ StandFor ls ts := by
  obtain ⟨ls, rest, hls, hrest, hscan⟩ := exists_lexemes text.toList
  rw [tokens_eq_ok_iff]
  constructor
  · intro h
    rw [h] at hscan
    obtain ⟨rfl, hts⟩ := hscan
    exact ⟨ls, hls, by simpa using hls.eq_append, hts⟩
  · rintro ⟨ls', hls', -, hts⟩
    obtain ⟨rfl, rfl⟩ := hls.unique hls' hrest (firstLexeme?_of_next?_eq_none rfl).2
    cases hok : scan text.toList with
    | error left =>
      rw [hok] at hscan
      exact absurd rfl hscan.1
    | ok ts' =>
      rw [hok] at hscan
      rw [hscan.2.unique hts]

/-- The lexer fails at the first place before the end where no alternative matches, and in no other way. -/
theorem tokens_eq_error_iff_lexemes {e : SyntaxError} : tokens text = .error e ↔
    ∃ ls rest, Lexemes text.toList ls rest ∧ text.toList = ls.flatMap (·.text) ++ rest ∧ rest ≠ [] ∧ NoLexeme rest ∧
      e = .unexpectedCharacter (byteCount (ls.flatMap (·.text))) := by
  obtain ⟨ls, rest, hls, hrest, hscan⟩ := exists_lexemes text.toList
  have hoffset : byteCount text.toList - byteCount rest = byteCount (ls.flatMap (·.text)) := by
    rw [hls.eq_append, byteCount_append, Nat.add_sub_cancel]
  rw [tokens]
  cases hok : scan text.toList with
  | ok ts =>
    rw [hok] at hscan
    constructor
    · intro h
      cases h
    · rintro ⟨ls', rest', hls', -, hne, hrest', -⟩
      exact absurd ((hls.unique hls' hrest hrest').2 ▸ hscan.1) hne
  | error left =>
    rw [hok] at hscan
    obtain ⟨hne, rfl⟩ := hscan
    show Except.error (SyntaxError.unexpectedCharacter _) = Except.error e ↔ _
    rw [hoffset, Except.error.injEq]
    constructor
    · rintro rfl
      exact ⟨ls, left, hls, hls.eq_append, hne, hrest, rfl⟩
    · rintro ⟨ls', rest', hls', -, -, hrest', rfl⟩
      rw [(hls.unique hls' hrest hrest').1]

/-! ## Conversions -/

theorem endsInBackslash_plain {c : Char} (hc : c ≠ '\\') (cs : List Char) :
    endsInBackslash (c :: cs) = endsInBackslash cs := by
  rw [endsInBackslash.eq_def]
  exact if_neg hc

/-- What can stand between two quotes has no lone backslash at its end. -/
theorem endsInBackslash_of_accepts {quote : Char} (h : (quotationPattern quote).Accepts w) : endsInBackslash w = false := by
  rw [quotationPattern] at h
  generalize hr : many _ = r at h
  induction h with
  | done => rfl
  | round hu _ _ ih =>
    cases hr
    have hv := ih rfl
    rw [accepts_alt_iff, accepts_one_iff, accepts_seq_iff] at hu
    rcases hu with ⟨c, hc, rfl⟩ | ⟨a, b, ha, hb, rfl⟩
    · rw [Bool.and_eq_true, bne_iff_ne, bne_iff_ne] at hc
      exact (endsInBackslash_plain hc.2 _).trans hv
    · obtain rfl := accepts_char_iff.mp ha
      obtain ⟨d, -, rfl⟩ := accepts_one_iff.mp hb
      exact hv
  | _ => cases hr

theorem accepts_given_iff {c? : Option Char} : (Alternative.given c?).Accepts w ↔ w = c?.toList := by
  cases c? with
  | none => exact accepts_empty_iff
  | some c => exact accepts_char_iff

/-- What counts in a lexeme is of its kind. -/
theorem accepts_body {a : Alternative} (h : a.pattern.Accepts w) : a.body.Accepts (a.lexeme w).body := by
  rw [Alternative.pattern, accepts_seq_iff] at h
  obtain ⟨u, v, hu, hv, rfl⟩ := h
  obtain ⟨body, x, hbody, hx, rfl⟩ := accepts_seq_iff.mp hv
  obtain rfl := accepts_given_iff.mp hu
  obtain rfl := accepts_given_iff.mp hx
  have heq : (a.lexeme (a.opening.toList ++ (body ++ a.closing.toList))).body = body := by
    have hlength : (a.opening.toList ++ (body ++ a.closing.toList)).length - a.opening.toList.length -
        a.closing.toList.length = body.length := by
      simp only [List.length_append]
      omega
    show (((_ : List Char).drop _).take _) = body
    rw [hlength, List.drop_left, List.take_left]
  rw [heq]
  exact hbody

theorem exists_quotationPattern {a : Alternative} (ha : a ∈ alternatives)
    (hk : a.kind = .doubleQuoted ∨ a.kind = .singleQuoted) : ∃ quote, a.body = quotationPattern quote := by
  have hall : ∀ a ∈ alternatives, a.kind ≠ .doubleQuoted ∧ a.kind ≠ .singleQuoted ∨
      ∃ quote, a.body = quotationPattern quote := by
    simp only [alternatives, List.forall_mem_cons]
    refine ⟨.inl (by decide), .inl (by decide), .inl (by decide), .inl (by decide), .inr ⟨_, rfl⟩, .inr ⟨_, rfl⟩,
      .inl (by decide), .inl (by decide), nofun⟩
  refine (hall a ha).resolve_left fun hne => ?_
  rcases hk with hk | hk
  · exact hne.1 hk
  · exact hne.2 hk

/-- Every lexeme stands for a token or none: a number has a value. No quotation ends in a lone backslash. -/
theorem TakesLexeme.converts (h : TakesLexeme cs l rest) : (∃ token?, l.token = .ok token?) ∧
    (l.kind = .number → ∃ v, numberValue? l.body = some v) ∧
    (l.kind = .doubleQuoted ∨ l.kind = .singleQuoted → endsInBackslash l.body = false) := by
  have htoken : ∃ token?, l.token = .ok token? := by
    cases hnext : next? cs with
    | none => exact absurd (firstLexeme?_of_next?_eq_none hnext).2 h.not_noLexeme
    | some r =>
      obtain ⟨l', -, htakes, htoken⟩ := exists_firstLexeme?_of_next? hnext
      exact ⟨r.1, (h.unique htakes).1 ▸ htoken⟩
  refine ⟨htoken, fun hk => ?_, fun hk => ?_⟩
  · obtain ⟨token?, htoken⟩ := htoken
    cases hvalue : numberValue? l.body with
    | some v => exact ⟨v, rfl⟩
    | none =>
      rw [Lexeme.token, hk] at htoken
      dsimp only at htoken
      rw [hvalue] at htoken
      cases htoken
  · obtain ⟨earlier, a, later, halternatives, -, -, hl, haccepts, -⟩ := h
    have ha : a ∈ alternatives := halternatives ▸ List.mem_append_right _ (List.mem_cons_self ..)
    have hkind : l.kind = a.kind := by rw [hl, Alternative.lexeme]
    obtain ⟨quote, hquote⟩ := exists_quotationPattern ha (hkind ▸ hk)
    have hbody := accepts_body haccepts
    rw [hquote, ← hl] at hbody
    exact endsInBackslash_of_accepts hbody

/-! ## Reading tokens -/

/-- **Reading tokens ends, cuts between characters only and fails at the first place where no lexeme starts.** For every
text: a round at an offset where a character starts either fails because no alternative matches there, or goes on by at least
a byte to an offset where a character starts or the text ends; reading round by round gives what the lexer gives. The lexer
gives the tokens of the lexemes exactly when they are the whole text, and otherwise fails at the offset of the first place
where no alternative matches. Every lexeme has a token or is blank, every number has a value, and no quotation ends in a lone
backslash. -/
theorem tokenizing_exact (text : String) :
    (∀ offset, String.Pos.Raw.IsValid text ⟨offset⟩ → offset < text.utf8ByteSize →
      ∃ rest, sliceFrom? text.toList offset = some rest ∧
        (NoLexeme rest ∧ round text.toList offset = .error (.unexpectedCharacter offset) ∨
          ∃ token? next, round text.toList offset = .ok (token?, next) ∧ offset < next ∧
            String.Pos.Raw.IsValid text ⟨next⟩)) ∧
    (∀ ts, readFrom text.toList 0 = .ok ts ↔ tokens text = .ok ts) ∧
    (∀ f, readFrom text.toList 0 = .error f ↔
      ∃ offset, f = .unexpectedCharacter offset ∧ tokens text = .error (.unexpectedCharacter offset)) ∧
    (∀ ts, tokens text = .ok ts ↔
      ∃ ls, Lexemes text.toList ls [] ∧ text.toList = ls.flatMap (·.text) ∧ StandFor ls ts) ∧
    (∀ e, tokens text = .error e ↔
      ∃ ls rest, Lexemes text.toList ls rest ∧ text.toList = ls.flatMap (·.text) ++ rest ∧ rest ≠ [] ∧ NoLexeme rest ∧
        e = .unexpectedCharacter (byteCount (ls.flatMap (·.text)))) ∧
    (∀ cs l rest, TakesLexeme cs l rest → (∃ token?, l.token = .ok token?) ∧
      (l.kind = .number → ∃ v, numberValue? l.body = some v) ∧
      (l.kind = .doubleQuoted ∨ l.kind = .singleQuoted → endsInBackslash l.body = false)) := by
  have hread : readFrom text.toList 0 = (scan text.toList).mapError fun left =>
      .unexpectedCharacter (byteCount text.toList - byteCount left) := readFrom_eq [] text.toList
  refine ⟨fun offset hvalid hlt => ?_, fun ts => ?_, fun f => ?_, fun ts => tokens_eq_ok_iff_lexemes,
    fun e => tokens_eq_error_iff_lexemes, fun cs l rest h => h.converts⟩
  · obtain ⟨w, rest, htext, rfl⟩ := isValid_iff.mp hvalid
    rw [htext]
    refine ⟨rest, sliceFrom?_byteCount w rest, ?_⟩
    cases hnext : next? rest with
    | none => exact .inl ⟨(firstLexeme?_of_next?_eq_none hnext).2, round_of_next?_eq_none w hnext⟩
    | some r =>
      obtain ⟨u, hne, rfl, hround⟩ := exists_round_of_next? w hnext
      refine .inr ⟨r.1, _, hround, lt_of_round hround, isValid_iff.mpr ⟨w ++ u, r.2, ?_, rfl⟩⟩
      rw [htext, List.append_assoc]
  · rw [hread, tokens]
    cases scan text.toList with
    | error left => constructor <;> (intro h; cases h)
    | ok ts' => constructor <;> (intro h; cases h; rfl)
  · rw [hread, tokens]
    cases scan text.toList with
    | error left =>
      constructor
      · intro h
        cases h
        exact ⟨_, rfl, rfl⟩
      · rintro ⟨offset, rfl, h⟩
        cases h
        rfl
    | ok ts' =>
      constructor
      · intro h
        cases h
      · rintro ⟨offset, -, h⟩
        cases h

/-- A text of an alternative is one lexeme if no alternative before matches at its front. -/
theorem takesLexeme_of_accepts (n : Nat) {a : Alternative} {later : List Alternative}
    (h : alternatives = alternatives.take n ++ a :: later) (hearlier : ∀ b ∈ alternatives.take n, b.pattern.ends w = [])
    (ha : a.pattern.Accepts w) : TakesLexeme w (a.lexeme w) [] := by
  refine ⟨_, a, later, h, fun b hb => ends_eq_nil_iff.mp (hearlier b hb), (List.append_nil w).symm, rfl, ha,
    fun v rest hv _ => ?_⟩
  have hlength := congrArg List.length hv
  rw [List.length_append] at hlength
  show v.length ≤ w.length
  omega

/-- A word, a blank of three bytes, an operator and a quotation that is not closed. -/
def brokenText : String := "x\u2003>=\"é"

theorem tokenizing_exact_sample :
    (String.Pos.Raw.IsValid brokenText ⟨1⟩ ∧ 1 < brokenText.utf8ByteSize ∧
      ∃ rest, sliceFrom? brokenText.toList 1 = some rest ∧
        (NoLexeme rest ∧ round brokenText.toList 1 = .error (.unexpectedCharacter 1) ∨
          ∃ token? next, round brokenText.toList 1 = .ok (token?, next) ∧ 1 < next ∧
            String.Pos.Raw.IsValid brokenText ⟨next⟩)) ∧
    (TakesLexeme ['7'] ⟨.number, ['7'], ['7']⟩ [] ∧ ∃ v, numberValue? ['7'] = some v) ∧
    (TakesLexeme ['"', '"'] ⟨.doubleQuoted, ['"', '"'], []⟩ [] ∧ endsInBackslash [] = false) := by
  obtain ⟨hround, -, -, -, -, hconverts⟩ := tokenizing_exact brokenText
  have hvalid : String.Pos.Raw.IsValid brokenText ⟨1⟩ := isValid_iff.mpr ⟨['x'], _, rfl, rfl⟩
  have hlt : 1 < brokenText.utf8ByteSize := by decide
  have hnumber : TakesLexeme ['7'] ⟨.number, ['7'], ['7']⟩ [] := by
    have hdigits : digitsPattern.Accepts ['7'] := .seq (.one rfl) .done
    have haccepts : numberPattern.Accepts ['7'] := .seq (.right .empty) (.seq hdigits (.seq (.right .empty) (.right .empty)))
    have hearlier : ∀ b ∈ alternatives.take 3, b.pattern.ends ['7'] = [] := by
      simp only [alternatives, List.take_succ_cons, List.take_zero, List.forall_mem_cons]
      exact ⟨rfl, rfl, rfl, nofun⟩
    exact takesLexeme_of_accepts 3 rfl hearlier (.seq .empty (.seq haccepts .empty))
  have hquotation : TakesLexeme ['"', '"'] ⟨.doubleQuoted, ['"', '"'], []⟩ [] := by
    have hearlier : ∀ b ∈ alternatives.take 4, b.pattern.ends ['"', '"'] = [] := by
      simp only [alternatives, List.take_succ_cons, List.take_zero, List.forall_mem_cons]
      exact ⟨rfl, rfl, rfl, rfl, nofun⟩
    exact takesLexeme_of_accepts 4 rfl hearlier (.seq (.one rfl) (.seq .done (.one rfl)))
  exact ⟨⟨hvalid, hlt, hround 1 hvalid hlt⟩, ⟨hnumber, (hconverts _ _ _ hnumber).2.1 rfl⟩,
    hquotation, (hconverts _ _ _ hquotation).2.2 (.inl rfl)⟩

end DocStore.Query
