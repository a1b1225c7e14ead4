import DocStore.Proofs.Query.Reading
import DocStore.Proofs.Text.Runs
import Mathlib.Data.Bool.AllAny
import Mathlib.Data.List.Basic
import Mathlib.Data.List.TakeWhile

/-!
# Lexemes side by side

The first character of a lexeme tells its kind (`next?_of_isBlank` to `next?_eq_symbol?`). Most kinds are made of characters
of one class and end before any other (`StopsAt`), so a lexeme runs on from one text into the next only if characters of one
class stand on both sides. Texts without such a place between them are `Apart`: the tokens of both are those of the first and
then those of the second (`scan_append`). Every token comes from a lexeme, so the words of a text are words
(`isWord_of_tokens`).
-/

namespace DocStore.Query

open Text (Stops stops_cons ne_of_class takeWhile_append dropWhile_append)

variable {α : Type} {a b cs rest : List Char} {c quote : Char} {p : Char → Bool} {t : Token} {token? : Option Token}
  {ts : List Token} {text : String}

/-! ## From lexemes to tokens -/

theorem scan_nil : scan [] = .ok [] := scan.eq_def []

theorem scan_of_next? (h : next? cs = some (token?, rest)) : scan cs = (scan rest).map (token?.toList ++ ·) := by
  cases cs with
  | nil => cases h
  | cons c cs =>
    rw [scan.eq_def]
    dsimp only
    split
    · next hnone => rw [h] at hnone; cases hnone
    · next hsome => rw [h] at hsome; cases hsome; rfl

/-- A lexeme that is a whole text gives its only token. -/
theorem scan_singleton (h : next? cs = some (some t, [])) : scan cs = .ok [t] := by
  rw [scan_of_next? h, scan_nil]
  rfl

/-- Every token comes from a lexeme. -/
theorem exists_next?_of_mem_scan (h : scan cs = .ok ts) (ht : t ∈ ts) : ∃ cs rest, next? cs = some (some t, rest) := by
  fun_induction scan cs generalizing ts with
  | case1 =>
    cases h
    cases ht
  | case2 => cases h
  | case3 c cs token? rest hnext _ ih =>
    obtain ⟨ts', hscan, rfl⟩ := exists_of_map_eq_ok h
    obtain hhead | htail := List.mem_append.mp ht
    · obtain rfl := Option.mem_toList.mp hhead
      exact ⟨_, _, hnext⟩
    · exact ih hscan htail

theorem tokens_eq_ok_iff : tokens text = .ok ts ↔ scan text.toList = .ok ts := by
  rw [tokens]
  cases scan text.toList with
  | error rest => constructor <;> (intro h; cases h)
  | ok ts' => constructor <;> (intro h; cases h; rfl)

/-! ## The first character of a lexeme -/

/-- Whether a number can start with a character. -/
def isNumberStart (c : Char) : Bool := c == '-' || c.isDigit

/-- The characters that operators and punctuation start with. -/
def symbolStarts : List Char := ['=', '!', '>', '<', '&', '.', ',']

theorem isDigit_iff_toNat : c.isDigit = true ↔ 48 ≤ c.toNat ∧ c.toNat ≤ 57 := Char.isDigit_iff_toNat

theorem isAlpha_iff_toNat : c.isAlpha = true ↔ (65 ≤ c.toNat ∧ c.toNat ≤ 90) ∨ 97 ≤ c.toNat ∧ c.toNat ≤ 122 := by
  change (decide (65 ≤ c.val ∧ c.val ≤ 90) || (decide (97 ≤ c.val) && decide (c.val ≤ 122))) = true ↔ _
  simp only [Bool.or_eq_true, Bool.and_eq_true, decide_eq_true_eq, UInt32.le_iff_toNat_le]
  exact Iff.rfl

theorem isBlank_of_isNumberStart (h : isNumberStart c = true) : Text.isBlank c = false := by
  rw [isNumberStart, Bool.or_eq_true, beq_iff_eq, isDigit_iff_toNat] at h
  obtain rfl | h := h
  · decide
  · simp only [Text.isBlank, Bool.or_eq_false_iff, Bool.and_eq_false_iff, decide_eq_false_iff_not, beq_eq_false_iff_ne]
    omega

theorem isBlank_of_isWordStart (h : isWordStart c = true) : Text.isBlank c = false := by
  rw [isWordStart, Bool.or_eq_true, beq_iff_eq, isAlpha_iff_toNat] at h
  obtain h | rfl := h
  · simp only [Text.isBlank, Bool.or_eq_false_iff, Bool.and_eq_false_iff, decide_eq_false_iff_not, beq_eq_false_iff_ne]
    omega
  · decide

theorem isWordStart_of_isNumberStart (h : isNumberStart c = true) : isWordStart c = false := by
  rw [isNumberStart, Bool.or_eq_true, beq_iff_eq] at h
  obtain rfl | h := h
  · decide
  · have hne : c ≠ '_' := by rintro rfl; cases h
    rw [isDigit_iff_toNat] at h
    rw [isWordStart, beq_eq_false_iff_ne.mpr hne, Bool.or_false, Bool.eq_false_iff, Ne, isAlpha_iff_toNat]
    omega

theorem param?_eq_none (h : c ≠ '@') : param? (c :: cs) = none := by
  unfold param?
  split
  · next heq => exact absurd (List.cons.inj heq).1 h
  · rfl

theorem number?_eq_none (h : isNumberStart c = false) : number? (c :: cs) = none := by
  rw [isNumberStart, Bool.or_eq_false_iff] at h
  unfold number?
  split
  · next heq => rw [(List.cons.inj heq).1] at h; cases h.1
  · rw [unsigned?, h.2]
    rfl

theorem quotation?_eq_none (h : c ≠ quote) : quotation? quote (c :: cs) = none := if_neg h

theorem symbol?_eq_none (h : c ∉ symbolStarts) : symbol? (c :: cs) = none := by
  unfold symbol?
  split
  case h_10 => rfl
  all_goals next heq => rw [(List.cons.inj heq).1] at h; exact absurd (by decide) h

theorem next?_of_isBlank (h : Text.isBlank c = true) : next? (c :: cs) = some (none, cs.dropWhile Text.isBlank) := by
  rw [next?, blank?, if_pos h]
  rfl

theorem next?_of_isWordStart (h : isWordStart c = true) :
    next? (c :: cs) = (word? (c :: cs)).map fun (s, rest) => (some (.word s), rest) := by
  rw [next?, blank?, isBlank_of_isWordStart h, word?, h]
  rfl

theorem next?_at (cs : List Char) : next? ('@' :: cs) = (word? cs).map fun (s, rest) => (some (.param s), rest) := by
  have hblank : blank? ('@' :: cs) = none := rfl
  have hword : word? ('@' :: cs) = none := rfl
  rw [next?, hblank, hword, number?_eq_none rfl, quotation?_eq_none (by decide), quotation?_eq_none (by decide),
    symbol?_eq_none (by decide), param?]
  cases word? cs <;> rfl

theorem next?_of_isNumberStart (h : isNumberStart c = true) :
    next? (c :: cs) = (number? (c :: cs)).map fun (v, rest) => (some (.literal v), rest) := by
  have hkind : ∀ d ∈ '@' :: '"' :: '\'' :: symbolStarts, isNumberStart d = false := List.all_iff_forall_prop.mp (by decide)
  have hother (d : Char) (hd : d ∈ '@' :: '"' :: '\'' :: symbolStarts) : c ≠ d := by
    rintro rfl
    rw [hkind c hd] at h
    cases h
  rw [next?, blank?, isBlank_of_isNumberStart h, word?, isWordStart_of_isNumberStart h, param?_eq_none (hother _ (by decide)),
    quotation?_eq_none (hother _ (by decide)), quotation?_eq_none (hother _ (by decide)),
    symbol?_eq_none fun hc => hother c (by simp [hc]) rfl]
  cases number? (c :: cs) <;> rfl

/-- The quotes of a query text. -/
def quotes : List Char := ['"', '\'']

theorem next?_of_mem_quotes (h : quote ∈ quotes) :
    next? (quote :: cs) = (quotation? quote (quote :: cs)).map fun (s, rest) => (some (.literal (.string s)), rest) := by
  have hkinds : ∀ q ∈ quotes, (Text.isBlank q = false ∧ isWordStart q = false) ∧ q ≠ '@' ∧ isNumberStart q = false ∧
    q ∉ symbolStarts := List.all_iff_forall_prop.mp (by decide)
  obtain ⟨⟨hblank, hword⟩, hat, hnumber, hsymbol⟩ := hkinds quote h
  rw [next?, blank?, hblank, word?, hword, param?_eq_none hat, number?_eq_none hnumber, symbol?_eq_none hsymbol]
  obtain rfl | hq := List.mem_cons.mp h
  · have hother : quotation? '\'' ('"' :: cs) = none := quotation?_eq_none (by decide)
    rw [hother]
    cases quotation? '"' ('"' :: cs) <;> rfl
  · obtain rfl := List.mem_singleton.mp hq
    have hother : quotation? '"' ('\'' :: cs) = none := quotation?_eq_none (by decide)
    rw [hother]
    cases quotation? '\'' ('\'' :: cs) <;> rfl

/-- What starts with none of the other characters is an operator or punctuation. -/
theorem next?_eq_symbol? (hblank : Text.isBlank c = false) (hword : isWordStart c = false) (hat : c ≠ '@')
    (hnumber : isNumberStart c = false) (hquote : c ∉ quotes) :
    next? (c :: cs) = (symbol? (c :: cs)).map fun (t, rest) => (some t, rest) := by
  have hq (q : Char) (h : q ∈ quotes) : c ≠ q := fun heq => hquote (heq ▸ h)
  rw [next?, blank?, hblank, word?, hword, param?_eq_none hat, number?_eq_none hnumber,
    quotation?_eq_none (hq _ (by decide)), quotation?_eq_none (hq _ (by decide))]
  rfl

/-! ## Words -/

/-- A word of the query language: letters, digits and underscores, and no digit at the front. -/
def IsWord (s : String) : Prop :=
  ∃ c cs, s.toList = c :: cs ∧ isWordStart c = true ∧ ∀ x ∈ cs, isWordChar x = true

theorem isWordChar_of_isWordStart (h : isWordStart c = true) : isWordChar c = true := by
  rw [isWordStart, Bool.or_eq_true] at h
  rw [isWordChar, Char.isAlphanum, Bool.or_eq_true, Bool.or_eq_true]
  exact h.imp_left .inl

theorem IsWord.isWordChar {s : String} (h : IsWord s) : ∀ x ∈ s.toList, isWordChar x = true := by
  obtain ⟨c, cs, hs, hc, hcs⟩ := h
  rw [hs]
  exact List.forall_mem_cons.mpr ⟨isWordChar_of_isWordStart hc, hcs⟩

theorem isWord_of_word? {s : String} (h : word? cs = some (s, rest)) : IsWord s := by
  cases cs with
  | nil => cases h
  | cons c cs =>
    rw [word?, Option.ite_none_right_eq_some] at h
    obtain ⟨hc, h⟩ := h
    cases h
    exact ⟨c, _, String.toList_ofList, hc, fun x hx => (List.mem_takeWhile_imp hx)⟩

theorem IsWord.word? {s : String} (h : IsWord s) : word? s.toList = some (s, []) := by
  obtain ⟨c, cs, hs, hc, hcs⟩ := h
  rw [hs, Query.word?, if_pos hc, List.takeWhile_eq_self_iff.mpr hcs, List.dropWhile_eq_nil_iff.mpr hcs, ← hs,
    String.ofList_toList]

/-- A blank gives no token. -/
theorem blank?_ne_token (h : blank? cs = some (some t, rest)) : False := by
  cases cs with
  | nil => cases h
  | cons c cs =>
    rw [blank?, Option.ite_none_right_eq_some] at h
    cases h.2

/-- A lexeme that gives a word is one. -/
theorem isWord_of_next? {s : String} (h : next? cs = some (some (.word s), rest)) : IsWord s := by
  simp only [next?, Option.orElse_eq_orElse, Option.orElse_eq_or, Option.or_eq_some_iff, Option.map_eq_some_iff,
    Prod.mk.injEq, Prod.exists] at h
  obtain h | ⟨-, ⟨_, _, h, ht, -⟩ | ⟨-, ⟨_, _, _, ht, -⟩ | ⟨-, ⟨_, _, _, ht, -⟩ | ⟨-, ⟨_, _, _, ht, -⟩ |
    ⟨-, ⟨_, _, _, ht, -⟩ | ⟨-, _, _, h, ht, -⟩⟩⟩⟩⟩⟩ := h
  · exact (blank?_ne_token h).elim
  · cases ht
    exact isWord_of_word? h
  · cases ht
  · cases ht
  · cases ht
  · cases ht
  · cases ht
    unfold symbol? at h
    split at h <;> cases h

/-- **The words of a text are words.** -/
theorem isWord_of_tokens {s : String} (h : tokens text = .ok ts) (hs : .word s ∈ ts) : IsWord s := by
  obtain ⟨cs, rest, hnext⟩ := exists_next?_of_mem_scan (tokens_eq_ok_iff.mp h) hs
  exact isWord_of_next? hnext

/-! ## What follows a lexeme -/

/-- A reading before more text. -/
def followedBy (b : List Char) (r : α × List Char) : α × List Char := (r.1, r.2 ++ b)

/-- A reading takes characters of a class only, apart from the first: what starts with another one is left for later. -/
def StopsAt (p : Char → Bool) (reading : List Char → Option (α × List Char)) : Prop :=
  ∀ a b : List Char, Stops p b → reading (a ++ b) = (reading a).map (followedBy b)

/-- A reading that finds nothing without a character of the class at the front is given by what it does after one. -/
theorem stopsAt_of_cons {reading : List Char → Option (α × List Char)} (hnil : reading [] = none)
    (hother : ∀ y cs, p y = false → reading (y :: cs) = none)
    (hcons : ∀ c a b, Stops p b → reading (c :: (a ++ b)) = (reading (c :: a)).map (followedBy b)) :
    StopsAt p reading := by
  intro a b h
  cases a with
  | nil =>
    rw [List.nil_append, hnil]
    cases b with
    | nil => exact hnil
    | cons y b => exact hother y b (h y rfl)
  | cons c a => exact hcons c a b h

theorem stopsAt_blank? : StopsAt Text.isBlank blank? := by
  refine stopsAt_of_cons rfl (fun y cs hy => if_neg (Bool.eq_false_iff.mp hy)) fun c a b h => ?_
  rw [blank?, blank?, dropWhile_append h]
  split <;> rfl

theorem stopsAt_word? : StopsAt isWordChar word? := by
  refine stopsAt_of_cons rfl (fun y cs hy => if_neg fun hstart => ?_) fun c a b h => ?_
  · exact Bool.eq_false_iff.mp hy (isWordChar_of_isWordStart hstart)
  · rw [word?, word?, takeWhile_append h, dropWhile_append h]
    split <;> rfl

/-! ## Numbers -/

/-- Whether a character can stand in a number. -/
def isNumberChar (c : Char) : Bool := c.isDigit || c == '.' || c == 'e' || c == 'E' || c == '+' || c == '-'

theorem isDigit_eq_false (h : isNumberChar c = false) : c.isDigit = false := by
  simp only [isNumberChar, Bool.or_eq_false_iff] at h
  exact h.1.1.1.1.1

theorem stops_isDigit (h : Stops isNumberChar b) : Stops Char.isDigit b := fun y hy => isDigit_eq_false (h y hy)

theorem fraction?_eq_none (h : c ≠ '.') : fraction? (c :: cs) = none := by
  unfold fraction?
  split
  · next heq => exact absurd (List.cons.inj heq).1 h
  · rfl

theorem stopsAt_fraction? : StopsAt isNumberChar fraction? := by
  refine stopsAt_of_cons rfl (fun y cs hy => fraction?_eq_none (ne_of_class hy rfl)) fun c a b h => ?_
  have hdigit := stops_isDigit h
  by_cases hc : c = '.'
  · subst hc
    -- a point is read together with the digit after it
    cases a with
    | nil =>
      cases b with
      | nil => rfl
      | cons y b => exact if_neg (Bool.eq_false_iff.mp (hdigit y rfl))
    | cons d a =>
      rw [List.cons_append, fraction?, fraction?, takeWhile_append hdigit, dropWhile_append hdigit]
      split <;> rfl
  · rw [fraction?_eq_none hc, fraction?_eq_none hc]
    rfl

theorem power?_eq_none {sign : Int} (h : isNumberChar c = false) : power? sign (c :: cs) = none :=
  if_neg (Bool.eq_false_iff.mp (isDigit_eq_false h))

theorem stopsAt_power? (sign : Int) : StopsAt isNumberChar (power? sign) := by
  refine stopsAt_of_cons rfl (fun y cs hy => power?_eq_none hy) fun c a b h => ?_
  have hdigit := stops_isDigit h
  rw [power?, power?, takeWhile_append hdigit, dropWhile_append hdigit]
  split <;> rfl

theorem signedPower?_eq_power? (hplus : c ≠ '+') (hminus : c ≠ '-') : signedPower? (c :: cs) = power? 1 (c :: cs) := by
  unfold signedPower?
  split
  · next heq => exact absurd (List.cons.inj heq).1 hplus
  · next heq => exact absurd (List.cons.inj heq).1 hminus
  · rfl

theorem stopsAt_signedPower? : StopsAt isNumberChar signedPower? := by
  refine stopsAt_of_cons rfl (fun y cs hy => ?_) fun c a b h => ?_
  · rw [signedPower?_eq_power? (ne_of_class hy rfl) (ne_of_class hy rfl), power?_eq_none hy]
  · by_cases hplus : c = '+'
    · subst hplus
      exact stopsAt_power? 1 a b h
    · by_cases hminus : c = '-'
      · subst hminus
        exact stopsAt_power? (-1) a b h
      · rw [signedPower?_eq_power? hplus hminus, signedPower?_eq_power? hplus hminus]
        exact stopsAt_power? 1 (c :: a) b h

theorem stopsAt_exponent? : StopsAt isNumberChar exponent? := by
  refine stopsAt_of_cons rfl (fun y cs hy => if_neg fun hmark => ?_) fun c a b h => ?_
  · obtain rfl | rfl := hmark
    · cases hy
    · cases hy
  · rw [exponent?, exponent?, stopsAt_signedPower? a b h]
    split <;> rfl

theorem numberAfter_append (negative : Bool) (whole : List Char) (h : Stops isNumberChar b) (a : List Char) :
    numberAfter negative whole (a ++ b) = followedBy b (numberAfter negative whole a) := by
  unfold numberAfter
  rw [stopsAt_fraction? a b h]
  cases fraction? a with
  | none =>
    rw [stopsAt_exponent? a b h]
    cases exponent? a <;> rfl
  | some r =>
    dsimp only [Option.map_some, followedBy]
    rw [stopsAt_exponent? r.2 b h]
    cases exponent? r.2 <;> rfl

theorem unsigned?_eq_none {negative : Bool} (h : isNumberChar c = false) : unsigned? negative (c :: cs) = none :=
  if_neg (Bool.eq_false_iff.mp (isDigit_eq_false h))

theorem stopsAt_unsigned? (negative : Bool) : StopsAt isNumberChar (unsigned? negative) := by
  refine stopsAt_of_cons rfl (fun y cs hy => unsigned?_eq_none hy) fun c a b h => ?_
  have hdigit := stops_isDigit h
  rw [unsigned?, unsigned?, takeWhile_append hdigit, dropWhile_append hdigit, numberAfter_append negative _ h]
  split <;> rfl

theorem number?_eq_unsigned? (h : c ≠ '-') : number? (c :: cs) = unsigned? false (c :: cs) := by
  unfold number?
  split
  · next heq => exact absurd (List.cons.inj heq).1 h
  · rfl

theorem stopsAt_number? : StopsAt isNumberChar number? := by
  refine stopsAt_of_cons rfl (fun y cs hy => ?_) fun c a b h => ?_
  · rw [number?_eq_unsigned? (ne_of_class hy rfl), unsigned?_eq_none hy]
  · by_cases hc : c = '-'
    · subst hc
      exact stopsAt_unsigned? true a b h
    · rw [number?_eq_unsigned? hc, number?_eq_unsigned? hc]
      exact stopsAt_unsigned? false (c :: a) b h

/-! ## Quotations and symbols -/

theorem quotationBody?_quote (quote : Char) (cs : List Char) : quotationBody? quote (quote :: cs) = some ([], cs) := by
  rw [quotationBody?.eq_def]
  exact if_pos rfl

theorem quotationBody?_escaped {d : Char} (hquote : '\\' ≠ quote) (hd : d ≠ '\n') (ds : List Char) :
    quotationBody? quote ('\\' :: d :: ds) =
      (quotationBody? quote ds).map fun (s, rest) => (unescape d :: s, rest) := by
  rw [quotationBody?.eq_def]
  dsimp only
  rw [if_neg hquote, if_pos rfl, if_neg hd]

theorem quotationBody?_plain (hquote : c ≠ quote) (hc : c ≠ '\\') (cs : List Char) :
    quotationBody? quote (c :: cs) = (quotationBody? quote cs).map fun (s, rest) => (c :: s, rest) := by
  rw [quotationBody?.eq_def]
  dsimp only
  rw [if_neg hquote, if_neg hc]

theorem quotationBody?_append {s : List Char} (h : quotationBody? quote a = some (s, rest)) (b : List Char) :
    quotationBody? quote (a ++ b) = some (s, rest ++ b) := by
  fun_induction quotationBody? quote a generalizing s with
  | case1 => cases h
  | case2 cs =>
    cases h
    exact quotationBody?_quote quote (rest ++ b)
  | case3 => cases h
  | case4 => cases h
  | case5 d ds hd hquote ih =>
    obtain ⟨⟨s', rest'⟩, hbody, hr⟩ := Option.map_eq_some_iff.mp h
    cases hr
    rw [List.cons_append, List.cons_append, quotationBody?_escaped hquote hd, ih hbody]
    rfl
  | case6 c cs hquote hc ih =>
    obtain ⟨⟨s', rest'⟩, hbody, hr⟩ := Option.map_eq_some_iff.mp h
    cases hr
    rw [List.cons_append, quotationBody?_plain hquote hc, ih hbody]
    rfl

theorem quotation?_append {s : String} (h : quotation? quote a = some (s, rest)) (b : List Char) :
    quotation? quote (a ++ b) = some (s, rest ++ b) := by
  cases a with
  | nil => cases h
  | cons c a =>
    rw [quotation?, Option.ite_none_right_eq_some, Option.map_eq_some_iff] at h
    obtain ⟨hc, ⟨s', rest'⟩, hbody, hr⟩ := h
    cases hr
    rw [List.cons_append, quotation?, if_pos hc, quotationBody?_append hbody]
    rfl

/-- Whether a character can stand in an operator. -/
def isOperatorChar (c : Char) : Bool := c == '=' || c == '!' || c == '<' || c == '>' || c == '&'

theorem symbol?_append (h : symbol? a = some (t, rest))
    (hab : ∀ x ∈ a.getLast?, ∀ y ∈ b.head?, isOperatorChar x = true → isOperatorChar y = false) :
    symbol? (a ++ b) = some (t, rest ++ b) := by
  -- an angle bracket is a shorter operator only if no equals sign follows
  have hsingle {c : Char} {cs : List Char} (hc : isOperatorChar c = true)
      (hab : ∀ x ∈ (c :: cs).getLast?, ∀ y ∈ b.head?, isOperatorChar x = true → isOperatorChar y = false)
      (hcs : ∀ ds, cs ≠ '=' :: ds) (ds : List Char) : cs ++ b ≠ '=' :: ds := by
    cases cs with
    | nil => rintro rfl; cases hab c rfl '=' rfl hc
    | cons d cs => intro heq; exact hcs cs (by rw [(List.cons.inj heq).1])
  unfold symbol? at h
  split at h
  case h_5 cs hno =>
    cases h
    have hnext := hsingle rfl hab fun ds hds => hno ds (by rw [hds])
    rw [List.cons_append, symbol?]
    exact hnext
  case h_6 cs hno =>
    cases h
    have hnext := hsingle rfl hab fun ds hds => hno ds (by rw [hds])
    rw [List.cons_append, symbol?]
    exact hnext
  all_goals first | (cases h; rfl) | cases h

/-! ## Texts side by side -/

/-- The classes of characters that run on in a lexeme. -/
def lexemeClasses : List (Char → Bool) := [Text.isBlank, isWordChar, isNumberChar, isOperatorChar]

/-- No lexeme runs on from the end of a text into the next one. -/
def Apart (a b : List Char) : Prop :=
  ∀ p ∈ lexemeClasses, ∀ x ∈ a.getLast?, ∀ y ∈ b.head?, p x = true → p y = false

theorem Apart.of_append {w : List Char} (h : Apart (w ++ rest) b) : Apart rest b := by
  intro p hp x hx
  refine h p hp x ?_
  rw [List.getLast?_append, Option.mem_def.mp hx]
  rfl

/-- A character that no lexeme goes on with keeps texts apart. -/
theorem apart_cons (h : ∀ p ∈ lexemeClasses, p c = false) : Apart a (c :: cs) := fun p hp _ _ _ hy _ =>
  Option.some.inj hy ▸ h p hp

theorem Apart.append_right (h : Apart a b) (hb : b ≠ []) (rest : List Char) : Apart a (b ++ rest) := by
  intro p hp x hx y hy
  refine h p hp x hx y ?_
  rwa [List.head?_append_of_ne_nil b hb] at hy

/-- What reads one class of characters does not see past a place where texts are apart: if the character before that place is
of another class, then it stops there already. -/
theorem StopsAt.append_of_apart {reading : List Char → Option (α × List Char)} (h : StopsAt p reading)
    (hp : p ∈ lexemeClasses) (hne : a ≠ []) (hab : Apart a b) : reading (a ++ b) = (reading a).map (followedBy b) := by
  obtain ⟨a, x, rfl⟩ := (List.eq_nil_or_concat' a).resolve_left hne
  cases hx : p x with
  | true => exact h _ b fun y hy => hab p hp x (by simp) y hy hx
  | false =>
    rw [List.append_assoc, List.singleton_append, h a (x :: b) (stops_cons hx), h a [x] (stops_cons hx), Option.map_map]
    congr 1
    funext r
    simp [followedBy]

/-- A reading that gives a lexeme gives the same one before more text that stands apart. -/
theorem StopsAt.map_append {reading : List Char → Option (α × List Char)} (h : StopsAt p reading) (hp : p ∈ lexemeClasses)
    (hne : a ≠ []) (hab : Apart a b) {f : α → Option Token}
    (hr : (reading a).map (fun (r, rest) => (f r, rest)) = some (token?, rest)) :
    (reading (a ++ b)).map (fun (r, rest) => (f r, rest)) = some (token?, rest ++ b) := by
  obtain ⟨⟨r, rest'⟩, hr, hf⟩ := Option.map_eq_some_iff.mp hr
  cases hf
  rw [h.append_of_apart hp hne hab, hr]
  rfl

/-- **The first lexeme of a text is the same before more text that stands apart.** -/
theorem next?_append (h : next? a = some (token?, rest)) (hab : Apart a b) :
    next? (a ++ b) = some (token?, rest ++ b) := by
  cases a with
  | nil => cases h
  | cons c cs =>
    have hne : c :: cs ≠ [] := List.cons_ne_nil c cs
    rw [List.cons_append]
    by_cases hblank : Text.isBlank c = true
    · rw [next?_of_isBlank hblank] at h ⊢
      have hread := stopsAt_blank?.append_of_apart (by simp [lexemeClasses]) hne hab
      rw [List.cons_append, blank?, blank?, if_pos hblank, if_pos hblank] at hread
      rw [hread, h]
      rfl
    replace hblank := Bool.eq_false_iff.mpr hblank
    by_cases hword : isWordStart c = true
    · rw [next?_of_isWordStart hword] at h ⊢
      exact stopsAt_word?.map_append (by simp [lexemeClasses]) hne hab (f := fun s => some (.word s)) h
    replace hword := Bool.eq_false_iff.mpr hword
    by_cases hat : c = '@'
    · subst hat
      rw [next?_at] at h ⊢
      have hcs : cs ≠ [] := by rintro rfl; cases h
      exact stopsAt_word?.map_append (by simp [lexemeClasses]) hcs (hab.of_append (w := ['@']))
        (f := fun s => some (.param s)) h
    by_cases hnumber : isNumberStart c = true
    · rw [next?_of_isNumberStart hnumber] at h ⊢
      exact stopsAt_number?.map_append (by simp [lexemeClasses]) hne hab (f := fun v => some (.literal v)) h
    replace hnumber := Bool.eq_false_iff.mpr hnumber
    by_cases hquote : c ∈ quotes
    · rw [next?_of_mem_quotes hquote, Option.map_eq_some_iff] at h ⊢
      obtain ⟨⟨s, rest'⟩, hr, hf⟩ := h
      cases hf
      exact ⟨_, quotation?_append hr b, rfl⟩
    · rw [next?_eq_symbol? hblank hword hat hnumber hquote, Option.map_eq_some_iff] at h ⊢
      obtain ⟨⟨t, rest'⟩, hr, hf⟩ := h
      cases hf
      exact ⟨_, symbol?_append hr fun x hx y hy => hab _ (by simp [lexemeClasses]) x hx y hy, rfl⟩

/-- **The tokens of texts that stand apart are those of the first and then those of the second.** -/
theorem scan_append (h : scan a = .ok ts) (hab : Apart a b) : scan (a ++ b) = (scan b).map (ts ++ ·) := by
  fun_induction scan a generalizing ts with
  | case1 =>
    cases h
    rw [List.nil_append]
    cases scan b <;> rfl
  | case2 => cases h
  | case3 c cs token? rest hnext _ ih =>
    obtain ⟨ts', hscan, rfl⟩ := exists_of_map_eq_ok h
    obtain ⟨w, -, hw⟩ := consumes_next? hnext
    rw [scan_of_next? (next?_append hnext hab), ih hscan (hw ▸ hab).of_append]
    cases scan b with
    | error e => rfl
    | ok bs => exact congrArg Except.ok (List.append_assoc ..).symm

end DocStore.Query
