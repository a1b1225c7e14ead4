import DocStore.Numeric.Numeral
import DocStore.Query.SyntaxError
import DocStore.Text.Blank

/-!
# Reading tokens

`next?` takes one lexeme off the front of a text: the first of blank, word, parameter, number, quotation, operator and
punctuation that matches there, at its greatest length. It gives the token, or none for a blank, and the rest of the
text; the lexeme is never empty (`consumes_next?`). `tokens` repeats this to the end of the text; where nothing
matches, the text left over tells the offset of the error.
-/

namespace DocStore.Query

/-! ## Character classes -/

/-- Whether a word can start with a character. -/
def isWordStart (c : Char) : Bool := c.isAlpha || c == '_'

/-- Whether a word can go on with a character. -/
def isWordChar (c : Char) : Bool := c.isAlphanum || c == '_'

/-! ## Lexemes -/

/-- A run of white space, which gives no token. -/
def blank? : List Char → Option (Option Token × List Char)
  | c :: cs => if Text.isBlank c then some (none, cs.dropWhile Text.isBlank) else none
  | [] => none

/-- A word of letters, digits and underscores that does not start with a digit. -/
def word? : List Char → Option (String × List Char)
  | c :: cs =>
    if isWordStart c then some (String.ofList (c :: cs.takeWhile isWordChar), cs.dropWhile isWordChar) else none
  | [] => none

/-- A parameter: an at sign and a word. -/
def param? : List Char → Option (String × List Char)
  | '@' :: cs => word? cs
  | _ => none

/-- The digits after a point, if the text starts with a point and a digit. -/
def fraction? : List Char → Option (List Char × List Char)
  | '.' :: c :: cs => if c.isDigit then some (c :: cs.takeWhile Char.isDigit, cs.dropWhile Char.isDigit) else none
  | _ => none

/-- A power of ten after its sign. -/
def power? (sign : Int) : List Char → Option (Int × List Char)
  | c :: cs =>
    if c.isDigit then
      some (sign * Nat.ofDigitChars 10 (c :: cs.takeWhile Char.isDigit) 0, cs.dropWhile Char.isDigit)
    else none
  | [] => none

/-- The power of ten after an exponent mark. -/
def signedPower? : List Char → Option (Int × List Char)
  | '+' :: cs => power? 1 cs
  | '-' :: cs => power? (-1) cs
  | cs => power? 1 cs

/-- An exponent, if the text starts with a complete one. -/
def exponent? : List Char → Option (Int × List Char)
  | c :: cs => if c = 'e' ∨ c = 'E' then signedPower? cs else none
  | [] => none

/-- The number of digits before a point with what follows them: without fraction and exponent an integer. -/
def numberAfter (negative : Bool) (whole rest : List Char) : Value × List Char :=
  match fraction? rest with
  | some (fraction, rest) =>
    match exponent? rest with
    | some (e, rest) => (.float (Numeral.toBinary64 ⟨negative, whole, fraction, e⟩), rest)
    | none => (.float (Numeral.toBinary64 ⟨negative, whole, fraction, 0⟩), rest)
  | none =>
    match exponent? rest with
    | some (e, rest) => (.float (Numeral.toBinary64 ⟨negative, whole, [], e⟩), rest)
    | none =>
      let n := Nat.ofDigitChars 10 whole 0
      (.ofInt (if negative then -n else n), rest)

/-- A number after its sign. -/
def unsigned? (negative : Bool) : List Char → Option (Value × List Char)
  | c :: cs =>
    if c.isDigit then
      some (numberAfter negative (c :: cs.takeWhile Char.isDigit) (cs.dropWhile Char.isDigit))
    else none
  | [] => none

/-- A number: digits with an optional minus sign, an optional fraction and an optional exponent. -/
def number? : List Char → Option (Value × List Char)
  | '-' :: cs => unsigned? true cs
  | cs => unsigned? false cs

/-- The character that a letter after a backslash stands for. -/
def unescape : Char → Char
  | 'n' => '\n'
  | 't' => '\t'
  | 'r' => '\r'
  | c => c

/-- The text up to the closing quote. A backslash takes the next character with it, which is no line feed. -/
def quotationBody? (quote : Char) : List Char → Option (List Char × List Char)
  | [] => none
  | c :: cs =>
    if c = quote then some ([], cs)
    else if c = '\\' then
      match cs with
      | [] => none
      | d :: ds => if d = '\n' then none else (quotationBody? quote ds).map fun (s, rest) => (unescape d :: s, rest)
    else (quotationBody? quote cs).map fun (s, rest) => (c :: s, rest)

/-- A text between two of the given quotes. -/
def quotation? (quote : Char) : List Char → Option (String × List Char)
  | c :: cs => if c = quote then (quotationBody? quote cs).map fun (s, rest) => (String.ofList s, rest) else none
  | [] => none

/-- An operator or a punctuation character. -/
def symbol? : List Char → Option (Token × List Char)
  | '=' :: '=' :: cs => some (.comparison .eq, cs)
  | '!' :: '=' :: cs => some (.comparison .ne, cs)
  | '>' :: '=' :: cs => some (.comparison .ge, cs)
  | '<' :: '=' :: cs => some (.comparison .le, cs)
  | '>' :: cs => some (.comparison .gt, cs)
  | '<' :: cs => some (.comparison .lt, cs)
  | '&' :: '&' :: cs => some (.conjunction, cs)
  | '.' :: cs => some (.dot, cs)
  | ',' :: cs => some (.comma, cs)
  | _ => none

/-- The first lexeme of a text: its token, unless it is a blank, and the rest of the text. -/
def next? (cs : List Char) : Option (Option Token × List Char) :=
  blank? cs
    <|> (word? cs).map (fun (s, rest) => (some (.word s), rest))
    <|> (param? cs).map (fun (s, rest) => (some (.param s), rest))
    <|> (number? cs).map (fun (v, rest) => (some (.literal v), rest))
    <|> (quotation? '"' cs).map (fun (s, rest) => (some (.literal (.string s)), rest))
    <|> (quotation? '\'' cs).map (fun (s, rest) => (some (.literal (.string s)), rest))
    <|> (symbol? cs).map (fun (t, rest) => (some t, rest))

/-! ## Every lexeme takes something -/

/-- A text is something followed by a rest. -/
def Consumes (cs rest : List Char) : Prop := ∃ w, w ≠ [] ∧ cs = w ++ rest

theorem Consumes.length_lt {cs rest : List Char} (h : Consumes cs rest) : rest.length < cs.length := by
  obtain ⟨w, hw, rfl⟩ := h
  have := List.length_pos_iff.mpr hw
  simp only [List.length_append]; omega

theorem Consumes.trans {cs mid rest : List Char} (h : Consumes cs mid) (h' : Consumes mid rest) :
    Consumes cs rest := by
  obtain ⟨w, hw, rfl⟩ := h
  obtain ⟨u, _, rfl⟩ := h'
  exact ⟨w ++ u, by simp [hw], by simp⟩

theorem Consumes.cons (c : Char) {cs rest : List Char} (h : Consumes cs rest) : Consumes (c :: cs) rest := by
  obtain ⟨w, _, rfl⟩ := h
  exact ⟨c :: w, by simp, by simp⟩

theorem consumes_head (c : Char) (cs : List Char) : Consumes (c :: cs) cs := ⟨[c], by simp, by simp⟩

theorem consumes_dropWhile (p : Char → Bool) (c : Char) (cs : List Char) : Consumes (c :: cs) (cs.dropWhile p) :=
  ⟨c :: cs.takeWhile p, by simp, by simp⟩

theorem consumes_blank? {cs rest : List Char} {t : Option Token} (h : blank? cs = some (t, rest)) :
    Consumes cs rest := by
  cases cs with
  | nil => simp [blank?] at h
  | cons c cs =>
    simp only [blank?, Option.ite_none_right_eq_some, Option.some.injEq, Prod.mk.injEq] at h
    exact h.2.2 ▸ consumes_dropWhile ..

theorem consumes_word? {cs rest : List Char} {s : String} (h : word? cs = some (s, rest)) : Consumes cs rest := by
  cases cs with
  | nil => simp [word?] at h
  | cons c cs =>
    simp only [word?, Option.ite_none_right_eq_some, Option.some.injEq, Prod.mk.injEq] at h
    exact h.2.2 ▸ consumes_dropWhile ..

theorem consumes_param? {cs rest : List Char} {s : String} (h : param? cs = some (s, rest)) : Consumes cs rest := by
  unfold param? at h
  split at h
  · exact (consumes_word? h).cons _
  · simp at h

theorem consumes_fraction? {cs rest ds : List Char} (h : fraction? cs = some (ds, rest)) : Consumes cs rest := by
  unfold fraction? at h
  split at h
  · simp only [Option.ite_none_right_eq_some, Option.some.injEq, Prod.mk.injEq] at h
    exact h.2.2 ▸ (consumes_dropWhile ..).cons _
  · simp at h

theorem consumes_power? {sign e : Int} {cs rest : List Char} (h : power? sign cs = some (e, rest)) :
    Consumes cs rest := by
  cases cs with
  | nil => simp [power?] at h
  | cons c cs =>
    simp only [power?, Option.ite_none_right_eq_some, Option.some.injEq, Prod.mk.injEq] at h
    exact h.2.2 ▸ consumes_dropWhile ..

theorem consumes_exponent? {e : Int} {cs rest : List Char} (h : exponent? cs = some (e, rest)) :
    Consumes cs rest := by
  cases cs with
  | nil => simp [exponent?] at h
  | cons c cs =>
    simp only [exponent?, Option.ite_none_right_eq_some] at h
    replace h := h.2
    unfold signedPower? at h
    split at h
    · exact ((consumes_power? h).cons _).cons _
    · exact ((consumes_power? h).cons _).cons _
    · exact (consumes_power? h).cons _

theorem numberAfter_rest (negative : Bool) (whole cs : List Char) :
    (numberAfter negative whole cs).2 = cs ∨ Consumes cs (numberAfter negative whole cs).2 := by
  unfold numberAfter
  split
  · next hf =>
    split
    · next he => exact .inr ((consumes_fraction? hf).trans (consumes_exponent? he))
    · exact .inr (consumes_fraction? hf)
  · split
    · next he => exact .inr (consumes_exponent? he)
    · exact .inl rfl

theorem consumes_unsigned? {negative : Bool} {v : Value} {cs rest : List Char}
    (h : unsigned? negative cs = some (v, rest)) : Consumes cs rest := by
  cases cs with
  | nil => simp [unsigned?] at h
  | cons c cs =>
    simp only [unsigned?, Option.ite_none_right_eq_some, Option.some.injEq] at h
    have hd := consumes_dropWhile Char.isDigit c cs
    rcases numberAfter_rest negative (c :: cs.takeWhile Char.isDigit) (cs.dropWhile Char.isDigit) with hn | hn
    · rw [h.2] at hn
      have hn : rest = cs.dropWhile Char.isDigit := hn
      rw [hn]
      exact hd
    · rw [h.2] at hn
      exact hd.trans hn

theorem consumes_number? {v : Value} {cs rest : List Char} (h : number? cs = some (v, rest)) :
    Consumes cs rest := by
  unfold number? at h
  split at h
  · exact (consumes_unsigned? h).cons _
  · exact consumes_unsigned? h

theorem consumes_quotationBody? {quote : Char} {cs s rest : List Char}
    (h : quotationBody? quote cs = some (s, rest)) : Consumes cs rest := by
  fun_induction quotationBody? quote cs generalizing s with
  | case1 => simp at h
  | case2 =>
    simp only [Option.some.injEq, Prod.mk.injEq] at h
    exact h.2 ▸ consumes_head ..
  | case3 => simp at h
  | case4 => simp at h
  | case5 _ d ds _ ih =>
    simp only [Option.map_eq_some_iff, Prod.mk.injEq, Prod.exists] at h
    obtain ⟨a, b, hab, _, rfl⟩ := h
    exact ((ih hab).cons _).cons _
  | case6 c cs _ _ ih =>
    simp only [Option.map_eq_some_iff, Prod.mk.injEq, Prod.exists] at h
    obtain ⟨a, b, hab, _, rfl⟩ := h
    exact (ih hab).cons _

theorem consumes_quotation? {quote : Char} {s : String} {cs rest : List Char}
    (h : quotation? quote cs = some (s, rest)) : Consumes cs rest := by
  cases cs with
  | nil => simp [quotation?] at h
  | cons c cs =>
    simp only [quotation?, Option.ite_none_right_eq_some, Option.map_eq_some_iff, Prod.mk.injEq, Prod.exists] at h
    obtain ⟨_, a, b, hab, _, rfl⟩ := h
    exact (consumes_quotationBody? hab).cons _

theorem consumes_symbol? {t : Token} {cs rest : List Char} (h : symbol? cs = some (t, rest)) :
    Consumes cs rest := by
  unfold symbol? at h
  split at h <;> simp only [Option.some.injEq, Prod.mk.injEq, reduceCtorEq] at h <;> obtain ⟨_, rfl⟩ := h
  case h_5 | h_6 | h_8 | h_9 => exact consumes_head ..
  all_goals exact (consumes_head ..).cons _

/-- **A lexeme is not empty, and the rest follows it.** -/
theorem consumes_next? {t : Option Token} {cs rest : List Char} (h : next? cs = some (t, rest)) :
    Consumes cs rest := by
  simp only [next?, Option.orElse_eq_orElse, Option.orElse_eq_or, Option.or_eq_some_iff, Option.map_eq_some_iff,
    Prod.mk.injEq, Prod.exists] at h
  rcases h with h | ⟨_, ⟨_, _, h, _, rfl⟩ | ⟨_, ⟨_, _, h, _, rfl⟩ | ⟨_, ⟨_, _, h, _, rfl⟩ |
    ⟨_, ⟨_, _, h, _, rfl⟩ | ⟨_, ⟨_, _, h, _, rfl⟩ | ⟨_, _, _, h, _, rfl⟩⟩⟩⟩⟩⟩
  · exact consumes_blank? h
  · exact consumes_word? h
  · exact consumes_param? h
  · exact consumes_number? h
  · exact consumes_quotation? h
  · exact consumes_quotation? h
  · exact consumes_symbol? h

/-! ## Token sequences -/

/-- The tokens of a text, or the rest of the text at which no lexeme starts. -/
def scan (cs : List Char) : Except (List Char) (List Token) :=
  match cs with
  | [] => .ok []
  | c :: cs =>
    match h : next? (c :: cs) with
    | none => .error (c :: cs)
    | some (token?, rest) =>
      have := (consumes_next? h).length_lt
      (scan rest).map (token?.toList ++ ·)
termination_by cs.length
decreasing_by exact this

/-- The number of bytes that characters take in UTF-8. -/
def byteCount : List Char → Nat
  | [] => 0
  | c :: cs => c.utf8Size + byteCount cs

/-- The tokens of a text. -/
def tokens (text : String) : Except SyntaxError (List Token) :=
  (scan text.toList).mapError fun rest => .unexpectedCharacter (byteCount text.toList - byteCount rest)

end DocStore.Query
