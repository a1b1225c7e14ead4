import DocStore.Json.Reader

/-!
# The grammar of JSON

What RFC 8259 counts as a JSON text: numbers, strings, and values with blanks around their parts. The grammar does not mention
how texts are written or read here; only the blank characters are those that the reader skips.
-/

namespace DocStore.Json

/-! ## Numbers -/

/-- One or more digits. -/
def IsDigits (ds : List Char) : Prop := ds ≠ [] ∧ ∀ d ∈ ds, d.isDigit = true

/-- The digits before the point: a zero alone, or digits with another one at the front. -/
inductive IsWhole : List Char → Prop
  | zero : IsWhole ['0']
  | digits {ds : List Char} (h : IsDigits ds) (hzero : ds.head? ≠ some '0') : IsWhole ds

/-- A point with digits, or nothing. -/
inductive IsFraction : List Char → Prop
  | absent : IsFraction []
  | digits {ds : List Char} (h : IsDigits ds) : IsFraction ('.' :: ds)

/-- An exponent mark with digits, which may have a sign, or nothing. -/
inductive IsExponent : List Char → Prop
  | absent : IsExponent []
  | digits {mark : Char} {sign ds : List Char} (hmark : mark = 'e' ∨ mark = 'E')
      (hsign : sign = [] ∨ sign = ['+'] ∨ sign = ['-']) (h : IsDigits ds) : IsExponent (mark :: (sign ++ ds))

/-- A number: a minus sign, if there is one, the digits, and a fraction and an exponent, if there are any. -/
inductive IsNumber : List Char → Prop
  | signed {sign whole fraction exponent : List Char} (hs : sign = [] ∨ sign = ['-']) (hw : IsWhole whole)
      (hf : IsFraction fraction) (he : IsExponent exponent) : IsNumber (sign ++ (whole ++ (fraction ++ exponent)))

/-! ## Strings -/

/-- A hexadecimal digit. -/
def IsHexDigit (c : Char) : Prop := c.isDigit = true ∨ c ∈ "abcdefABCDEF".toList

/-- The characters between two double quotes: none of them is a control character, and quotes and backslashes stand in escapes. -/
inductive IsCharacters : List Char → Prop
  | nil : IsCharacters []
  | plain {c : Char} {cs : List Char} (hcontrol : 0x20 ≤ c.toNat) (hquote : c ≠ '"') (hbackslash : c ≠ '\\')
      (h : IsCharacters cs) : IsCharacters (c :: cs)
  | escape {c : Char} {cs : List Char} (hc : c ∈ ['"', '\\', '/', 'b', 'f', 'n', 'r', 't']) (h : IsCharacters cs) :
      IsCharacters ('\\' :: c :: cs)
  | unicode {ds cs : List Char} (hlength : ds.length = 4) (hds : ∀ d ∈ ds, IsHexDigit d) (h : IsCharacters cs) :
      IsCharacters ('\\' :: 'u' :: (ds ++ cs))

/-- A string. -/
inductive IsString : List Char → Prop
  | quoted {cs : List Char} (h : IsCharacters cs) : IsString ('"' :: (cs ++ ['"']))

/-! ## Values -/

/-- Blanks, as many as there are. -/
def IsBlanks (cs : List Char) : Prop := ∀ c ∈ cs, isBlank c = true

/-- A part with blanks around it. -/
inductive IsPadded (part : List Char → Prop) : List Char → Prop
  | padded {before cs after : List Char} (hb : IsBlanks before) (h : part cs) (ha : IsBlanks after) :
      IsPadded part (before ++ (cs ++ after))

/-- One or more parts with blanks around them and a comma between any two. -/
inductive IsSequence (part : List Char → Prop) : List Char → Prop
  | single {cs : List Char} (h : IsPadded part cs) : IsSequence part cs
  | cons {cs ds : List Char} (h : IsPadded part cs) (hs : IsSequence part ds) : IsSequence part (cs ++ ',' :: ds)

/-- A name and something under it. -/
inductive IsMember (part : List Char → Prop) : List Char → Prop
  | named {name before cs : List Char} (hn : IsString name) (hb : IsBlanks before) (h : IsPadded part cs) :
      IsMember part (name ++ (before ++ ':' :: cs))

/-- A value: a word, a number, a string, values between brackets, or named values between braces. -/
inductive IsValue : List Char → Prop
  | null : IsValue "null".toList
  | true : IsValue "true".toList
  | false : IsValue "false".toList
  | number {cs : List Char} (h : IsNumber cs) : IsValue cs
  | string {cs : List Char} (h : IsString cs) : IsValue cs
  | emptyArray {cs : List Char} (h : IsBlanks cs) : IsValue ('[' :: (cs ++ [']']))
  | array {cs : List Char} (h : IsSequence IsValue cs) : IsValue ('[' :: (cs ++ [']']))
  | emptyObject {cs : List Char} (h : IsBlanks cs) : IsValue ('\x7b' :: (cs ++ ['\x7d']))
  | object {cs : List Char} (h : IsSequence (IsMember IsValue) cs) : IsValue ('\x7b' :: (cs ++ ['\x7d']))

/-- A JSON text: a value with blanks around it. -/
def IsText (text : String) : Prop := IsPadded IsValue text.toList

/-! ## Without blanks -/

theorem isBlanks_nil : IsBlanks [] := nofun

theorem IsPadded.of_part {part : List Char → Prop} {cs : List Char} (h : part cs) : IsPadded part cs := by
  have hpadded := IsPadded.padded isBlanks_nil h isBlanks_nil
  rwa [List.nil_append, List.append_nil] at hpadded

end DocStore.Json
