import DocStore.Proofs.Json.Grammar
import DocStore.Proofs.Numeric.Decimal
import DocStore.Proofs.Value.Order
import Mathlib.Tactic.SplitIfs

/-!
# Texts of values are JSON

The text of every value is a JSON text (`isText_text`), floating point words included: a finite one is written as a number
without an exponent (`isNumber_positional`), any other as null. The items of a list and the entries of a document are written
in the same way, between commas up to the closing character (`joined`).
-/

namespace DocStore

namespace Json

variable {cs : List Char}

/-! ## Numbers -/

theorem isDigits_toDigits (n : Nat) : IsDigits (Nat.toDigits 10 n) :=
  ⟨Nat.toDigits_ne_nil, fun _ => isDigit_of_mem_toDigits⟩

theorem isWhole_toDigits (n : Nat) : IsWhole (Nat.toDigits 10 n) := by
  obtain rfl | hn := Nat.eq_zero_or_pos n
  · rw [Nat.toDigits_zero]
    exact .zero
  · exact .digits (isDigits_toDigits n) (head?_toDigits_ne hn)

theorem isNumber_of_isWhole (h : IsWhole cs) : IsNumber cs := by
  have hnumber := IsNumber.signed (.inl rfl) h .absent .absent
  simpa using hnumber

theorem isNumber_decimal (n : Int) : IsNumber (Number.decimal n) := by
  rw [Number.decimal]
  split
  · have hnumber := IsNumber.signed (.inr rfl) (isWhole_toDigits n.natAbs) .absent .absent
    simpa using hnumber
  · exact isNumber_of_isWhole (isWhole_toDigits n.natAbs)

theorem isDigits_replicate_append {ds : List Char} (n : Nat) (h : IsDigits ds) : IsDigits (List.replicate n '0' ++ ds) := by
  refine ⟨List.append_ne_nil_of_right_ne_nil _ h.1, fun d hd => ?_⟩
  obtain hzero | hds := List.mem_append.mp hd
  · rw [List.eq_of_mem_replicate hzero]
    rfl
  · exact h.2 d hds

/-- The text of a decimal number has a whole part and possibly a fraction. -/
theorem exists_positional_eq (x : DecimalPoint) :
    ∃ whole fraction, x.positional = whole ++ fraction ∧ IsWhole whole ∧ IsFraction fraction := by
  obtain ⟨digits, exponent⟩ := x
  have hds := isDigits_toDigits digits
  unfold DecimalPoint.positional
  dsimp only
  split
  · refine ⟨_, [], (List.append_nil _).symm, ?_, .absent⟩
    obtain rfl | hpos := Nat.eq_zero_or_pos digits
    · exact .zero
    · rw [if_neg (by omega)]
      refine .digits ⟨List.append_ne_nil_of_left_ne_nil hds.1 _, fun d hd => ?_⟩ ?_
      · obtain hd | hzero := List.mem_append.mp hd
        · exact hds.2 d hd
        · rw [List.eq_of_mem_replicate hzero]
          rfl
      · rw [List.head?_append_of_ne_nil _ hds.1]
        exact head?_toDigits_ne hpos
  · next hexp =>
    split
    · next hplaces =>
      have hplace : 0 < (-exponent).toNat := by omega
      have hpos : 0 < digits := by
        refine Nat.pos_of_ne_zero fun hzero => ?_
        rw [hzero, Nat.toDigits_zero, List.length_singleton] at hplaces
        omega
      have hpoint : 0 < (Nat.toDigits 10 digits).length - (-exponent).toNat := by omega
      refine ⟨_, _, rfl, .digits ⟨?_, fun d hd => hds.2 d (List.mem_of_mem_take hd)⟩ ?_,
        .digits ⟨?_, fun d hd => hds.2 d (List.mem_of_mem_drop hd)⟩⟩
      · rw [Ne, List.take_eq_nil_iff, not_or]
        exact ⟨Nat.ne_of_gt hpoint, hds.1⟩
      · rw [List.head?_take, if_neg (Nat.ne_of_gt hpoint)]
        exact head?_toDigits_ne hpos
      · rw [Ne, List.drop_eq_nil_iff]
        omega
    · exact ⟨['0'], _, rfl, .zero, .digits (isDigits_replicate_append _ hds)⟩

theorem isValue_text (x : Number) : IsValue x.text := by
  cases x with
  | int i => exact .number (isNumber_decimal i.toInt)
  | float w =>
    rw [Number.text]
    split
    · next hfinite =>
      have hnan : w.isNaN = false := by
        rw [Binary64.isFinite, bne_iff_ne] at hfinite
        rw [Binary64.isNaN, beq_eq_false_iff_ne.mpr hfinite, Bool.false_and]
      obtain ⟨whole, fraction, hx, hwhole, hfraction⟩ := exists_positional_eq w.shortest
      have hsign : (if w.isNegative then "-" else "").toList = [] ∨ (if w.isNegative then "-" else "").toList = ['-'] := by
        cases w.isNegative with
        | true => exact .inr rfl
        | false => exact .inl rfl
      have hnumber := IsNumber.signed hsign hwhole hfraction .absent
      rw [Binary64.format, hnan, if_neg Bool.false_ne_true, hfinite, if_pos rfl, String.toList_append, String.toList_ofList, hx]
      rw [List.append_nil] at hnumber
      exact .number hnumber
    · exact .null

/-! ## Strings -/

theorem isCharacters_quoteChar_append (c : Char) (h : IsCharacters cs) : IsCharacters (Text.quoteChar c ++ cs) := by
  unfold Text.quoteChar
  split_ifs with hquote hbackslash hn hr ht hcontrol
  · exact .escape (by decide) h
  · exact .escape (by decide) h
  · exact .escape (by decide) h
  · exact .escape (by decide) h
  · exact .escape (by decide) h
  · have hhex : ∀ k < 16, IsHexDigit k.digitChar := by
      unfold IsHexDigit
      decide
    show IsCharacters ('\\' :: 'u' :: (['0', '0', Nat.digitChar (c.toNat / 16), Nat.digitChar (c.toNat % 16)] ++ cs))
    refine .unicode rfl ?_ h
    simp only [List.forall_mem_cons]
    exact ⟨.inl rfl, .inl rfl, hhex _ (by omega), hhex _ (by omega), nofun⟩
  · exact .plain (by omega) hquote hbackslash h

theorem isString_quoted (s : List Char) : IsString (Text.quoted s) := by
  refine .quoted ?_
  induction s with
  | nil => exact .nil
  | cons c s ih => exact isCharacters_quoteChar_append c ih

/-! ## Lists and documents -/

/-- Texts after commas, with a closing character at the end. -/
def joinedMore (close : Char) (ts : List (List Char)) : List Char := ts.foldr (fun t cs => ',' :: (t ++ cs)) [close]

/-- Texts with commas between them and a closing character at the end. -/
def joined (close : Char) : List (List Char) → List Char
  | [] => [close]
  | t :: ts => t ++ joinedMore close ts

/-- The text of an entry. -/
def entryChars (e : String × Value) : List Char := Text.quoted e.1.toList ++ ':' :: e.2.chars

theorem moreItemsChars_eq (vs : List Value) : Value.moreItemsChars vs = joinedMore ']' (vs.map Value.chars) := by
  induction vs with
  | nil => rfl
  | cons v vs ih =>
    rw [Value.moreItemsChars, ih]
    rfl

theorem chars_array (items : List Value) : (Value.array items).chars = '[' :: joined ']' (items.map Value.chars) := by
  cases items with
  | nil => rfl
  | cons v vs =>
    rw [Value.chars, Value.itemsChars, moreItemsChars_eq]
    rfl

theorem moreEntriesChars_eq (es : List (String × Value)) :
    Value.moreEntriesChars es = joinedMore '\x7d' (es.map entryChars) := by
  induction es with
  | nil => rfl
  | cons e es ih =>
    have hentry : entryChars e ++ joinedMore '\x7d' (es.map entryChars) =
        Text.quoted e.1.toList ++ ':' :: (e.2.chars ++ joinedMore '\x7d' (es.map entryChars)) := List.append_assoc ..
    rw [Value.moreEntriesChars.eq_2, ih, ← hentry]
    rfl

theorem chars_document (es : List (String × Value)) :
    (Value.document es).chars = '\x7b' :: joined '\x7d' (es.map entryChars) := by
  cases es with
  | nil => rfl
  | cons e es =>
    rw [Value.chars, Value.entriesChars.eq_2, moreEntriesChars_eq, List.map_cons, joined, entryChars, List.append_assoc]
    rfl

/-- Joined parts are a sequence of them. -/
theorem exists_isSequence {part : List Char → Prop} (close : Char) {t : List Char} {ts : List (List Char)}
    (h : ∀ u ∈ t :: ts, part u) : ∃ cs, joined close (t :: ts) = cs ++ [close] ∧ IsSequence part cs := by
  induction ts generalizing t with
  | nil => exact ⟨t, rfl, .single (.of_part (h t (List.mem_singleton_self t)))⟩
  | cons u ts ih =>
    obtain ⟨ht, hts⟩ := List.forall_mem_cons.mp h
    obtain ⟨cs, hcs, hsequence⟩ := ih hts
    refine ⟨t ++ ',' :: cs, ?_, .cons (.of_part ht) hsequence⟩
    rw [List.append_assoc, List.cons_append, ← hcs]
    rfl

/-! ## Values -/

/-- The text of every value is a value. -/
theorem isValue_chars (v : Value) : IsValue v.chars := by
  induction v using Value.induction with
  | null => exact .null
  | bool b =>
    cases b with
    | true => exact .true
    | false => exact .false
  | number x => exact isValue_text x
  | string s => exact .string (isString_quoted s.toList)
  | array items ih =>
    rw [chars_array]
    cases items with
    | nil => exact .emptyArray isBlanks_nil
    | cons v vs =>
      obtain ⟨cs, hcs, hsequence⟩ := exists_isSequence ']' (List.forall_mem_map.mpr ih)
      rw [List.map_cons, hcs]
      exact .array hsequence
  | document es ih =>
    have hmember (e : String × Value) (he : e ∈ es) : IsMember IsValue (entryChars e) :=
      .named (isString_quoted e.1.toList) isBlanks_nil (.of_part (ih e he))
    rw [chars_document]
    cases es with
    | nil => exact .emptyObject isBlanks_nil
    | cons e es =>
      obtain ⟨cs, hcs, hsequence⟩ := exists_isSequence '\x7d' (List.forall_mem_map.mpr hmember)
      rw [List.map_cons, hcs]
      exact .object hsequence

/-- **The text of every value is a JSON text.** -/
theorem isText_text (v : Value) : IsText v.text := by
  rw [IsText, Value.text, String.toList_ofList]
  exact .of_part (isValue_chars v)

end Json
end DocStore
