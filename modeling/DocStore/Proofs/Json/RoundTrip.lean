import DocStore.Proofs.Json.Printing
import DocStore.Proofs.Json.Scalars
import Mathlib.Data.Bool.AllAny

/-!
# Values are read back from their texts

The text of a value without floating point words is read back as the value, with every kind of number, text and name as it
was, as long as the reader goes down as deep as the value is nested (`readValue?_chars`). So no two such values have one text.
Main result: `roundTrip_exact`.
-/

namespace DocStore

namespace Value

/-! ## Values without floating point words -/

/-- A value without floating point words. Every inner document has its names in order. -/
inductive FloatFree : Value → Prop
  | null : FloatFree null
  | bool (b : Bool) : FloatFree (bool b)
  | int (i : Int64) : FloatFree (int i)
  | string (s : String) : FloatFree (string s)
  | array {items : List Value} (h : ∀ v ∈ items, FloatFree v) : FloatFree (array items)
  | document {entries : List (String × Value)} (hsorted : SortedNames entries) (h : ∀ e ∈ entries, FloatFree e.2) :
      FloatFree (document entries)

mutual

/-- How many lists and documents lie inside each other in a value. -/
def nesting : Value → Nat
  | array items => nestingItems items + 1
  | document entries => nestingEntries entries + 1
  | _ => 0

/-- The greatest nesting of the items of a list. -/
def nestingItems : List Value → Nat
  | [] => 0
  | v :: vs => max (nesting v) (nestingItems vs)

/-- The greatest nesting of the values of entries. -/
def nestingEntries : List (String × Value) → Nat
  | [] => 0
  | (_, v) :: es => max (nesting v) (nestingEntries es)

end

theorem nestingItems_le_iff {n : Nat} {vs : List Value} : nestingItems vs ≤ n ↔ ∀ v ∈ vs, v.nesting ≤ n := by
  induction vs with
  | nil => simp [nestingItems]
  | cons v vs ih => rw [nestingItems, Nat.max_le, ih, List.forall_mem_cons]

theorem nestingEntries_le_iff {n : Nat} {es : List (String × Value)} :
    nestingEntries es ≤ n ↔ ∀ e ∈ es, e.2.nesting ≤ n := by
  induction es with
  | nil => simp [nestingEntries]
  | cons e es ih => rw [nestingEntries.eq_2, Nat.max_le, ih, List.forall_mem_cons]

end Value

/-! ## Documents from entries in order -/

theorem setEntry_eq_append {es : List (String × Value)} {name : String} {v : Value} (h : ∀ e ∈ es, e.1 < name) :
    setEntry name v es = es ++ [(name, v)] := by
  induction es with
  | nil => rfl
  | cons e es ih =>
    obtain ⟨he, hes⟩ := List.forall_mem_cons.mp h
    have hgt : compare name e.1 = .gt := Std.OrientedCmp.gt_of_lt (compare_eq_lt_iff.mpr he)
    rw [setEntry, hgt, List.cons_append, ← ih hes]

/-- Entries in order after those of a document are appended to them. -/
theorem Document.entries_foldl_insert {es : List (String × Value)} (d : Document) (h : SortedNames (d.entries ++ es)) :
    (es.foldl (fun d e => d.insert e.1 e.2) d).entries = d.entries ++ es := by
  induction es generalizing d with
  | nil => exact (List.append_nil _).symm
  | cons e es ih =>
    have hlast : (d.insert e.1 e.2).entries = d.entries ++ [e] :=
      setEntry_eq_append fun x hx => (List.pairwise_append.mp h).2.2 x hx e (List.mem_cons_self ..)
    have hall : (d.insert e.1 e.2).entries ++ es = d.entries ++ e :: es := by
      rw [hlast, List.append_assoc, List.singleton_append]
    rw [List.foldl_cons, ih _ (hall ▸ h), hall]

theorem Document.entries_ofList {es : List (String × Value)} (h : SortedNames es) : (ofList es).entries = es :=
  entries_foldl_insert empty h

namespace Json

open Text (Stops stops_nil stops_cons)

variable {α : Type} {rest : List Char}

/-! ## Lists -/

/-- A closing character is no blank and no comma, and does not continue a number. -/
structure Closes (close : Char) : Prop where
  isBlank : isBlank close = false
  ne_comma : close ≠ ','
  continuesNumber : continuesNumber close = false

theorem skipBlanks_cons {c : Char} (h : isBlank c = false) (cs : List Char) : skipBlanks (c :: cs) = c :: cs :=
  List.dropWhile_cons_of_neg (Bool.eq_false_iff.mp h)

section Lists

variable {close : Char} {element : Reading α} {text : α → List Char} {ok : α → Prop} [DecidablePred ok] {as : List α}

theorem stops_joinedMore (hclose : Closes close) (ts : List (List Char)) (rest : List Char) :
    Stops continuesNumber (joinedMore close ts ++ rest) := by
  cases ts with
  | nil => exact stops_cons hclose.continuesNumber
  | cons t ts => exact stops_cons rfl

/-- What can be read of each item before the next one can be read of all of them. -/
theorem readMore?_joinedMore (hclose : Closes close)
    (hread : ∀ a ∈ as, ∀ rest, Stops continuesNumber rest →
      element (text a ++ rest) = if ok a then some (a, rest) else none) (rest : List Char) :
    readMore? close element (joinedMore close (as.map text) ++ rest) = if ∀ a ∈ as, ok a then some (as, rest) else none := by
  induction as with
  | nil =>
    show readMore? close element (close :: rest) = _
    rw [readMore?.eq_def, skipBlanks_cons hclose.isBlank]
    simp
  | cons a as ih =>
    obtain ⟨ha, has⟩ := List.forall_mem_cons.mp hread
    have hcut : joinedMore close ((a :: as).map text) ++ rest = ',' :: (text a ++ (joinedMore close (as.map text) ++ rest)) :=
      congrArg _ (List.append_assoc ..)
    rw [hcut, readMore?.eq_def, skipBlanks_cons rfl]
    dsimp only
    rw [if_neg hclose.ne_comma.symm, if_pos rfl, ha _ (stops_joinedMore hclose _ _)]
    by_cases hok : ok a
    · rw [if_pos hok]
      dsimp only
      rw [if_pos (by simp only [List.length_cons, List.length_append]; omega), ih has]
      simp only [List.forall_mem_cons, hok, true_and]
      split <;> rfl
    · rw [if_neg hok, if_neg fun hall => hok (hall a (List.mem_cons_self ..))]

/-- What can be read of each item can be read of a list of them. -/
theorem readElements?_joined (hclose : Closes close)
    (hfirst : ∀ a ∈ as, ∃ c cs, text a = c :: cs ∧ isBlank c = false ∧ c ≠ close)
    (hread : ∀ a ∈ as, ∀ rest, Stops continuesNumber rest →
      element (text a ++ rest) = if ok a then some (a, rest) else none) (rest : List Char) :
    readElements? close element (joined close (as.map text) ++ rest) = if ∀ a ∈ as, ok a then some (as, rest) else none := by
  cases as with
  | nil =>
    show readElements? close element (close :: rest) = _
    rw [readElements?, skipBlanks_cons hclose.isBlank]
    simp
  | cons a as =>
    obtain ⟨ha, has⟩ := List.forall_mem_cons.mp hread
    obtain ⟨c, cs, hc, hblank, hne⟩ := hfirst a (List.mem_cons_self ..)
    have hcut : joined close ((a :: as).map text) ++ rest = text a ++ (joinedMore close (as.map text) ++ rest) :=
      List.append_assoc ..
    have hhead := ha _ (stops_joinedMore hclose (as.map text) rest)
    rw [hcut]
    rw [hc, List.cons_append] at hhead ⊢
    rw [readElements?, skipBlanks_cons hblank]
    dsimp only
    rw [if_neg hne, hhead]
    by_cases hok : ok a
    · rw [if_pos hok]
      show (readMore? close element _ >>= _) = _
      rw [readMore?_joinedMore hclose has]
      simp only [List.forall_mem_cons, hok, true_and]
      split <;> rfl
    · rw [if_neg hok, if_neg fun hall => hok (hall a (List.mem_cons_self ..))]
      rfl

end Lists

/-! ## Values -/

theorem closes_bracket : Closes ']' := ⟨rfl, by decide, rfl⟩

theorem closes_brace : Closes '\x7d' := ⟨rfl, by decide, rfl⟩

/-- The characters that values start with, other than those of numbers. -/
def valueStarts : List Char := ['n', 't', 'f', '"', '[', '\x7b']

/-- What starts with a digit or a minus sign is read as a number. -/
theorem readValue?_number {c : Char} (n : Nat) (hblank : isBlank c = false) (hc : c ∉ valueStarts) (cs : List Char) :
    readValue? n (c :: cs) = readNumber? (c :: cs) := by
  rw [readValue?.eq_def, skipBlanks_cons hblank]
  split
  case h_7 => rfl
  all_goals next heq => rw [(List.cons.inj heq).1] at hc; exact absurd (by decide) hc

/-- What starts with a sign or a digit is no other value and no end. -/
theorem not_blank_notMem_of_sign_or_digit {c : Char} (h : c = '-' ∨ c.isDigit = true) :
    isBlank c = false ∧ c ∉ ']' :: valueStarts := by
  rcases h with rfl | hdigit
  · exact ⟨rfl, by decide⟩
  · have hother : ∀ d ∈ [' ', '\n', '\t', '\r'] ++ ']' :: valueStarts, d.isDigit = false :=
      List.all_iff_forall_prop.mp (by decide)
    have hne (d : Char) (hd : d ∈ [' ', '\n', '\t', '\r'] ++ ']' :: valueStarts) : c ≠ d := by
      rintro rfl
      rw [hother c hd] at hdigit
      cases hdigit
    refine ⟨?_, fun hc => hne c (List.mem_append_right _ hc) rfl⟩
    rw [isBlank, beq_eq_false_iff_ne.mpr (hne ' ' (by decide)), beq_eq_false_iff_ne.mpr (hne '\n' (by decide)),
      beq_eq_false_iff_ne.mpr (hne '\t' (by decide)), beq_eq_false_iff_ne.mpr (hne '\r' (by decide))]
    rfl

/-- The text of a value starts with no blank and no closing bracket. -/
theorem exists_chars_eq_cons {v : Value} (h : v.FloatFree) :
    ∃ c cs, v.chars = c :: cs ∧ isBlank c = false ∧ c ≠ ']' := by
  cases h with
  | null => exact ⟨'n', _, rfl, rfl, by decide⟩
  | bool b =>
    cases b with
    | true => exact ⟨'t', _, rfl, rfl, by decide⟩
    | false => exact ⟨'f', _, rfl, rfl, by decide⟩
  | int i =>
    obtain ⟨c, cs, hcs, hstart⟩ := Number.exists_decimal_eq_cons i.toInt
    obtain ⟨hblank, hc⟩ := not_blank_notMem_of_sign_or_digit hstart
    exact ⟨c, cs, hcs, hblank, fun he => hc (he ▸ List.mem_cons_self ..)⟩
  | string s => exact ⟨'"', _, rfl, rfl, by decide⟩
  | array h => exact ⟨'[', _, rfl, rfl, by decide⟩
  | document hsorted h => exact ⟨'\x7b', _, rfl, rfl, by decide⟩

theorem readField?_entryChars {value : Reading Value} {e : String × Value} {ok : Prop} [Decidable ok]
    (h : value (e.2.chars ++ rest) = if ok then some (e.2, rest) else none) :
    readField? value (entryChars e ++ rest) = if ok then some (e, rest) else none := by
  have hcut : entryChars e ++ rest = '"' :: (e.1.toList.flatMap Text.quoteChar ++ '"' :: (':' :: (e.2.chars ++ rest))) := by
    simp [entryChars, Text.quoted]
  have hcolon : skipBlanks (':' :: (e.2.chars ++ rest)) = ':' :: (e.2.chars ++ rest) := skipBlanks_cons rfl _
  rw [hcut, readField?, skipBlanks_cons rfl]
  simp only [readText?_quoted, hcolon, h, String.ofList_toList]
  split <;> rfl

/-- **A value without floating point words is read back from its text exactly by the readers that go down deep enough.** -/
theorem readValue?_chars {v : Value} (h : v.FloatFree) (n : Nat) (hrest : Stops continuesNumber rest) :
    readValue? n (v.chars ++ rest) = if v.nesting ≤ n then some (v, rest) else none := by
  induction h generalizing n rest with
  | null =>
    rw [if_pos (show Value.null.nesting ≤ n from Nat.zero_le n), readValue?.eq_def]
    rfl
  | bool b =>
    rw [if_pos (show (Value.bool b).nesting ≤ n from Nat.zero_le n), readValue?.eq_def]
    cases b with
    | true => rfl
    | false => rfl
  | int i =>
    rw [if_pos (show (Value.int i).nesting ≤ n from Nat.zero_le n)]
    obtain ⟨c, cs, hcs, hstart⟩ := Number.exists_decimal_eq_cons i.toInt
    obtain ⟨hblank, hc⟩ := not_blank_notMem_of_sign_or_digit hstart
    have hread := readNumber?_decimal i hrest
    have hchars : (Value.int i).chars = c :: cs := hcs
    rw [hcs] at hread
    rw [hchars, List.cons_append, readValue?_number n hblank fun h => hc (List.mem_cons_of_mem _ h)]
    exact hread
  | string s =>
    have hcut : (Value.string s).chars ++ rest = '"' :: (s.toList.flatMap Text.quoteChar ++ '"' :: rest) := by
      simp [Value.chars, Text.quoted]
    rw [if_pos (show (Value.string s).nesting ≤ n from Nat.zero_le n), hcut, readValue?.eq_def, skipBlanks_cons rfl]
    simp only [readText?_quoted, Option.map_some, String.ofList_toList]
  | @array items h ih =>
    rw [chars_array, List.cons_append, readValue?.eq_def, skipBlanks_cons rfl]
    cases n with
    | zero => rfl
    | succ n =>
      have hfirst (v : Value) (hv : v ∈ items) := exists_chars_eq_cons (h v hv)
      have hall := readElements?_joined closes_bracket hfirst (fun v hv rest => ih v hv n) rest
      simp only [hall, Value.nesting, Nat.add_le_add_iff_right, Value.nestingItems_le_iff]
      split <;> rfl
  | @document entries hsorted h ih =>
    rw [chars_document, List.cons_append, readValue?.eq_def, skipBlanks_cons rfl]
    cases n with
    | zero => rfl
    | succ n =>
      have hfirst (e : String × Value) (_ : e ∈ entries) : ∃ c cs, entryChars e = c :: cs ∧ isBlank c = false ∧ c ≠ '\x7d' :=
        ⟨'"', _, rfl, rfl, by decide⟩
      have hread (e : String × Value) (he : e ∈ entries) (rest : List Char) (hrest : Stops continuesNumber rest) :=
        readField?_entryChars (ih e he n hrest)
      have hall := readElements?_joined closes_brace hfirst hread rest
      have hsame : (Document.ofList entries).toValue = .document entries := by
        rw [Document.toValue, Document.entries_ofList hsorted]
      simp only [hall, Value.nesting, Nat.add_le_add_iff_right, Value.nestingEntries_le_iff]
      split
      · rw [Option.map_some, hsame]
      · rfl

/-! ## Texts -/

theorem readValue?_text {v : Value} (h : v.FloatFree) (n : Nat) :
    readValue? n v.text.toList = if v.nesting ≤ n then some (v, []) else none := by
  have hread := readValue?_chars h n stops_nil
  rwa [List.append_nil, ← String.toList_ofList (l := v.chars)] at hread

theorem read?_text {v : Value} (h : v.FloatFree) :
    read? v.text = if v.nesting ≤ greatestNesting then some v else none := by
  rw [read?, readValue?_text h]
  by_cases hn : v.nesting ≤ greatestNesting
  · rw [if_pos hn, if_pos hn]
    rfl
  · rw [if_neg hn, if_neg hn]

/-- Different values without floating point words have different texts, however deep they are nested. -/
theorem text_injective {v w : Value} (hv : v.FloatFree) (hw : w.FloatFree) (h : v.text = w.text) : v = w := by
  have hread := readValue?_text hv (max v.nesting w.nesting)
  rw [h, readValue?_text hw, if_pos (Nat.le_max_right ..), if_pos (Nat.le_max_left ..)] at hread
  exact (congrArg Prod.fst (Option.some.inj hread)).symm

/-- **Texts of values are JSON, and values are read back from them.** The text of every value is a JSON text. A value without
floating point words is read back from its text exactly if it is nested no deeper than the reader goes, which for whole texts
is `greatestNesting`. No two such values have the same text. -/
theorem roundTrip_exact :
    (∀ v : Value, IsText v.text) ∧
    (∀ v : Value, v.FloatFree →
      (v.nesting ≤ greatestNesting → read? v.text = some v) ∧ (greatestNesting < v.nesting → read? v.text = none) ∧
      ∀ n, readValue? n v.text.toList = if v.nesting ≤ n then some (v, []) else none) ∧
    ∀ v w : Value, v.FloatFree → w.FloatFree → v.text = w.text → v = w := by
  refine ⟨isText_text, fun v h => ⟨fun hn => ?_, fun hn => ?_, readValue?_text h⟩, fun v w => text_injective⟩
  · rw [read?_text h, if_pos hn]
  · rw [read?_text h, if_neg (Nat.not_le.mpr hn)]

/-- A document with an empty name, and with a quote, a backslash and control characters in a name and a text. -/
def sampleValue : Value :=
  .document [("", .array [.int (-3), .bool true, .null]), ("\"\\", .string "a\n\x01"), ("d", .document [])]

theorem roundTrip_exact_sample : sampleValue.FloatFree ∧ IsText sampleValue.text ∧ read? sampleValue.text = some sampleValue ∧
    ∀ w : Value, w.FloatFree → w.text = sampleValue.text → w = sampleValue := by
  have hfree : sampleValue.FloatFree := by
    refine .document (by unfold SortedNames; decide) ?_
    simp only [List.forall_mem_cons]
    refine ⟨.array ?_, .string _, .document .nil nofun, nofun⟩
    simp only [List.forall_mem_cons]
    exact ⟨.int (-3), .bool true, .null, nofun⟩
  exact ⟨hfree, roundTrip_exact.1 _, (roundTrip_exact.2.1 _ hfree).1 (by decide), fun w hw => roundTrip_exact.2.2 w _ hw hfree⟩

/-! ## Values that are nested too deep -/

/-- Empty lists inside each other. -/
def deepArray : Nat → Value
  | 0 => .array []
  | n + 1 => .array [deepArray n]

theorem floatFree_deepArray (n : Nat) : (deepArray n).FloatFree := by
  induction n with
  | zero => exact .array nofun
  | succ n ih => exact .array fun v hv => List.mem_singleton.mp hv ▸ ih

theorem nesting_deepArray (n : Nat) : (deepArray n).nesting = n + 1 := by
  induction n with
  | zero => rfl
  | succ n ih =>
    rw [deepArray, Value.nesting, Value.nestingItems, ih, Value.nestingItems, Nat.max_zero]

/-- A list inside 127 others is not read back from its text. -/
theorem not_roundTrip_deepArray : (deepArray 127).FloatFree ∧ read? (deepArray 127).text = none := by
  have hfree := floatFree_deepArray 127
  refine ⟨hfree, ?_⟩
  rw [read?_text hfree, if_neg]
  rw [nesting_deepArray, greatestNesting]
  decide

end Json
end DocStore
