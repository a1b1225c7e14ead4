import DocStore.Document.Basic
import DocStore.Proofs.Numeric.Order
import DocStore.Proofs.Order.Chain

/-!
# The order of values is total

Values are compared by rank first (`compare_eq_rank_then`), lists item by item (`orderItems_eq`) and documents entry by entry
(`orderEntries_eq`), so both facts about all values go by induction on the first value (`induction`), with the facts
about chains of lists for the two nested kinds: the order is oriented (`compare_swap`) and every three values
give a chain (`chain_compare`). Together they make `Value` a type with a transitive order, on which the standard library
rests what it knows about lists, options and sorting. Main statement: `order_total`.
-/

namespace DocStore.Value

/-! ## Induction -/

/-- What holds of a value when it holds of its items or of the values of its entries holds of every value. -/
@[elab_as_elim]
theorem induction {P : Value → Prop} (null : P null) (bool : ∀ b, P (bool b)) (number : ∀ x, P (number x))
    (string : ∀ s, P (string s)) (array : ∀ xs, (∀ x ∈ xs, P x) → P (array xs))
    (document : ∀ es, (∀ e ∈ es, P e.2) → P (document es)) (v : Value) : P v :=
  @Value.rec P (fun xs => ∀ x ∈ xs, P x) (fun es => ∀ e ∈ es, P e.2) (fun e => P e.2) null bool number string array
    document (fun _ h => by cases h) (fun _ _ h hs => List.forall_mem_cons.mpr ⟨h, hs⟩) (fun _ h => by cases h)
    (fun _ _ h hs => List.forall_mem_cons.mpr ⟨h, hs⟩) (fun _ _ h => h) v

/-! ## Lists and documents -/

/-- The order of entries: by name, then by value. -/
abbrev orderEntry : String × Value → String × Value → Ordering := compareLex (compareOn (·.1)) (compareOn (·.2))

theorem orderItems_eq : ∀ xs ys : List Value, orderItems xs ys = xs.compareLex compare ys
  | [], [] => rfl
  | [], _ :: _ => rfl
  | _ :: _, [] => rfl
  | x :: xs, y :: ys => by rw [orderItems, List.compareLex_cons_cons, orderItems_eq xs ys]; rfl

theorem orderEntries_eq : ∀ es fs : List (String × Value), orderEntries es fs = es.compareLex orderEntry fs
  | [], [] => rfl
  | [], _ :: _ => rfl
  | _ :: _, [] => rfl
  | (m, x) :: es, (n, y) :: fs => by rw [orderEntries, List.compareLex_cons_cons, orderEntries_eq es fs]; rfl

theorem compare_array (xs ys : List Value) : compare (array xs) (array ys) = xs.compareLex compare ys := by
  rw [← orderItems_eq]
  rfl

theorem compare_document (es fs : List (String × Value)) :
    compare (document es) (document fs) = es.compareLex orderEntry fs := by
  rw [← orderEntries_eq]
  rfl

/-! ## Kinds -/

theorem compare_eq_rank_then (v w : Value) : compare v w = (compare v.rank w.rank).then (compare v w) := by
  cases v <;> cases w <;> rfl

/-- The comparison of two values is oriented when it is for values of one kind. -/
theorem swap_of_kind {v w : Value} (h : v.rank = w.rank → compare w v = (compare v w).swap) :
    compare w v = (compare v w).swap := by
  rw [compare_eq_rank_then w v, compare_eq_rank_then v w, Ordering.swap_then, ← Std.OrientedOrd.eq_swap]
  cases hc : compare w.rank v.rank with
  | eq => rw [h (Nat.compare_eq_eq.mp hc).symm]
  | lt | gt => rfl

/-- Three values give a chain when they do as values of one kind. -/
theorem chain_of_kind {u v w : Value}
    (h : u.rank = v.rank → v.rank = w.rank → Chain (compare u v) (compare v w) (compare u w)) :
    Chain (compare u v) (compare v w) (compare u w) := by
  rw [compare_eq_rank_then u v, compare_eq_rank_then v w, compare_eq_rank_then u w]
  exact (chain_of_transOrd u.rank v.rank w.rank).then fun huv hvw =>
    h (Nat.compare_eq_eq.mp huv) (Nat.compare_eq_eq.mp hvw)

/-! ## Orientation -/

theorem compare_swap (v w : Value) : compare w v = (compare v w).swap := by
  induction v using induction generalizing w with
  | null =>
    refine swap_of_kind fun h => ?_
    cases w with
    | null => rfl
    | _ => cases h
  | bool b =>
    refine swap_of_kind fun h => ?_
    cases w with
    | bool c => exact Std.OrientedOrd.eq_swap (α := Bool)
    | _ => cases h
  | number x =>
    refine swap_of_kind fun h => ?_
    cases w with
    | number y => exact Std.OrientedOrd.eq_swap (α := Number)
    | _ => cases h
  | string s =>
    refine swap_of_kind fun h => ?_
    cases w with
    | string t => exact Std.OrientedOrd.eq_swap (α := String)
    | _ => cases h
  | array xs ih =>
    refine swap_of_kind fun h => ?_
    cases w with
    | array ys =>
      rw [compare_array, compare_array]
      exact swap_compareLex ih ys
    | _ => cases h
  | document es ih =>
    refine swap_of_kind fun h => ?_
    cases w with
    | document fs =>
      rw [compare_document, compare_document]
      refine swap_compareLex (fun e he f => ?_) fs
      show (compare f.1 e.1).then (compare f.2 e.2) = ((compare e.1 f.1).then (compare e.2 f.2)).swap
      rw [Ordering.swap_then, ← Std.OrientedOrd.eq_swap, ih e he]
    | _ => cases h

/-! ## Transitivity -/

theorem chain_compare (u v w : Value) : Chain (compare u v) (compare v w) (compare u w) := by
  induction u using induction generalizing v w with
  | null =>
    refine chain_of_kind fun hv hw => ?_
    cases v with
    | null => exact fun _ _ => rfl
    | _ => cases hv
  | bool b =>
    refine chain_of_kind fun hv hw => ?_
    cases v with
    | bool c =>
      cases w with
      | bool d => exact chain_of_transOrd b c d
      | _ => cases hw
    | _ => cases hv
  | number x =>
    refine chain_of_kind fun hv hw => ?_
    cases v with
    | number y =>
      cases w with
      | number z => exact chain_of_transOrd x y z
      | _ => cases hw
    | _ => cases hv
  | string s =>
    refine chain_of_kind fun hv hw => ?_
    cases v with
    | string t =>
      cases w with
      | string r => exact chain_of_transOrd s t r
      | _ => cases hw
    | _ => cases hv
  | array xs ih =>
    refine chain_of_kind fun hv hw => ?_
    cases v with
    | array ys =>
      cases w with
      | array zs =>
        rw [compare_array, compare_array, compare_array]
        exact chain_compareLex ih ys zs
      | _ => cases hw
    | _ => cases hv
  | document es ih =>
    refine chain_of_kind fun hv hw => ?_
    cases v with
    | document fs =>
      cases w with
      | document gs =>
        rw [compare_document, compare_document, compare_document]
        exact chain_compareLex (fun e he f g => (chain_of_transOrd e.1 f.1 g.1).then fun _ _ => ih e he f.2 g.2) fs gs
      | _ => cases hw
    | _ => cases hv

/-- The order of values is total. -/
instance : Std.TransOrd Value := transCmp_of_chain compare_swap chain_compare

/-- Equality of values is that of their order. -/
instance : Std.LawfulBEqOrd Value where
  compare_eq_iff_beq {v w} := by
    show compare v w = .eq ↔ (compare v w).isEq
    exact Ordering.isEq_iff_eq_eq.symm

/-- The order of values is total: it is reflexive, turns around when its sides are exchanged and is transitive, strictly
when one of two steps is strict; values are equal exactly when neither comes before the other, and then stand alike to
every third value. Lists are ordered item by item with a proper prefix first, documents by their entries in order of
names, each by name and then by value. -/
theorem order_total (u v w : Value) :
    compare v v = .eq ∧ compare v u = (compare u v).swap ∧
    (u ≤ v → v ≤ w → u ≤ w) ∧ (u < v → v ≤ w → u < w) ∧ (u ≤ v → v < w → u < w) ∧
    ((u == v) = true ↔ compare u v = .eq) ∧
    (u == v → compare u w = compare v w ∧ compare w u = compare w v) ∧
    (∀ xs ys, compare (array xs) (array ys) = xs.compareLex compare ys) ∧
    (∀ xs ys : List Value, xs <+: ys → xs ≠ ys → array xs < array ys) ∧
    (∀ es fs, compare (document es) (document fs) =
      es.compareLex (compareLex (compareOn (·.1)) (compareOn (·.2))) fs) ∧
    (∀ d e : Document, SortedNames d.entries ∧ compare d e = compare (document d.entries) (document e.entries)) := by
  refine ⟨Std.ReflOrd.compare_self, compare_swap u v, Std.TransOrd.isLE_trans, Std.TransCmp.lt_of_lt_of_isLE,
    Std.TransCmp.lt_of_isLE_of_lt, Std.LawfulBEqOrd.compare_eq_iff_beq.symm, fun h => ?_, compare_array,
    fun xs ys hp hne => ?_, compare_document, fun d e => ⟨d.sorted, rfl⟩⟩
  · have he : compare u v = .eq := Std.LawfulBEqOrd.compare_eq_iff_beq.mpr h
    exact ⟨Std.TransCmp.congr_left he, Std.TransCmp.congr_right he⟩
  · show compare (array xs) (array ys) = .lt
    rw [compare_array]
    exact compareLex_of_prefix hp hne

theorem order_total_mixed :
    array [float ⟨0x4340000000000000⟩] < array [int 9007199254740993] ∧
    array [int 9007199254740993] ≤ array [float ⟨0x4340000000000001⟩] ∧
    array [float ⟨0x4340000000000000⟩] < array [float ⟨0x4340000000000001⟩] := by
  have huv : array [float ⟨0x4340000000000000⟩] < array [int 9007199254740993] := by decide +kernel
  have hvw : array [int 9007199254740993] ≤ array [float ⟨0x4340000000000001⟩] := by decide +kernel
  obtain ⟨-, -, -, htrans, -⟩ := order_total (array [float ⟨0x4340000000000000⟩]) (array [int 9007199254740993])
    (array [float ⟨0x4340000000000001⟩])
  exact ⟨huv, hvw, htrans huv hvw⟩

end DocStore.Value
