import DocStore.Collection.Action
import DocStore.Proofs.Collection.Steps

/-!
# The result window of a collection

A collection with a result window (`windowed`) does all that the one without does, on the same documents and indexes;
the replies of some searches are cut to the window (`Action.limited`), and no other reply is. The two are compared
action by action (`perform_windowed`).
-/

namespace DocStore

/-- A configuration with a result window. -/
def Config.windowed (w : Nat) (config : Config) : Config := { config with resultWindow := some w }

theorem Config.cap_windowed {α : Type} {config : Config} (hnone : config.resultWindow = none) (w : Nat)
    (results : List α) : (config.windowed w).cap results = (config.cap results).take w := by
  unfold cap
  rw [hnone]
  rfl

namespace Collection

variable {c : Collection} {a : Action} {w : Nat}

/-- A collection with a result window. -/
def windowed (w : Nat) (c : Collection) : Collection := { c with config := c.config.windowed w }

/-- The searches that the result window limits. -/
def Action.limited : Action → Bool
  | .find .. | .findAllEqual .. | .findEqualSorted .. | .findLikeSorted .. => true
  | _ => false

/-- A reply with as many documents as a window allows. -/
def Reply.take (w : Nat) : Reply → Reply
  | .documents ds => .documents (ds.take w)
  | r => r

/-- The reply to an action under a result window. -/
def Action.cut (w : Nat) (a : Action) (r : Reply) : Reply := if a.limited then r.take w else r

theorem Action.cut_eq_id (ha : a.limited = false) : a.cut w = id := by
  funext r
  unfold cut
  rw [ha]
  rfl

/-! ## Writing -/

theorem advance_windowed (c : Collection) (w : Nat) (now : Int64) :
    (c.windowed w).advance now = (c.advance now).windowed w := by
  have hfield : (c.windowed w).config.timestampField = c.config.timestampField := rfl
  unfold advance
  rw [hfield]
  cases c.config.timestampField <;> rfl

theorem upsert_windowed (c : Collection) (w : Nat) (now : Int64) (d : Document) :
    (c.windowed w).upsert now d = (c.upsert now d).map id (windowed w) := by
  unfold upsert
  cases d.key with
  | error e => rfl
  | ok key =>
    have hcheck : Index.checkWrite (c.windowed w).separator key ((c.windowed w).stamped now d) (c.windowed w).indexes =
        Index.checkWrite c.separator key (c.stamped now d) c.indexes := rfl
    dsimp only
    rw [hcheck]
    cases Index.checkWrite c.separator key (c.stamped now d) c.indexes with
    | error e => rfl
    | ok _ =>
      dsimp only
      rw [advance_windowed]
      rfl

theorem remove_windowed (c : Collection) (w : Nat) (key : String) :
    (c.windowed w).remove key = (c.remove key).map id (windowed w) := by
  have hget : (c.windowed w).get? key = c.get? key := rfl
  unfold remove
  rw [hget]
  cases c.get? key <;> rfl

theorem delete_windowed (c : Collection) (w : Nat) (key : String) :
    (c.windowed w).delete key = (c.delete key).map id (windowed w) := by
  unfold delete
  rw [remove_windowed]
  rcases c.remove key with ⟨_ | d, c'⟩ <;> rfl

theorem removeKeys_windowed (w : Nat) (keys : List String) (c : Collection) :
    (c.windowed w).removeKeys keys = (c.removeKeys keys).map id (windowed w) := by
  induction keys generalizing c with
  | nil => rfl
  | cons key keys ih =>
    unfold removeKeys
    rw [remove_windowed]
    show ((c.remove key).1.toList ++ (((c.remove key).2.windowed w).removeKeys keys).1,
      (((c.remove key).2.windowed w).removeKeys keys).2) = _
    rw [ih]
    rfl

theorem removeQuery_windowed (c : Collection) (w : Nat) (text : String) (params : Document) :
    (c.windowed w).removeQuery text params = (c.removeQuery text params).map id (windowed w) := by
  have hbind : (c.windowed w).bindQuery text params = c.bindQuery text params := rfl
  unfold removeQuery
  rw [hbind]
  cases c.bindQuery text params with
  | error e => rfl
  | ok q =>
    have hkeys : (c.windowed w).evaluate q = c.evaluate q := rfl
    dsimp only
    rw [hkeys, removeKeys_windowed]
    rfl

theorem removeOneEqual_windowed (c : Collection) (w : Nat) (predicate : Document) :
    (c.windowed w).removeOneEqual predicate = (c.removeOneEqual predicate).map id (windowed w) := by
  have hfirst : (c.windowed w).firstEqual? predicate = c.firstEqual? predicate := rfl
  unfold removeOneEqual
  rw [hfirst]
  cases (c.firstEqual? predicate).bind fun e => e.2.key.toOption with
  | none => rfl
  | some key =>
    dsimp only
    rw [remove_windowed]
    rcases c.remove key with ⟨_ | d, c'⟩ <;> rfl

theorem addIndex_windowed (c : Collection) (w : Nat) (names : List String) (unique : Bool) :
    (c.windowed w).addIndex names unique = (c.addIndex names unique).map id (windowed w) := by
  unfold addIndex
  cases FieldList.ofNames names with
  | error e => rfl
  | ok fields =>
    have hcreate : Index.create (c.windowed w).separator (c.windowed w).documents ⟨fields, unique, (c.windowed w).name⟩
        (c.windowed w).indexes = Index.create c.separator c.documents ⟨fields, unique, c.name⟩ c.indexes := rfl
    dsimp only
    rw [hcreate]
    cases Index.create c.separator c.documents ⟨fields, unique, c.name⟩ c.indexes <;> rfl

theorem removeIndex_windowed (c : Collection) (w : Nat) (names : List String) :
    (c.windowed w).removeIndex names = (c.removeIndex names).map id (windowed w) := by
  unfold removeIndex
  cases FieldList.ofNames names with
  | error e => rfl
  | ok fields =>
    have hdrop : Index.drop fields (c.windowed w).indexes = Index.drop fields c.indexes := rfl
    dsimp only
    rw [hdrop]
    cases Index.drop fields c.indexes <;> rfl

/-! ## Searches -/

theorem find_windowed (hnone : c.config.resultWindow = none) (w : Nat) (text : String) (params : Document) :
    (c.windowed w).find text params = (c.find text params).map (·.take w) := by
  have hbind : (c.windowed w).bindQuery text params = c.bindQuery text params := rfl
  unfold find
  rw [hbind]
  cases c.bindQuery text params with
  | error e => rfl
  | ok q => exact congrArg Except.ok (Config.cap_windowed hnone w _)

theorem sortedPage_windowed (hnone : c.config.resultWindow = none) (w : Nat) (es : List Entry) (order : SortOrder)
    (fields : List String) (offset : Nat) (limit : Int) :
    (c.windowed w).sortedPage es order fields offset limit = (c.sortedPage es order fields offset limit).take w :=
  Config.cap_windowed hnone w _

theorem findLikeSorted_windowed [Like.Engine] (hnone : c.config.resultWindow = none) (w : Nat) (predicate : Document)
    (order : SortOrder) (fields : List String) (offset : Nat) (limit : Int) :
    (c.windowed w).findLikeSorted predicate order fields offset limit =
      (c.findLikeSorted predicate order fields offset limit).map (·.take w) := by
  have hmatches : (c.windowed w).likeMatches predicate = c.likeMatches predicate := rfl
  rw [findLikeSorted, findLikeSorted, hmatches]
  cases c.likeMatches predicate with
  | error e => rfl
  | ok es => exact congrArg Except.ok (sortedPage_windowed hnone w es order fields offset limit)

/-! ## Actions -/

/-- An action does the same under a result window, and some searches reply with less. -/
theorem perform_windowed [Like.Engine] (hnone : c.config.resultWindow = none) (w : Nat) (a : Action) :
    (c.windowed w).perform a = (c.perform a).map (·.map (a.cut w)) (windowed w) := by
  have hkeep (ha : a.limited = false) (hsame : (c.windowed w).perform a = (c.perform a).map id (windowed w)) :
      (c.windowed w).perform a = (c.perform a).map (·.map (a.cut w)) (windowed w) := by
    rw [hsame, Action.cut_eq_id ha]
    exact Prod.ext (congrFun Except.map_id _).symm rfl
  cases a with
  | upsert now d => exact hkeep rfl (congrArg (Prod.map _ id) (upsert_windowed c w now d))
  | delete key => exact hkeep rfl (congrArg (Prod.map _ id) (delete_windowed c w key))
  | addIndex names unique => exact hkeep rfl (congrArg (Prod.map _ id) (addIndex_windowed c w names unique))
  | removeIndex names => exact hkeep rfl (congrArg (Prod.map _ id) (removeIndex_windowed c w names))
  | removeQuery text params => exact hkeep rfl (congrArg (Prod.map _ id) (removeQuery_windowed c w text params))
  | removeEqual p => exact hkeep rfl (congrArg (Prod.map _ id) (removeKeys_windowed w (c.equalKeys p) c))
  | removeOneEqual p => exact hkeep rfl (congrArg (Prod.map _ id) (removeOneEqual_windowed c w p))
  | find text params =>
    unfold perform
    dsimp only
    rw [find_windowed hnone]
    cases c.find text params <;> rfl
  | findAllEqual p =>
    exact congrArg (fun ds => (Except.ok (Reply.documents ds), c.windowed w)) (Config.cap_windowed hnone w _)
  | findEqualSorted p order fields offset limit =>
    exact congrArg (fun ds => (Except.ok (Reply.documents ds), c.windowed w))
      (sortedPage_windowed hnone w (c.equalMatches p) order fields offset limit)
  | findLikeSorted p order fields offset limit =>
    unfold perform
    dsimp only
    rw [findLikeSorted_windowed hnone]
    cases c.findLikeSorted p order fields offset limit <;> rfl
  | _ => exact hkeep rfl rfl

end Collection
end DocStore
