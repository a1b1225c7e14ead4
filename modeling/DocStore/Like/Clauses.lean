import DocStore.Document.Path
import DocStore.Like.Pattern

/-!
# Alternatives of LIKE tests

A predicate document read as alternatives: a text is a pattern for the text at its path, and any other value is to be
equal to the value at its path. A document matches when one alternative holds; one with the field missing never does. A
predicate with a text that is refused as a pattern has no alternatives: the first such text is the error.
-/

namespace DocStore

namespace Like

/-- One alternative. -/
inductive Clause where
  | pattern (path : String) (p : LikePattern)
  | equal (path : String) (v : Value)

/-- The alternative of an entry of a predicate. -/
def Clause.ofEntry [Engine] : String × Value → Except StoreError Clause
  | (path, .string s) => do return pattern path (← LikePattern.ofString s)
  | (path, v) => .ok (equal path v)

/-- The alternatives of some entries. -/
def Clause.ofEntries [Engine] : List (String × Value) → Except StoreError (List Clause)
  | [] => .ok []
  | x :: xs => do
    let c ← ofEntry x
    return c :: (← ofEntries xs)

/-- Whether a document meets an alternative. -/
def Clause.holds (separator : String) (d : Document) : Clause → Bool
  | pattern path p =>
    match d.getPath path separator with
    | some (.string s) => p.accepts s
    | _ => false
  | equal path v =>
    match d.getPath path separator with
    | some w => w == v
    | none => false

/-- The alternatives of a predicate. -/
def clauses [Engine] (predicate : Document) : Except StoreError (List Clause) := Clause.ofEntries predicate.entries

/-- Whether a document meets one of some alternatives. -/
def matchesAny (separator : String) (cs : List Clause) (d : Document) : Bool := cs.any (·.holds separator d)

end Like
end DocStore
