import DocStore.Query.Parser

/-!
# The grammar of queries

A derivation of a query has everything that its text says, down to the spelling of each keyword: how the conditions are
grouped into filter clauses, on which side of a condition its path stands, whether a direction is given. `tokens` writes a
derivation down, and `query` gives what it means. Every derivation is a tree of the form

    FOR v IN c { FILTER cond { (&& | AND) cond } } [ SORT path [ASC|DESC] { , path [ASC|DESC] } ]
      [ LIMIT [operand ,] operand ] RETURN v

where a path is `v` followed by one or more names after points, a condition is a path and an operand around an operator,
and an operand is a parameter, a number, a text or one of the words `true`, `false` and `null`.
-/

namespace DocStore.Query

/-! ## Words -/

/-- A word that is a given keyword, in capital or small letters. -/
@[ext]
structure Spelling (k : Keyword) where
  word : String
  spells : sameLetters word k.text = true

def Spelling.token {k : Keyword} (s : Spelling k) : Token := .word s.word

/-- A keyword as it is listed, in capital letters. -/
def Spelling.capitals (k : Keyword) : Spelling k := ⟨k.text, beq_self_eq_true _⟩

/-- The literals that are words. -/
inductive WordLiteral where
  | true
  | false
  | null

def WordLiteral.text : WordLiteral → String
  | .true => "true"
  | .false => "false"
  | .null => "null"

def WordLiteral.value : WordLiteral → Value
  | .true => .bool Bool.true
  | .false => .bool Bool.false
  | .null => .null

/-! ## Operands and paths -/

/-- A parameter, a number or a text, or a word that is a literal, in capital or small letters. -/
inductive OperandTree where
  | param (name : String)
  | literal (v : Value)
  | word (l : WordLiteral) (w : String) (spells : sameLetters w l.text = true)

namespace OperandTree

def token : OperandTree → Token
  | param name => .param name
  | literal v => .literal v
  | word _ w _ => .word w

def operand : OperandTree → Operand
  | param name => .param name
  | literal v => .literal v
  | word l _ _ => .literal l.value

end OperandTree

/-- Names, each after a point. -/
def pointed (names : List String) : List Token := names.flatMap fun n => [.dot, .word n]

/-- The names after the loop variable, at least one. -/
@[ext]
structure PathTree where
  first : String
  more : List String

namespace PathTree

def names (p : PathTree) : List String := p.first :: p.more

def tokens (p : PathTree) (loopVar : String) : List Token := .word loopVar :: pointed p.names

def field (p : PathTree) (separator : String) : String := separator.intercalate p.names

end PathTree

/-! ## Filter clauses -/

/-- A condition with its path on either side. -/
inductive ConditionTree where
  | pathFirst (path : PathTree) (op : CompareOp) (operand : OperandTree)
  | operandFirst (operand : OperandTree) (op : CompareOp) (path : PathTree)

namespace ConditionTree

def tokens (loopVar : String) : ConditionTree → List Token
  | pathFirst path op operand => path.tokens loopVar ++ [.comparison op, operand.token]
  | operandFirst operand op path => operand.token :: .comparison op :: path.tokens loopVar

/-- The operator is about the field, so it is mirrored where the operand comes first. -/
def condition (separator : String) : ConditionTree → Condition
  | pathFirst path op operand => ⟨path.field separator, op, operand.operand⟩
  | operandFirst operand op path => ⟨path.field separator, op.mirrored, operand.operand⟩

end ConditionTree

/-- What stands between two conditions of one clause. -/
inductive ConjunctionTree where
  | symbol
  | word (s : Spelling .AND)

def ConjunctionTree.token : ConjunctionTree → Token
  | symbol => .conjunction
  | word s => s.token

/-- Further conditions of a clause. -/
def conjoined (loopVar : String) (more : List (ConjunctionTree × ConditionTree)) : List Token :=
  more.flatMap fun m => m.1.token :: m.2.tokens loopVar

/-- A filter clause. -/
@[ext]
structure FilterTree where
  keyword : Spelling .FILTER
  first : ConditionTree
  more : List (ConjunctionTree × ConditionTree)

namespace FilterTree

def tokens (loopVar : String) (f : FilterTree) : List Token :=
  f.keyword.token :: (f.first.tokens loopVar ++ conjoined loopVar f.more)

def conditions (separator : String) (f : FilterTree) : List Condition :=
  f.first.condition separator :: f.more.map fun m => m.2.condition separator

end FilterTree

/-! ## Sorting and limiting -/

/-- The direction of a sort key, if it is given. -/
inductive DirectionTree where
  | absent
  | asc (s : Spelling .ASC)
  | desc (s : Spelling .DESC)

namespace DirectionTree

def tokens : DirectionTree → List Token
  | absent => []
  | asc s => [s.token]
  | desc s => [s.token]

def order : DirectionTree → SortOrder
  | absent => .ascending
  | asc _ => .ascending
  | desc _ => .descending

end DirectionTree

/-- A path with its direction. -/
@[ext]
structure SortKeyTree where
  path : PathTree
  direction : DirectionTree

namespace SortKeyTree

def tokens (loopVar : String) (k : SortKeyTree) : List Token := k.path.tokens loopVar ++ k.direction.tokens

def key (separator : String) (k : SortKeyTree) : SortKey := ⟨k.path.field separator, k.direction.order⟩

end SortKeyTree

/-- Further sort keys, each after a comma. -/
def listed (loopVar : String) (more : List SortKeyTree) : List Token := more.flatMap fun k => .comma :: k.tokens loopVar

/-- A sort clause. -/
@[ext]
structure SortTree where
  keyword : Spelling .SORT
  first : SortKeyTree
  more : List SortKeyTree

namespace SortTree

def tokens (loopVar : String) (s : SortTree) : List Token :=
  s.keyword.token :: (s.first.tokens loopVar ++ listed loopVar s.more)

def keys (separator : String) (s : SortTree) : List SortKey := (s.first :: s.more).map (·.key separator)

end SortTree

/-- A limit clause. -/
@[ext]
structure LimitTree where
  keyword : Spelling .LIMIT
  offset : Option OperandTree
  count : OperandTree

namespace LimitTree

def tokens (l : LimitTree) : List Token :=
  l.keyword.token :: (l.offset.elim [] (fun o => [o.token, .comma]) ++ [l.count.token])

def limit (l : LimitTree) : Limit := ⟨l.offset.map (·.operand), l.count.operand⟩

end LimitTree

/-! ## Queries -/

/-- A whole query. -/
@[ext]
structure QueryTree where
  forWord : Spelling .FOR
  loopVar : String
  inWord : Spelling .IN
  collection : String
  filters : List FilterTree
  sort : Option SortTree
  limit : Option LimitTree
  returnWord : Spelling .RETURN

namespace QueryTree

/-- What follows the filter clauses. -/
def tailTokens (q : QueryTree) : List Token :=
  q.sort.elim [] (·.tokens q.loopVar) ++ (q.limit.elim [] (·.tokens) ++ [q.returnWord.token, .word q.loopVar])

def tokens (q : QueryTree) : List Token :=
  q.forWord.token :: .word q.loopVar :: q.inWord.token :: .word q.collection ::
    (q.filters.flatMap (·.tokens q.loopVar) ++ q.tailTokens)

/-- The conditions of all clauses in the order of the text. -/
def query (separator : String) (q : QueryTree) : Query :=
  ⟨q.loopVar, q.collection, q.filters.flatMap (·.conditions separator), q.sort.elim [] (·.keys separator),
    q.limit.map (·.limit)⟩

end QueryTree
end DocStore.Query
