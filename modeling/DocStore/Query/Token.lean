import DocStore.Query.CompareOp
import DocStore.Value.Printer

/-!
# Tokens of a query

A query is read as a sequence of words, parameters, literals, operators and punctuation. No word is reserved: a keyword
is a word in a place where the grammar asks for that keyword, in capital or small letters.
-/

namespace DocStore.Query

/-- A token of a query. -/
inductive Token where
  | word (name : String)
  | param (name : String)
  | literal (v : Value)
  | comparison (op : CompareOp)
  | conjunction
  | dot
  | comma

/-- A token as messages show it. -/
def Token.text : Token → String
  | word name => name
  | param name => "@" ++ name
  | literal v => v.text
  | comparison op => op.symbol
  | conjunction => "&&"
  | dot => "."
  | comma => ","

/-- A keyword of the query language. -/
inductive Keyword where
  | FOR
  | IN
  | FILTER
  | AND
  | SORT
  | ASC
  | DESC
  | LIMIT
  | RETURN
  deriving DecidableEq

/-- A keyword in capital letters. -/
def Keyword.text : Keyword → String
  | FOR => "FOR"
  | IN => "IN"
  | FILTER => "FILTER"
  | AND => "AND"
  | SORT => "SORT"
  | ASC => "ASC"
  | DESC => "DESC"
  | LIMIT => "LIMIT"
  | RETURN => "RETURN"

/-- Whether two words agree when capital and small letters of the ASCII range are not told apart. -/
def sameLetters (s t : String) : Bool := s.toList.map Char.toUpper == t.toList.map Char.toUpper

/-- Whether a token is a given keyword in capital or small letters. -/
def Token.isKeyword : Token → Keyword → Bool
  | word name, k => sameLetters name k.text
  | _, _ => false

end DocStore.Query
