import DocStore.Query.Token

/-!
# Syntax errors

Why a text is not a query, with the message for each cause. Offsets count the bytes of the text in UTF-8.
-/

namespace DocStore.Query

/-- What the grammar asks for at some place. -/
inductive Expectation where
  | keyword (k : Keyword)
  | loopVariable
  | collectionName
  | fieldReference
  | fieldName
  | operand
  | operator
  | returnVariable
  deriving DecidableEq

/-- An expectation as messages show it. -/
def Expectation.text : Expectation → String
  | keyword k => k.text
  | loopVariable => "loop variable"
  | collectionName => "collection name"
  | fieldReference => "field reference"
  | fieldName => "field name after '.'"
  | operand => "a bind parameter or literal"
  | operator => "comparison operator"
  | returnVariable => "return variable"

/-- Why a text is not a query. -/
inductive SyntaxError where
  /-- No token starts at this offset. -/
  | unexpectedCharacter (offset : Nat)
  /-- Something else, or nothing, stands where the grammar asks for this. -/
  | expected (what : Expectation) (found : Option Token)
  /-- A field reference starts with another word than the loop variable. -/
  | foreignField (head loopVar : String)
  /-- The loop variable stands alone in place of a field reference. -/
  | missingField (loopVar : String)
  /-- A conjunction stands in place of a comparison operator. -/
  | conjunctionAsOperator
  /-- Another word than the loop variable is returned. -/
  | foreignReturn (returned loopVar : String)
  /-- A token follows the end of the query. -/
  | trailing (token : Token)

/-- The message of a syntax error. -/
def SyntaxError.message : SyntaxError → String
  | unexpectedCharacter offset => s!"Unexpected character at offset {offset} in query"
  | expected what none => "Expected " ++ what.text
  | expected what (some token) => "Expected " ++ what.text ++ ", found " ++ token.text
  | foreignField head v => "Field reference " ++ head ++ " does not start with loop variable " ++ v
  | missingField v => "Expected " ++ v ++ ".<field>"
  | conjunctionAsOperator => "Unsupported operator " ++ Token.conjunction.text
  | foreignReturn returned v => "RETURN " ++ returned ++ " does not reference loop variable " ++ v
  | trailing token => "Unexpected trailing token " ++ token.text

end DocStore.Query
