import DocStore.Document.Basic
import DocStore.FieldList.Basic
import DocStore.Query.SyntaxError
import DocStore.Setting

/-!
# Errors

Every way in which an operation of a store fails is a constructor of `StoreError`, and belongs to one of nine kinds.
`message` has the wording; `wrapped` puts an error of another layer in front of its cause.
-/

namespace DocStore

/-- The kinds of errors. -/
inductive ErrorKind where
  | invalidKey
  | notFound
  | duplicateKeyViolation
  | unboundParameter
  | malformedQuery
  | indexNotFound
  | indexAlreadyExists
  | validationError
  | invalidOperation
  deriving DecidableEq

/-- A kind of errors as messages show it. -/
def ErrorKind.text : ErrorKind → String
  | invalidKey => "Invalid key"
  | notFound => "Not found"
  | duplicateKeyViolation => "Duplicate key violation"
  | unboundParameter => "Unbound parameter"
  | malformedQuery => "Malformed query"
  | indexNotFound => "Index not found"
  | indexAlreadyExists => "Index already exists"
  | validationError => "Validation error"
  | invalidOperation => "Invalid operation"

/-- Why a pattern cannot be used. -/
inductive PatternError where
  /-- The pattern is not well formed. -/
  | malformed (detail : String)
  /-- The matcher of the pattern would take more than this many bytes. -/
  | tooLarge (limit : Nat)
  deriving DecidableEq

/-- The message of a pattern error. -/
def PatternError.message : PatternError → String
  | malformed detail => detail
  | tooLarge limit => s!"Compiled regex exceeds size limit of {limit} bytes."

/-- Why an operation of a store failed. -/
inductive StoreError where
  /-- A document has no key field. -/
  | keyMissing
  /-- The key of a document is the empty text. -/
  | keyEmpty
  /-- The key of a document is no text. -/
  | keyNotText
  /-- A field with the empty name was to be set. -/
  | fieldNameEmpty
  /-- No document has this key. -/
  | documentNotFound (key collection : String)
  /-- No document has the fields of this predicate. -/
  | noMatch (collection : String) (predicate : Document)
  /-- A query answers no document. -/
  | noAnswer (collection : String)
  /-- A field list has no names. -/
  | fieldListEmpty
  /-- A field list has an empty name. -/
  | fieldListName
  /-- Another document holds the same tuple in a unique index. -/
  | tupleTaken (fields : FieldList) (holder : String)
  /-- Two stored documents share a tuple, so that a unique index cannot be built. -/
  | tupleShared (fields : FieldList) (first second : String)
  /-- There is no index over these fields. -/
  | indexMissing (fields : FieldList)
  /-- There is an index over these fields with the other uniqueness. -/
  | indexDiffers (fields : FieldList)
  /-- Another number of values than fields was given. -/
  | valueCount (fields : FieldList)
  /-- A query is malformed. -/
  | badSyntax (e : Query.SyntaxError)
  /-- A query names another collection than the one it is run on. -/
  | otherCollection (target collection : String)
  /-- A parameter of a query has no value. -/
  | parameterUnbound (name : String)
  /-- A limit is no natural number. -/
  | limitNotCount (found : Value)
  /-- The separator was set to the empty text. -/
  | separatorEmpty
  /-- The timestamp field was set to the empty name. -/
  | timestampFieldEmpty
  /-- The timestamp field was set to the key field. -/
  | timestampFieldIsKey
  /-- The result window was set to zero. -/
  | windowZero
  /-- A setting was changed after the store was opened. -/
  | settingFrozen (setting : Setting)
  /-- A pattern cannot be used. -/
  | badPattern (e : PatternError)
  /-- An error with a message of its own. -/
  | custom (kind : ErrorKind) (message : String)
  /-- An error with a message of its own that another error caused. -/
  | wrapped (kind : ErrorKind) (message : String) (cause : StoreError)

namespace StoreError

/-- The kind of an error. -/
def kind : StoreError → ErrorKind
  | keyMissing | keyEmpty | keyNotText => .invalidKey
  | documentNotFound .. | noMatch .. | noAnswer _ => .notFound
  | tupleTaken .. | tupleShared .. => .duplicateKeyViolation
  | parameterUnbound _ => .unboundParameter
  | badSyntax _ | otherCollection .. | limitNotCount _ => .malformedQuery
  | indexMissing _ => .indexNotFound
  | indexDiffers _ => .indexAlreadyExists
  | fieldListEmpty | fieldListName | valueCount _ | badPattern _ => .validationError
  | fieldNameEmpty | separatorEmpty | timestampFieldEmpty | timestampFieldIsKey | windowZero | settingFrozen _ =>
    .invalidOperation
  | custom kind _ | wrapped kind _ _ => kind

/-- The message of an error. -/
def message : StoreError → String
  | keyMissing => "Document key is missing"
  | keyEmpty => "Document key cannot be empty"
  | keyNotText => "Document key must be a string"
  | fieldNameEmpty => "Document does not support empty key"
  | documentNotFound key collection => "Document " ++ key ++ " not found in collection " ++ collection
  | noMatch collection predicate => "No document in " ++ collection ++ " matches " ++ predicate.text
  | noAnswer collection => "No document in " ++ collection ++ " matches the query"
  | fieldListEmpty => "Field names cannot be empty"
  | fieldListName => "Field name cannot be an empty string"
  | tupleTaken fields holder =>
    "Unique index on " ++ fields.text ++ " already contains document " ++ holder ++ " with the same values"
  | tupleShared fields first second =>
    "Unique index on " ++ fields.text ++ " violated by documents " ++ first ++ " and " ++ second
  | indexMissing fields => "No index found on " ++ fields.text
  | indexDiffers fields => "An index on " ++ fields.text ++ " already exists with a different uniqueness"
  | valueCount fields => s!"Expected {fields.length} values for " ++ fields.text
  | badSyntax e => e.message
  | otherCollection target collection => "Query targets collection " ++ target ++ " but was run on " ++ collection
  | parameterUnbound name => "Bind parameter @" ++ name ++ " is not bound"
  | limitNotCount found => "LIMIT expects a non-negative integer, found " ++ found.text
  | separatorEmpty => "Field separator cannot be empty"
  | timestampFieldEmpty => "Timestamp field cannot be empty"
  | timestampFieldIsKey => "Timestamp field cannot overwrite the document key"
  | windowZero => "Max result window must be positive"
  | settingFrozen setting => setting.label ++ " cannot be changed after the store is opened"
  | badPattern e => "Invalid pattern: " ++ e.message
  | custom _ message | wrapped _ message _ => message

/-- The error that caused an error, if it has a cause. -/
def cause? : StoreError → Option StoreError
  | wrapped _ _ cause => some cause
  | _ => none

/-- An error and its causes, outermost first. -/
def chain : StoreError → List StoreError
  | wrapped kind message cause => wrapped kind message cause :: cause.chain
  | e => [e]

/-- An error of no particular operation. -/
def ofMessage (message : String) : StoreError := custom .invalidOperation message

/-- The message and the kind of an error and of all its causes, one line each. -/
def report (e : StoreError) : String :=
  "\nCaused by: ".intercalate (e.chain.map fun c => c.message ++ " (" ++ c.kind.text ++ ")")

end StoreError
end DocStore
