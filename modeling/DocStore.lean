import DocStore.Json.Data
import DocStore.Json.Reader
import DocStore.Store.Action
import DocStore.Store.Cursor
import DocStore.Text.Trimmed
import DocStore.Proofs.Numeric.Order
import DocStore.Proofs.Order.Chain
import DocStore.Proofs.Value.Order
import DocStore.Proofs.Index.Entries
import DocStore.Proofs.Index.Tracking
import DocStore.Proofs.Collection.Documents
import DocStore.Proofs.Collection.Steps
import DocStore.Proofs.Collection.Consistency
import DocStore.Proofs.Collection.Equality
import DocStore.Proofs.Order.Stable
import DocStore.Proofs.Query.Sorting
import DocStore.Proofs.Collection.Queries
import DocStore.Proofs.Store.Queries
import DocStore.Proofs.Index.Uniqueness
import DocStore.Proofs.Collection.Uniqueness
import DocStore.Proofs.Collection.Refusals
import DocStore.Proofs.Collection.Failures
import DocStore.Proofs.Query.Lexing
import DocStore.Proofs.Query.Literals
import DocStore.Proofs.Query.Parsing
import DocStore.Proofs.Store.Iteration
import DocStore.Proofs.Store.Effects
import DocStore.Proofs.Collection.Contents
import DocStore.Proofs.Store.Scanning
import DocStore.Proofs.Store.Handles
import DocStore.Proofs.Collection.Window
import DocStore.Proofs.Store.Window
import DocStore.Proofs.Value.Equality
import DocStore.Proofs.Document.Equality
import DocStore.Proofs.Index.Equality
import DocStore.Proofs.Query.Equality
import DocStore.Proofs.Collection.Alike
import DocStore.Proofs.Collection.Interchange
import DocStore.Proofs.Store.Interchange
import DocStore.Proofs.Collection.Paging
import DocStore.Proofs.Index.Removal
import DocStore.Proofs.Collection.Removal
import DocStore.Proofs.Collection.Reads
import DocStore.Proofs.Store.Reads
import DocStore.Proofs.Collection.Agreement
import DocStore.Proofs.Like.Pattern
import DocStore.Proofs.Value.Numbers
import DocStore.Proofs.Index.Rebuilding
import DocStore.Proofs.Collection.Rebuilding
import DocStore.Proofs.Index.History
import DocStore.Proofs.Collection.History
import DocStore.Proofs.Store.History
import DocStore.Proofs.Index.Creation
import DocStore.Proofs.Collection.Creation
import DocStore.Proofs.Text.Segments
import DocStore.Proofs.Document.Path
import DocStore.Proofs.Query.Paths
import DocStore.Proofs.Query.Substitution
import DocStore.Proofs.Json.Grammar
import DocStore.Proofs.Json.Printing
import DocStore.Proofs.Json.Scalars
import DocStore.Proofs.Json.RoundTrip
import DocStore.Proofs.FirstFailure
import DocStore.Proofs.Query.Binding
import DocStore.Proofs.Collection.Selection
import DocStore.Proofs.Store.Settings
import DocStore.Proofs.Collection.Stamps
import DocStore.Proofs.Collection.Undoing
import DocStore.Proofs.Collection.Rearranged
import DocStore.Proofs.Collection.Loading
import DocStore.Proofs.Document.Map
import DocStore.Proofs.Document.History
import DocStore.Numeric.Reading
import DocStore.Proofs.Text.Pattern
import DocStore.Proofs.Query.Patterns
import DocStore.Proofs.Query.Numerals
import DocStore.Proofs.Query.Lexemes
import DocStore.Proofs.Query.Tokenizing
import DocStore.Proofs.Value.Conversions
