import RowScope.Calendar.Reader
import RowScope.Compiler
import RowScope.Digest.Sha256
import RowScope.Json.Reader
import RowScope.Memory.Database
import RowScope.Request
import RowScope.Scope.Fingerprint
import RowScope.Sql.Render
import RowScope.Proofs.Memory.Subquery
import RowScope.Proofs.OrderedMap
import RowScope.Proofs.Relation.Catalog
import RowScope.Proofs.Sql.Atom
import RowScope.Proofs.Traversal
import RowScope.Proofs.Association.Merge
import RowScope.Proofs.Memory.Evaluation
import RowScope.Proofs.Memory.Join
import RowScope.Proofs.Relation.Path
import RowScope.Proofs.Memory.Related
import RowScope.Proofs.Association.Existence
import RowScope.Proofs.Scope.Sound
import RowScope.Proofs.Association.Reads
import RowScope.Proofs.Relation.ReadPath
import RowScope.Proofs.Rule.Targets
import RowScope.Proofs.Memory.Identity
import RowScope.Proofs.Relation.Standard
import RowScope.Proofs.Rule.Standard
import RowScope.Proofs.Compiler
import RowScope.Proofs.Scope.Selection
import RowScope.Proofs.Scope.Partition
import RowScope.Proofs.Filter.Readings
import RowScope.Proofs.Rule.Entries
import RowScope.Proofs.Scope.Lists
import RowScope.Proofs.Relation.Acceptance
import RowScope.Proofs.Association.Inspects
import RowScope.Proofs.Rule.Asks
import RowScope.Proofs.Scope.Origin
import RowScope.Proofs.Relation.Typing
import RowScope.Proofs.Memory.Execution
import RowScope.Proofs.Scope.Typing
import RowScope.Proofs.Memory.Agreement
import RowScope.Proofs.Scope.Visibility
import RowScope.Proofs.Sql.Lexer
import RowScope.Proofs.Sql.Legible
import RowScope.Proofs.Sql.Tokens
import RowScope.Proofs.Sql.Names
import RowScope.Proofs.Scope.Text
import RowScope.Proofs.Sql.Canonical
import RowScope.Proofs.Sql.Reading
import RowScope.Proofs.Scope.Canonical
import RowScope.Proofs.Number.Decimal
import RowScope.Proofs.Calendar.Date
import RowScope.Proofs.Json.Text
import RowScope.Proofs.Sql.Value
import RowScope.Proofs.Digest.Framing
import RowScope.Proofs.Scope.Fingerprint
import RowScope.Proofs.Scope.Relevance
import RowScope.Proofs.Scope.Refusal
import RowScope.Proofs.Relation.Bare
import RowScope.Proofs.Scope.Cardinality
import RowScope.Proofs.Calendar.Reading
import RowScope.Proofs.Json.Reading
import RowScope.Proofs.Json.Decoding
import RowScope.Proofs.Sql.Json
import RowScope.Proofs.Scope.Json
import RowScope.Proofs.Scope.Nesting
import RowScope.Proofs.Scope.Chains
import RowScope.Proofs.Association.Count
import RowScope.Proofs.Association.Bound
import RowScope.Proofs.Scope.Complement
import RowScope.Proofs.Memory.Simplification
import RowScope.Proofs.Sql.Node
import RowScope.Proofs.Sql.Leaves
import RowScope.Proofs.Sql.Unambiguous
import RowScope.Proofs.Sql.Placeholder
import RowScope.Proofs.Sql.Reduced
import RowScope.Proofs.Sql.Brackets
import RowScope.Proofs.Rule.Reduced
import RowScope.Proofs.Scope.Effect
import RowScope.Proofs.Memory.Pattern
import RowScope.Proofs.Filter.FreeText
import RowScope.Proofs.Filter.Dates
import RowScope.Proofs.Rule.Dated
import RowScope.Proofs.Scope.Windows
import RowScope.Proofs.Text.Trim
import RowScope.Proofs.Calendar.Hyphens
import RowScope.Proofs.Filter.Windows
import RowScope.Proofs.Filter.Wildcards
import RowScope.Proofs.Filter.Clean
import RowScope.Proofs.Filter.Members
import RowScope.Proofs.Filter.QueryPairs
import RowScope.Proofs.Relation.Additions
import RowScope.Proofs.Relation.Consistency
import RowScope.Proofs.Relation.Joins
import RowScope.Proofs.Scope.Extension
import RowScope.Proofs.Text.Letters
import RowScope.Proofs.Filter.Spelling
import RowScope.Proofs.Rule.Bindings
import RowScope.Proofs.Rule.Vocabulary
