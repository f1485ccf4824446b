import EntityQuery.Dataset.Store
import EntityQuery.Main
import EntityQuery.Store.Recorded
import EntityQuery.Proofs.Outcome
import EntityQuery.Proofs.StableSort
import EntityQuery.Proofs.Text.Trimming
import EntityQuery.Proofs.Text.Lowercase
import EntityQuery.Proofs.Text.Slicing
import EntityQuery.Proofs.Calendar.Reading
import EntityQuery.Proofs.Uuid
import EntityQuery.Proofs.Value.Order
import EntityQuery.Proofs.Value.Floats
import EntityQuery.Proofs.Value.Keys
import EntityQuery.Proofs.Schema.Lookup
import EntityQuery.Proofs.Schema.Identifiers
import EntityQuery.Proofs.Schema.WellFormed
import EntityQuery.Proofs.Schema.BackReferences
import EntityQuery.Proofs.Schema.JoinTables
import EntityQuery.Proofs.Path.Segments
import EntityQuery.Proofs.Path.Joins
import EntityQuery.Proofs.Path.Ways
import EntityQuery.Proofs.Path.Types
import EntityQuery.Proofs.Path.Canonical
import EntityQuery.Proofs.Filter.Predicate
import EntityQuery.Proofs.Filter.Combination
import EntityQuery.Proofs.Filter.Grammar
import EntityQuery.Proofs.Filter.Compilation
import EntityQuery.Proofs.Filter.Typing
import EntityQuery.Proofs.Filter.Soundness
import EntityQuery.Proofs.Filter.Operands
import EntityQuery.Proofs.Value.Display
import EntityQuery.Proofs.Value.Identity
import EntityQuery.Proofs.Filter.Scanning
import EntityQuery.Proofs.Filter.Words
import EntityQuery.Proofs.Filter.Quotation
import EntityQuery.Proofs.Filter.Disjunction
import EntityQuery.Proofs.Filter.Sharing
import EntityQuery.Proofs.Filter.Conjunction
import EntityQuery.Proofs.Sql.Conditions
import EntityQuery.Proofs.Sql.Like
import EntityQuery.Proofs.Sql.Meaning
import EntityQuery.Proofs.Sql.Comparison
import EntityQuery.Proofs.Sql.Lexemes
import EntityQuery.Proofs.Sql.Expressions
import EntityQuery.Proofs.Sql.Queries
import EntityQuery.Proofs.Sql.Rendering
import EntityQuery.Proofs.Sql.Interpretation
import EntityQuery.Proofs.Sql.Refinement
import EntityQuery.Proofs.Sql.Patterns
import EntityQuery.Proofs.Sql.Parameters
import EntityQuery.Proofs.Sql.Forms
import EntityQuery.Proofs.Sql.Names
import EntityQuery.Proofs.Sql.Placeholders
import EntityQuery.Proofs.Sql.Sending
import EntityQuery.Proofs.Preparation
import EntityQuery.Proofs.Sql.Statements
import EntityQuery.Proofs.Sql.Grouping
import EntityQuery.Proofs.Sql.Scopes
import EntityQuery.Proofs.Dataset.Index
import EntityQuery.Proofs.Dataset.Filling
import EntityQuery.Proofs.Dataset.Contents
import EntityQuery.Proofs.Dataset.Related
import EntityQuery.Proofs.Dataset.Order
import EntityQuery.Proofs.Dataset.Expansion
import EntityQuery.Proofs.Dataset.Reach
import EntityQuery.Proofs.Dataset.Ranges
import EntityQuery.Proofs.Dataset.Typing
import EntityQuery.Proofs.Dataset.Counting
import EntityQuery.Proofs.Dataset.Sums
import EntityQuery.Proofs.Dataset.Repetition
import EntityQuery.Proofs.Dataset.Sharing
import EntityQuery.Proofs.Dataset.Gluing
import EntityQuery.Proofs.Dataset.Union
import EntityQuery.Proofs.Dataset.Permutation
import EntityQuery.Proofs.Dataset.Reordering
import EntityQuery.Proofs.Dataset.Product
import EntityQuery.Proofs.Filter.NullTests
import EntityQuery.Proofs.Filter.Writing
import EntityQuery.Proofs.Filter.Matching
import EntityQuery.Proofs.Filter.Places
import EntityQuery.Proofs.Filter.Parentheses
import EntityQuery.Proofs.Filter.Descent
import EntityQuery.Proofs.Filter.Replacing
import EntityQuery.Proofs.Filter.Correspondence
import EntityQuery.Proofs.Filter.Equality
import EntityQuery.Proofs.Filter.Insertion
import EntityQuery.Proofs.Filter.Lists
import EntityQuery.Proofs.Filter.Agreement
import EntityQuery.Proofs.Filter.Negation
import EntityQuery.Proofs.Filter.Ranges
import EntityQuery.Proofs.Filter.Offsets
import EntityQuery.Proofs.Dataset.Membership
import EntityQuery.Proofs.Fetch.Traversal
import EntityQuery.Proofs.Fetch.Loading
import EntityQuery.Proofs.Fetch.Stitching
import EntityQuery.Proofs.Dataset.BothSides
import EntityQuery.Proofs.Dataset.Linking
import EntityQuery.Proofs.Dataset.NullReferences
import EntityQuery.Proofs.Dataset.Identity
import EntityQuery.Proofs.Fetch.Completeness
import EntityQuery.Proofs.Fetch.Bounds
import EntityQuery.Proofs.Fetch.Slices
import EntityQuery.Proofs.Fetch.Validation
import EntityQuery.Proofs.Fetch.Forest
import EntityQuery.Proofs.Fetch.RoundTrips
import EntityQuery.Proofs.Fetch.Growth
import EntityQuery.Proofs.Fetch.Spelling
import EntityQuery.Proofs.SortOrder
import EntityQuery.Proofs.Fetch.Offsets
import EntityQuery.Proofs.Pager
import EntityQuery.Proofs.Pager.Arithmetic
import EntityQuery.Proofs.Pager.Consistency
import EntityQuery.Proofs.Pager.Reordering
import EntityQuery.Proofs.Paging
