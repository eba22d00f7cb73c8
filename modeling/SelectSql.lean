import SelectSql.CommandLine
import SelectSql.Grid
import SelectSql.Main
import SelectSql.Query.Fetch
import SelectSql.Query.Same
import SelectSql.Proofs.Characters
import SelectSql.Proofs.Quotes
import SelectSql.Proofs.Slot
import SelectSql.Proofs.Template
import SelectSql.Proofs.Leaves
import SelectSql.Proofs.Doc
import SelectSql.Proofs.Writing
import SelectSql.Proofs.Doc.Clauses
import SelectSql.Proofs.Modes
import SelectSql.Proofs.Parameters
import SelectSql.Proofs.Edits
import SelectSql.Proofs.Alternatives
import SelectSql.Proofs.Tokens
import SelectSql.Proofs.Formula
import SelectSql.Proofs.Reading
import SelectSql.Proofs.Reading.Phrases
import SelectSql.Proofs.Doc.Nested
import SelectSql.Proofs.Conditions.Atoms
import SelectSql.Proofs.Conditions
import SelectSql.Proofs.Doc.Spread
import SelectSql.Proofs.Escapes
import SelectSql.Proofs.Scanning
import SelectSql.Proofs.Shape
import SelectSql.Proofs.Legible
import SelectSql.Proofs.Literals
import SelectSql.Proofs.Numbering
import SelectSql.Proofs.Nesting
import SelectSql.Proofs.Runs
import SelectSql.Proofs.WellFormed
import SelectSql.Proofs.Definitions
import SelectSql.Proofs.Braces
import SelectSql.Proofs.Tables
import SelectSql.Proofs.Pieces
import SelectSql.Proofs.Placeholders
import SelectSql.Proofs.Keywords
import SelectSql.Proofs.Patterns
import SelectSql.Proofs.Decimal.Rounding
import SelectSql.Proofs.Decimal.Shortest
import SelectSql.Proofs.Json.Numbers
import SelectSql.Proofs.Json.Texts
import SelectSql.Proofs.Documents
import SelectSql.Proofs.RoundTrip
import SelectSql.Proofs.Filters
import SelectSql.Proofs.QuoteRuns
import SelectSql.Proofs.Rows
import SelectSql.Proofs.Collapsing
import SelectSql.Proofs.Passes
import SelectSql.Proofs.Sides
import SelectSql.Proofs.Places
import SelectSql.Proofs.Splicing
import SelectSql.Proofs.Operators
import SelectSql.Proofs.OperatorTokens
import SelectSql.Proofs.JoinConditions
import SelectSql.Proofs.Sequences
import SelectSql.Proofs.OnClauses
import SelectSql.Proofs.EscapeClauses
import SelectSql.Proofs.Clauses
import SelectSql.Proofs.Negation
import SelectSql.Proofs.WhereClauses
import SelectSql.Proofs.Narrowing
import SelectSql.Proofs.HavingChains
import SelectSql.Proofs.Alignment
