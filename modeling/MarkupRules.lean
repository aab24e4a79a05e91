import MarkupRules.CommandLine.Options
import MarkupRules.CommandLine.Run
import MarkupRules.Compiler
import MarkupRules.Decimal.Binary
import MarkupRules.Decimal.Notation
import MarkupRules.Decimal.Reader
import MarkupRules.Decimal.Shortest
import MarkupRules.Dialect
import MarkupRules.Discovery
import MarkupRules.Json.Basic
import MarkupRules.Json.Printer
import MarkupRules.Json.Reader
import MarkupRules.Main
import MarkupRules.Markup.Character
import MarkupRules.Markup.Document
import MarkupRules.Markup.Edit
import MarkupRules.Markup.Fault
import MarkupRules.Markup.Name
import MarkupRules.Markup.Prolog
import MarkupRules.Markup.Reader
import MarkupRules.Markup.Scan
import MarkupRules.Markup.Traversal
import MarkupRules.Markup.Tree
import MarkupRules.Markup.Writer
import MarkupRules.NamedList
import MarkupRules.Parameters
import MarkupRules.Program.Basic
import MarkupRules.Program.Reader
import MarkupRules.Program.Writer
import MarkupRules.Proofs.Decimal.Positions
import MarkupRules.Proofs.Markup.Built
import MarkupRules.Proofs.Markup.Links
import MarkupRules.Proofs.Markup.Pass
import MarkupRules.Proofs.Markup.Planted
import MarkupRules.Proofs.Markup.Preorder
import MarkupRules.Proofs.Markup.Rooted
import MarkupRules.Proofs.Program.Reading
import MarkupRules.Proofs.Query.Axes
import MarkupRules.Proofs.Query.Calls
import MarkupRules.Proofs.Query.Compiled
import MarkupRules.Proofs.Query.Depth
import MarkupRules.Proofs.Query.DocumentOrder
import MarkupRules.Proofs.Query.Grammar
import MarkupRules.Proofs.Query.Lexemes
import MarkupRules.Proofs.Query.NodeSets
import MarkupRules.Proofs.Query.Parsing.Accepted
import MarkupRules.Proofs.Query.Parsing.Complete
import MarkupRules.Proofs.Query.Parsing.Sound
import MarkupRules.Proofs.Query.Parts
import MarkupRules.Proofs.Query.Patterns
import MarkupRules.Proofs.Query.Places
import MarkupRules.Proofs.Schema.Agreement
import MarkupRules.Proofs.Steps
import MarkupRules.Proofs.Validation.Firing
import MarkupRules.Proofs.Validation.Locations
import MarkupRules.Proofs.Validation.Matching
import MarkupRules.Proofs.Validation.Phases
import MarkupRules.Proofs.Validation.Stack
import MarkupRules.Query.Convert
import MarkupRules.Query.Error
import MarkupRules.Query.Eval
import MarkupRules.Query.Expr
import MarkupRules.Query.Function
import MarkupRules.Query.Index
import MarkupRules.Query.Lexer
import MarkupRules.Query.Library
import MarkupRules.Query.Parser
import MarkupRules.Query.Pattern
import MarkupRules.Query.Token
import MarkupRules.Query.Value
import MarkupRules.Query.Walk
import MarkupRules.Scalar
import MarkupRules.Schema.Catalogue
import MarkupRules.Schema.Compilation
import MarkupRules.Schema.Expansion
import MarkupRules.Schema.Inclusion
import MarkupRules.Schema.Language
import MarkupRules.Schema.Phase
import MarkupRules.Schema.Pipeline
import MarkupRules.Schema.Stage
import MarkupRules.Schema.StageError
import MarkupRules.Schema.Substitution
import MarkupRules.Schema.Vocabulary
import MarkupRules.Settings
import MarkupRules.SetupError
import MarkupRules.Source
import MarkupRules.Storage.Files
import MarkupRules.Storage.Path
import MarkupRules.Storage.Search
import MarkupRules.Storage.Wildcard
import MarkupRules.Text.Blank
import MarkupRules.Text.Case
import MarkupRules.Text.CaseTable
import MarkupRules.Text.Letter
import MarkupRules.Text.LetterTable
import MarkupRules.Text.PrintableTable
import MarkupRules.Text.Quoted
import MarkupRules.Text.Ranges
import MarkupRules.Text.Search
import MarkupRules.Toml.Basic
import MarkupRules.Toml.Layout
import MarkupRules.Toml.Moment
import MarkupRules.Toml.Number
import MarkupRules.Toml.Quoted
import MarkupRules.Toml.Reader
import MarkupRules.Toml.Table
import MarkupRules.Validation.Cache
import MarkupRules.Validation.Location
import MarkupRules.Validation.Report
import MarkupRules.Validation.ReportDocument
import MarkupRules.Validation.Recording
import MarkupRules.Validation.ReportJson
import MarkupRules.Validation.Run
import MarkupRules.Proofs.Markup.Content
import MarkupRules.Proofs.Markup.RoundTrip
import MarkupRules.Proofs.Markup.Renumbered
import MarkupRules.Proofs.Markup.Subtrees
import MarkupRules.Proofs.Query.Images
import MarkupRules.Proofs.Query.Renumbered
import MarkupRules.Proofs.Schema.Chains
import MarkupRules.Proofs.Schema.Cycles
import MarkupRules.Proofs.Schema.Repetitions
import MarkupRules.Proofs.Validation.Renumbered
import MarkupRules.Proofs.Validation.Unambiguous
import MarkupRules.Proofs.Markup.Assembled
import MarkupRules.Proofs.Markup.Declared
import MarkupRules.Proofs.Markup.Settled
import MarkupRules.Proofs.Schema.Expanded
import MarkupRules.Proofs.Schema.Included
import MarkupRules.Proofs.Schema.References
import MarkupRules.Proofs.Query.PlainPaths
import MarkupRules.Proofs.Validation.Caching
import MarkupRules.Proofs.Schema.Catalogues
import MarkupRules.Proofs.Validation.Mirrored
import MarkupRules.Proofs.Query.Comparisons
import MarkupRules.Proofs.Query.Spacing
import MarkupRules.Proofs.Query.Substrings
import MarkupRules.Proofs.Query.Intervals
import MarkupRules.Proofs.Query.Contexts
import MarkupRules.Proofs.Query.Unions
import MarkupRules.Proofs.Schema.Substitution
import MarkupRules.Proofs.Schema.RequestedPhases
import MarkupRules.Proofs.Schema.Pipelines
import MarkupRules.Proofs.Merging
import MarkupRules.Proofs.Setups
import MarkupRules.Proofs.Markup.Copies
import MarkupRules.Proofs.Markup.Walks
