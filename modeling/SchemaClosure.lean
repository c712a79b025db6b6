import SchemaClosure.Calendar.Instant
import SchemaClosure.CommandLine.Footprint
import SchemaClosure.CommandLine.Invocation
import SchemaClosure.CommandLine.Program
import SchemaClosure.CommandLine.Similarity
import SchemaClosure.CommandLine.Usage
import SchemaClosure.Discovery.Files
import SchemaClosure.Discovery.NaturalOrder
import SchemaClosure.Document.Fault
import SchemaClosure.Document.Scalar
import SchemaClosure.Document.Value
import SchemaClosure.Files.FileSystem
import SchemaClosure.Files.Path
import SchemaClosure.Inspect.Listing
import SchemaClosure.Json.Text
import SchemaClosure.Main
import SchemaClosure.Number.Binary64
import SchemaClosure.Number.Numeral
import SchemaClosure.Number.Shortest
import SchemaClosure.Reach.Prune
import SchemaClosure.Reach.Request
import SchemaClosure.Reach.Walk
import SchemaClosure.Run.Journal
import SchemaClosure.Run.Project
import SchemaClosure.Run.Prune
import SchemaClosure.Schema.Basic
import SchemaClosure.Schema.Export
import SchemaClosure.Schema.Files
import SchemaClosure.Schema.Format
import SchemaClosure.Schema.LoadError
import SchemaClosure.Schema.Loading
import SchemaClosure.Schema.Resolution
import SchemaClosure.Settings.Configuration
import SchemaClosure.Settings.Error
import SchemaClosure.Settings.Scaffold
import SchemaClosure.Text.Base64
import SchemaClosure.Text.Class
import SchemaClosure.Text.CodePoint
import SchemaClosure.Text.Lower
import SchemaClosure.Text.Pieces
import SchemaClosure.Text.Quoted
import SchemaClosure.Text.Table.Case
import SchemaClosure.Text.Table.Digit
import SchemaClosure.Text.Table.Printable
import SchemaClosure.Text.Table.Word
import SchemaClosure.Text.Unstyled
import SchemaClosure.Wrapping.Splice
import SchemaClosure.Wrapping.Template
import SchemaClosure.Yaml.Cursor
import SchemaClosure.Yaml.Grammar
import SchemaClosure.Yaml.Graph
import SchemaClosure.Yaml.Reading
import SchemaClosure.Yaml.Scalar
import SchemaClosure.Yaml.Sharing
import SchemaClosure.Yaml.Sheet
import SchemaClosure.Yaml.Style
import SchemaClosure.Yaml.Tag
import SchemaClosure.Yaml.Text
import SchemaClosure.Yaml.Token.Basic
import SchemaClosure.Yaml.Token.Lexer
import SchemaClosure.Yaml.Token.Property
import SchemaClosure.Yaml.Token.Scalar
import SchemaClosure.Yaml.Value
import SchemaClosure.Proofs.Schema.Address
import SchemaClosure.Proofs.Reach.Names
import SchemaClosure.Proofs.Schema.Types
import SchemaClosure.Proofs.Reach.Walk
import SchemaClosure.Proofs.Reach.Bounded
import SchemaClosure.Proofs.Reach.Closure
import SchemaClosure.Proofs.Reach.Prune
import SchemaClosure.Proofs.Reach.Composition
import SchemaClosure.Proofs.Schema.Loading
import SchemaClosure.Proofs.Reach.Dangling
import SchemaClosure.Proofs.Schema.Reload
import SchemaClosure.Proofs.Reach.Reload
import SchemaClosure.Proofs.Reach.Survivors
import SchemaClosure.Proofs.Reach.Recursion
import SchemaClosure.Proofs.Reach.Merging
import SchemaClosure.Proofs.Reach.Exactness
import SchemaClosure.Proofs.Document.Keys
import SchemaClosure.Proofs.Schema.FullNames
import SchemaClosure.Proofs.Schema.RoundTrip
import SchemaClosure.Proofs.Schema.Layout
import SchemaClosure.Proofs.Schema.Declared
import SchemaClosure.Proofs.Schema.Statements
import SchemaClosure.Proofs.Schema.DeclaredTypes
import SchemaClosure.Proofs.Schema.Entries
import SchemaClosure.Proofs.Schema.Faithful
import SchemaClosure.Proofs.Schema.Order
import SchemaClosure.Proofs.Reach.Requested
import SchemaClosure.Proofs.Reach.Resuming
import SchemaClosure.Proofs.Schema.Reporting
import SchemaClosure.Proofs.Discovery.NaturalOrder
import SchemaClosure.Proofs.Discovery.Listing
import SchemaClosure.Proofs.Schema.Scopes
import SchemaClosure.Proofs.Files.Looking
import SchemaClosure.Proofs.Text.CodePoint
import SchemaClosure.Proofs.Files.Writing
import SchemaClosure.Proofs.Schema.Ascii
import SchemaClosure.Proofs.Run.Pruning
import SchemaClosure.Proofs.Schema.Writing
import SchemaClosure.Proofs.Files.Spelling
import SchemaClosure.Proofs.CommandLine.Arguments
import SchemaClosure.Proofs.Settings.Reporting
import SchemaClosure.Proofs.Run.Reporting
import SchemaClosure.Proofs.Document.Equality
import SchemaClosure.Proofs.CommandLine.Reporting
import SchemaClosure.Proofs.Number.Rounding
import SchemaClosure.Proofs.Number.Shortest
import SchemaClosure.Proofs.Number.Numeral
import SchemaClosure.Proofs.Json.Literal
import SchemaClosure.Proofs.Json.Tree
import SchemaClosure.Proofs.Yaml.Cursor
import SchemaClosure.Proofs.Yaml.Words
import SchemaClosure.Proofs.Yaml.Quoted
import SchemaClosure.Proofs.Yaml.Lexing
import SchemaClosure.Proofs.Yaml.Scanning
import SchemaClosure.Proofs.Yaml.Spelling
import SchemaClosure.Proofs.Yaml.Reading
import SchemaClosure.Proofs.Yaml.Value
import SchemaClosure.Proofs.Yaml.Numbers
import SchemaClosure.Proofs.Json.Words
import SchemaClosure.Proofs.Json.Rereading
import SchemaClosure.Proofs.Schema.MapOptions
import SchemaClosure.Proofs.Schema.JsonText
import SchemaClosure.Proofs.Schema.TypeOrder
import SchemaClosure.Proofs.Number.Whole
import SchemaClosure.Proofs.Discovery.Numbers
import SchemaClosure.Proofs.Text.Replacing
import SchemaClosure.Proofs.Wrapping.Splicing
import SchemaClosure.Proofs.Wrapping.LineEnds
import SchemaClosure.Proofs.Wrapping.Finding
import SchemaClosure.Proofs.Inspect.Preorder
import SchemaClosure.Proofs.Inspect.Blocks
import SchemaClosure.Proofs.Inspect.Styling
import SchemaClosure.Proofs.Settings.Settling
import SchemaClosure.Proofs.Settings.Acceptance
