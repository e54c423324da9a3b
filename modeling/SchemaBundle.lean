/-
Bundles a schema and the schemas it refers to into one document.
-/
import SchemaBundle.Classifier
import SchemaBundle.Command.Arguments
import SchemaBundle.Command.Failure
import SchemaBundle.Command.Output
import SchemaBundle.Command.Program
import SchemaBundle.Command.Run
import SchemaBundle.Components
import SchemaBundle.Compose
import SchemaBundle.Decimal.Double
import SchemaBundle.Decimal.Reading
import SchemaBundle.Decimal.Shortest
import SchemaBundle.Definitions
import SchemaBundle.Diff.Paths
import SchemaBundle.Diff.Report
import SchemaBundle.Diff.Script
import SchemaBundle.Diff.Search
import SchemaBundle.Embed.Basic
import SchemaBundle.Embed.Context
import SchemaBundle.Embed.Mount
import SchemaBundle.Embed.Sharing
import SchemaBundle.Entries
import SchemaBundle.Error
import SchemaBundle.Files.Format
import SchemaBundle.Files.Loader
import SchemaBundle.Files.Path
import SchemaBundle.Files.Tree
import SchemaBundle.Golden
import SchemaBundle.Identity
import SchemaBundle.Json.Basic
import SchemaBundle.Json.Lexer
import SchemaBundle.Json.Reader
import SchemaBundle.Json.Refs
import SchemaBundle.Json.Writer
import SchemaBundle.Loader
import SchemaBundle.Main
import SchemaBundle.Naming
import SchemaBundle.Pointer
import SchemaBundle.Reference
import SchemaBundle.Schema
import SchemaBundle.Settings.Basic
import SchemaBundle.Settings.Config
import SchemaBundle.Settings.Embedding
import SchemaBundle.Settings.Formats
import SchemaBundle.Settings.Logging
import SchemaBundle.Settings.OutputFormat
import SchemaBundle.Text.Ansi
import SchemaBundle.Text.CaseData
import SchemaBundle.Text.Escaped
import SchemaBundle.Text.HiddenData
import SchemaBundle.Text.Lowercase
import SchemaBundle.Text.Pieces
import SchemaBundle.Toml.Reader
import SchemaBundle.Toml.Table
import SchemaBundle.Url.Basic
import SchemaBundle.Url.Host
import SchemaBundle.Url.Idna
import SchemaBundle.Url.Path
import SchemaBundle.Url.Percent
import SchemaBundle.Url.Punycode
import SchemaBundle.Yaml.Cursor
import SchemaBundle.Yaml.Node
import SchemaBundle.Yaml.Scalar
import SchemaBundle.Yaml.Token
import SchemaBundle.Yaml.Value
import SchemaBundle.Yaml.Writer
import SchemaBundle.Proofs.Entries
import SchemaBundle.Proofs.Json
import SchemaBundle.Proofs.Pointer
import SchemaBundle.Proofs.Text
import SchemaBundle.Proofs.Reference
import SchemaBundle.Proofs.Grammar
import SchemaBundle.Proofs.Identity
import SchemaBundle.Proofs.Mount
import SchemaBundle.Proofs.Documents
import SchemaBundle.Proofs.Naming
import SchemaBundle.Proofs.Sharing
import SchemaBundle.Proofs.Choice
import SchemaBundle.Proofs.Embed.Redirect
import SchemaBundle.Proofs.Embed.Record
import SchemaBundle.Proofs.Embed.Alike
import SchemaBundle.Proofs.Embed.Shared
import SchemaBundle.Proofs.Embed.Run
import SchemaBundle.Proofs.Embed.Frame
import SchemaBundle.Proofs.Embed.Meaning
import SchemaBundle.Proofs.Embed.Loading
import SchemaBundle.Proofs.Embed.Given
import SchemaBundle.Proofs.Embed.Reachable
import SchemaBundle.Proofs.Embed.Closed
import SchemaBundle.Proofs.Embed.Links
import SchemaBundle.Proofs.Embed.Steps
import SchemaBundle.Proofs.Embed.Again
import SchemaBundle.Proofs.Generation
import SchemaBundle.Proofs.Embed.Lockstep
import SchemaBundle.Proofs.Embed.Renaming
import SchemaBundle.Proofs.Embed.Moments
import SchemaBundle.Proofs.Embed.Runs
import SchemaBundle.Proofs.Embed.Traversal
import SchemaBundle.Proofs.Embed.Failure
import SchemaBundle.Proofs.Embed.Success
import SchemaBundle.Proofs.Command
import SchemaBundle.Proofs.Compose.Mappings
import SchemaBundle.Proofs.Compose.Components
import SchemaBundle.Proofs.Compose.Conversion
import SchemaBundle.Proofs.Compose.Template
import SchemaBundle.Proofs.Compose.Checked
import SchemaBundle.Proofs.Compose.Again
import SchemaBundle.Proofs.Compose.Placeholders
import SchemaBundle.Proofs.Files
import SchemaBundle.Proofs.Confinement
import SchemaBundle.Proofs.Delivery
import SchemaBundle.Proofs.Layout
import SchemaBundle.Proofs.Canonical
import SchemaBundle.Proofs.Chains
import SchemaBundle.Proofs.Allocation
import SchemaBundle.Proofs.Differences
import SchemaBundle.Proofs.Repair
import SchemaBundle.Proofs.Decimal.Interval
import SchemaBundle.Proofs.Decimal.Text
import SchemaBundle.Proofs.Verdict
