import LayeredConfig.CommandLine.Arguments
import LayeredConfig.CommandLine.Command
import LayeredConfig.CommandLine.Run
import LayeredConfig.Context.Basic
import LayeredConfig.Context.Getters
import LayeredConfig.Context.Layer
import LayeredConfig.Context.Override
import LayeredConfig.Discovery.Active
import LayeredConfig.Discovery.Select
import LayeredConfig.Discovery.Slot
import LayeredConfig.Document.Basic
import LayeredConfig.Document.Graph
import LayeredConfig.Document.Scalar
import LayeredConfig.Environment
import LayeredConfig.Error
import LayeredConfig.Fault
import LayeredConfig.FilePath
import LayeredConfig.FileSystem.Basic
import LayeredConfig.FileSystem.Disk
import LayeredConfig.Grammar.Basic
import LayeredConfig.Grammar.Detect
import LayeredConfig.Grammar.Parse
import LayeredConfig.Grammar.Refusal
import LayeredConfig.Journal
import LayeredConfig.Json.Basic
import LayeredConfig.Json.Print
import LayeredConfig.Json.Read
import LayeredConfig.Json.Text
import LayeredConfig.Leaf
import LayeredConfig.Load
import LayeredConfig.Main
import LayeredConfig.Number.Binary64
import LayeredConfig.Number.Decimal
import LayeredConfig.Number.Integer
import LayeredConfig.Number.Shortest
import LayeredConfig.Options
import LayeredConfig.OrderedMap
import LayeredConfig.Path.Basic
import LayeredConfig.Path.Text
import LayeredConfig.Placeholder.Braces
import LayeredConfig.Placeholder.Resolve
import LayeredConfig.Starter
import LayeredConfig.Text.Base64
import LayeredConfig.Text.Basic
import LayeredConfig.Text.Blank
import LayeredConfig.Text.Cased
import LayeredConfig.Text.Digit
import LayeredConfig.Text.Encoding
import LayeredConfig.Text.Lines
import LayeredConfig.Text.Lowercase
import LayeredConfig.Text.Printable
import LayeredConfig.Text.Quoted
import LayeredConfig.Text.Ranges
import LayeredConfig.Text.Scan
import LayeredConfig.Time.Duration
import LayeredConfig.Time.Moment
import LayeredConfig.Time.Read
import LayeredConfig.Toml.Basic
import LayeredConfig.Toml.Moment
import LayeredConfig.Toml.Number
import LayeredConfig.Toml.Read
import LayeredConfig.Toml.Table
import LayeredConfig.Toml.Text
import LayeredConfig.Tree.Basic
import LayeredConfig.Tree.Flatten
import LayeredConfig.Tree.Nested
import LayeredConfig.Tree.Shape
import LayeredConfig.Yaml.Basic
import LayeredConfig.Yaml.Block
import LayeredConfig.Yaml.Cursor
import LayeredConfig.Yaml.Lexer
import LayeredConfig.Yaml.Name
import LayeredConfig.Yaml.Node
import LayeredConfig.Yaml.Plain
import LayeredConfig.Yaml.Quoted
import LayeredConfig.Yaml.Resolve
import LayeredConfig.Yaml.Scalar
import LayeredConfig.Yaml.Token
import LayeredConfig.Yaml.Value
import LayeredConfig.Proofs.Placeholder.Meaning
import LayeredConfig.Proofs.OrderedMap
import LayeredConfig.Proofs.Tree.Shape
import LayeredConfig.Proofs.Outcome
import LayeredConfig.Proofs.Tree.Leaves
import LayeredConfig.Proofs.Tree.Nested
import LayeredConfig.Proofs.Load.Sound
import LayeredConfig.Proofs.Context.Overridden
import LayeredConfig.Proofs.Load.Directory
import LayeredConfig.Proofs.Context.Provenance
import LayeredConfig.Proofs.Number.Digits
import LayeredConfig.Proofs.Text.Scan
import LayeredConfig.Proofs.Path.Text
import LayeredConfig.Proofs.Context.Keys
import LayeredConfig.Proofs.Tree.Occurrences
import LayeredConfig.Proofs.Failures
import LayeredConfig.Proofs.Tree.Faults
import LayeredConfig.Proofs.Number.Integer
import LayeredConfig.Proofs.Number.Decimal
import LayeredConfig.Proofs.Json.Faults
import LayeredConfig.Proofs.Toml.Faults
import LayeredConfig.Proofs.Yaml.Tokens
import LayeredConfig.Proofs.Load.Faults
import LayeredConfig.Proofs.Yaml.Nodes
import LayeredConfig.Proofs.Yaml.Faults
import LayeredConfig.Proofs.Json.String
import LayeredConfig.Proofs.Json.Leaf
import LayeredConfig.Proofs.Json.RoundTrip
import LayeredConfig.Proofs.Tree.Proper
import LayeredConfig.Proofs.Tree.Filled
import LayeredConfig.Proofs.Tree.Gaps
import LayeredConfig.Proofs.Tree.Rebuild
import LayeredConfig.Proofs.Context.Reload
import LayeredConfig.Proofs.Context.Document
import LayeredConfig.Proofs.Load.Unused
import LayeredConfig.Proofs.Yaml.Merge
import LayeredConfig.Proofs.Yaml.Rewriting
import LayeredConfig.Proofs.Yaml.Screening
import LayeredConfig.Proofs.Yaml.Turns
import LayeredConfig.Proofs.Placeholder.Lookups
import LayeredConfig.Proofs.Load.Literal
import LayeredConfig.Proofs.Discovery.Select
import LayeredConfig.Proofs.Json.Syntax
import LayeredConfig.Proofs.Grammar.Detect
import LayeredConfig.Proofs.Context.Compatible
import LayeredConfig.Proofs.Tree.Verdict
import LayeredConfig.Proofs.Load.Reordered
import LayeredConfig.Proofs.Text.Encoding
import LayeredConfig.Proofs.Load.Written
import LayeredConfig.Proofs.Journal
import LayeredConfig.Proofs.Load.Events
import LayeredConfig.Proofs.Path.Grammar
import LayeredConfig.Proofs.Context.Merging
import LayeredConfig.Proofs.Context.Defaults
import LayeredConfig.Proofs.Placeholder.Modes
import LayeredConfig.Proofs.Tree.Named
import LayeredConfig.Proofs.Grammar.Unambiguous
import LayeredConfig.Proofs.Tree.Cycles
import LayeredConfig.Proofs.Json.Meaning
import LayeredConfig.Proofs.Json.Duplicates
import LayeredConfig.Proofs.Json.Trees
import LayeredConfig.Proofs.Placeholder.Locality
import LayeredConfig.Proofs.Discovery.Naming
import LayeredConfig.Proofs.Discovery.Requested
import LayeredConfig.Proofs.Context.Overrides
import LayeredConfig.Proofs.Placeholder.Matching
import LayeredConfig.Proofs.Load.Dispatch
import LayeredConfig.Proofs.Context.Coercions
