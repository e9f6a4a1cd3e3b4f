import DocHarvest.Bytes
import DocHarvest.Bytes.Base64
import DocHarvest.Bytes.Utf8
import DocHarvest.Catalog
import DocHarvest.Catalog.Po
import DocHarvest.Cause
import DocHarvest.Cli.Flag
import DocHarvest.Cli.Footprint
import DocHarvest.Cli.Invocation
import DocHarvest.Cli.Usage
import DocHarvest.Config.File
import DocHarvest.Config.Lookup
import DocHarvest.Config.Timestamp
import DocHarvest.Config.Value
import DocHarvest.Decimal.Double
import DocHarvest.Decimal.Numeral
import DocHarvest.Environment
import DocHarvest.Exporter
import DocHarvest.Files.Fault
import DocHarvest.Files.Path
import DocHarvest.Files.Tree
import DocHarvest.Json
import DocHarvest.Launch
import DocHarvest.Main
import DocHarvest.Outputs
import DocHarvest.Program
import DocHarvest.Proofs.Bytes.Encoding
import DocHarvest.Proofs.Bytes.Lines
import DocHarvest.Proofs.Catalog.Grouping
import DocHarvest.Proofs.Catalog.Reader
import DocHarvest.Proofs.Catalog.RoundTrip
import DocHarvest.Proofs.Files.Places
import DocHarvest.Proofs.Files.Walks
import DocHarvest.Proofs.Outputs.Contents
import DocHarvest.Proofs.Run.Exports
import DocHarvest.Proofs.Run.Extraction
import DocHarvest.Proofs.Run.Success
import DocHarvest.Proofs.Source.Concatenation
import DocHarvest.Proofs.Source.Continuations
import DocHarvest.Proofs.Source.Cuts
import DocHarvest.Proofs.Source.DocLineEnds
import DocHarvest.Proofs.Source.Elements
import DocHarvest.Proofs.Source.Failure
import DocHarvest.Proofs.Source.Grammar
import DocHarvest.Proofs.Source.LineEnds
import DocHarvest.Proofs.Source.Lines
import DocHarvest.Proofs.Source.Literals
import DocHarvest.Proofs.Source.Recognition
import DocHarvest.Proofs.Source.Scans
import DocHarvest.Relay
import DocHarvest.Request
import DocHarvest.Run
import DocHarvest.Settings
import DocHarvest.Shell.Arithmetic
import DocHarvest.Shell.Builtin
import DocHarvest.Shell.Command
import DocHarvest.Shell.Execution
import DocHarvest.Shell.Expansion
import DocHarvest.Shell.Pattern
import DocHarvest.Shell.Printing
import DocHarvest.Shell.Script
import DocHarvest.Shell.State
import DocHarvest.Shell.Test
import DocHarvest.Shell.Token
import DocHarvest.Shell.Utility
import DocHarvest.Source.DocString
import DocHarvest.Source.Scanner
import DocHarvest.Source.Token
import DocHarvest.Template
import DocHarvest.Text.Printable
import DocHarvest.Text.Quoted
import DocHarvest.Writer
import DocHarvest.Yaml.Char
import DocHarvest.Yaml.Cursor
import DocHarvest.Yaml.Document
import DocHarvest.Yaml.Node
import DocHarvest.Yaml.Plain
import DocHarvest.Yaml.Scalar
import DocHarvest.Yaml.Supply
import DocHarvest.Yaml.Token
import DocHarvest.Yaml.Writer
import DocHarvest.Proofs.Files.Growth
import DocHarvest.Proofs.Files.Layout
import DocHarvest.Proofs.Outputs.Histories
import DocHarvest.Proofs.Outputs.Progress
import DocHarvest.Proofs.Run.Abort
import DocHarvest.Proofs.Run.Sparing
import DocHarvest.Proofs.Relay.Stream
import DocHarvest.Proofs.Run.Determined
import DocHarvest.Proofs.Run.Lockstep
import DocHarvest.Proofs.Run.Repetition
import DocHarvest.Proofs.Yaml.Reading
import DocHarvest.Proofs.Yaml.Words
import DocHarvest.Proofs.Yaml.Quotes
import DocHarvest.Proofs.Yaml.Blocks
import DocHarvest.Proofs.Yaml.Fetching
import DocHarvest.Proofs.Yaml.Values
import DocHarvest.Proofs.Yaml.Sections
import DocHarvest.Proofs.Yaml.Decoding
import DocHarvest.Proofs.Yaml.Documents
import DocHarvest.Proofs.Yaml.Refusals
import DocHarvest.Proofs.Yaml.RoundTrip
import DocHarvest.Proofs.Config.RoundTrip
import DocHarvest.Proofs.Source.Documentation
import DocHarvest.Proofs.Source.Wrapping
import DocHarvest.Proofs.Catalog.DistinctEntries
import DocHarvest.Proofs.Bytes.Ascii
import DocHarvest.Proofs.Exporter.Protocol
import DocHarvest.Proofs.Source.Brackets
import DocHarvest.Proofs.Relay.CachePattern
import DocHarvest.Proofs.Relay.Validity
import DocHarvest.Proofs.Run.Refusals
import DocHarvest.Proofs.Exporter.Expression
import DocHarvest.Proofs.Config.Precedence
import DocHarvest.Proofs.Source.Termination
