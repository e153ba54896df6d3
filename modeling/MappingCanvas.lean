import MappingCanvas.Archive.Record
import MappingCanvas.Archive.Repository
import MappingCanvas.Archive.Store
import MappingCanvas.Archive.Version
import MappingCanvas.Canvas.Basic
import MappingCanvas.Canvas.Document
import MappingCanvas.Canvas.Layout
import MappingCanvas.Canvas.Node
import MappingCanvas.Canvas.Operation
import MappingCanvas.Canvas.Payload
import MappingCanvas.Compile.Export
import MappingCanvas.Compile.Plan
import MappingCanvas.Compile.Resolve
import MappingCanvas.Compile.Warning
import MappingCanvas.Console.Arguments
import MappingCanvas.Console.Elapsed
import MappingCanvas.Console.Program
import MappingCanvas.Decimal.Shortest
import MappingCanvas.Files
import MappingCanvas.Instant
import MappingCanvas.Json.Basic
import MappingCanvas.Json.Decode
import MappingCanvas.Json.Number
import MappingCanvas.Json.Reader
import MappingCanvas.Json.Value
import MappingCanvas.Json.Writer
import MappingCanvas.Main
import MappingCanvas.Ordered
import MappingCanvas.Restore.FromRules
import MappingCanvas.Restore.Staging
import MappingCanvas.Rule.Artifact
import MappingCanvas.Rule.Basic
import MappingCanvas.Rule.Document
import MappingCanvas.Rule.Varint
import MappingCanvas.Schema.Document
import MappingCanvas.Schema.Field
import MappingCanvas.Schema.Grouping
import MappingCanvas.Schema.Path
import MappingCanvas.Schema.Validation
import MappingCanvas.Settings
import MappingCanvas.Snapshot.Basic
import MappingCanvas.Snapshot.Document
import MappingCanvas.Suggestion.Basic
import MappingCanvas.Suggestion.Condition
import MappingCanvas.Suggestion.Record
import MappingCanvas.Suggestion.Request
import MappingCanvas.Suggestion.Sketch
import MappingCanvas.Text.Blank
import MappingCanvas.Text.Escaped
import MappingCanvas.Text.Numeral
import MappingCanvas.Text.Quoted
import MappingCanvas.Proofs.Result
import MappingCanvas.Proofs.Canvas.Index
import MappingCanvas.Proofs.Compile.Walk
import MappingCanvas.Proofs.Compile.Arrivals
import MappingCanvas.Proofs.Compile.Depth
import MappingCanvas.Proofs.Compile.Cycle
import MappingCanvas.Proofs.Compile.Schedule
import MappingCanvas.Proofs.Compile.Plan
import MappingCanvas.Proofs.Compile.Tiers
import MappingCanvas.Proofs.Compile.Endless
import MappingCanvas.Proofs.Canvas.Parameters
import MappingCanvas.Proofs.Json.Ensures
import MappingCanvas.Proofs.Canvas.Decoded
import MappingCanvas.Proofs.Schema.Grouping
import MappingCanvas.Proofs.Compile.Agreement
import MappingCanvas.Proofs.Compile.Noninterference
import MappingCanvas.Proofs.Ordered
import MappingCanvas.Proofs.Restore.Category
import MappingCanvas.Proofs.Restore.Export
import MappingCanvas.Proofs.Restore.RoundTrip
import MappingCanvas.Proofs.Compile.Dangling
import MappingCanvas.Proofs.Json.Record
import MappingCanvas.Proofs.Json.Reads
import MappingCanvas.Proofs.Schema.Document
import MappingCanvas.Proofs.Canvas.Payloads
import MappingCanvas.Proofs.Canvas.Layouts
import MappingCanvas.Proofs.Json.Magnitude
import MappingCanvas.Proofs.Json.Range
import MappingCanvas.Proofs.Canvas.Current
import MappingCanvas.Proofs.Compile.Justified
import MappingCanvas.Proofs.Compile.Accounted
import MappingCanvas.Proofs.Compile.Scan
import MappingCanvas.Proofs.Compile.Partition
import MappingCanvas.Proofs.Restore.Drawing
import MappingCanvas.Proofs.Restore.Recompile
import MappingCanvas.Proofs.Restore.SharedFields
import MappingCanvas.Proofs.Text.Numeral
import MappingCanvas.Proofs.Text.Stripped
import MappingCanvas.Proofs.Archive.Version
import MappingCanvas.Proofs.Archive.Memory
import MappingCanvas.Proofs.Archive.Changes
import MappingCanvas.Proofs.Archive.Runs
import MappingCanvas.Proofs.Archive.Activity
import MappingCanvas.Proofs.Archive.Numbering
import MappingCanvas.Proofs.Archive.Succession
import MappingCanvas.Proofs.Archive.Latest
import MappingCanvas.Proofs.Archive.Failures
import MappingCanvas.Proofs.Archive.Interruptions
import MappingCanvas.Proofs.Archive.Isolation
import MappingCanvas.Proofs.Archive.Renaming
import MappingCanvas.Proofs.Archive.Names
import MappingCanvas.Proofs.Rule.Varint
import MappingCanvas.Proofs.Rule.Document
import MappingCanvas.Proofs.Rule.Artifact
import MappingCanvas.Proofs.Snapshot.Document
import MappingCanvas.Proofs.Firsts
import MappingCanvas.Proofs.Suggestion.Sketch
import MappingCanvas.Proofs.Suggestion.Connections
import MappingCanvas.Proofs.Suggestion.Rules
import MappingCanvas.Proofs.Canvas.Changes
import MappingCanvas.Proofs.Restore.Expansion
import MappingCanvas.Proofs.Restore.Outcome
import MappingCanvas.Proofs.Suggestion.Order
import MappingCanvas.Proofs.Compile.Layered
import MappingCanvas.Proofs.Suggestion.WellFormed
import MappingCanvas.Proofs.Suggestion.Condition
import MappingCanvas.Proofs.Schema.Shape
import MappingCanvas.Proofs.Schema.Occurrence
import MappingCanvas.Proofs.Schema.Handle
import MappingCanvas.Proofs.Canvas.Paths
import MappingCanvas.Proofs.Canvas.Collections
import MappingCanvas.Proofs.Suggestion.Record
import MappingCanvas.Proofs.Suggestion.Answer
