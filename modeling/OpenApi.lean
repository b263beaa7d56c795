import OpenApi.CommandLine.Job
import OpenApi.CommandLine.Run
import OpenApi.CommandLine.Usage
import OpenApi.CommandLine.Word
import OpenApi.Compile
import OpenApi.Compile.Record
import OpenApi.Compile.Scope
import OpenApi.Decimal.Binary
import OpenApi.Decimal.Layout
import OpenApi.Decimal.Numeral
import OpenApi.Decimal.Shortest
import OpenApi.Dialect
import OpenApi.Dialect.TypedDict
import OpenApi.Dialect.Zod
import OpenApi.Disk
import OpenApi.Document
import OpenApi.Document.Selection
import OpenApi.Emission
import OpenApi.Fault
import OpenApi.FilePath
import OpenApi.Graph.Order
import OpenApi.Graph.Reach
import OpenApi.Identifier
import OpenApi.Json.Printer
import OpenApi.Json.Reader
import OpenApi.Keyed
import OpenApi.Loading
import OpenApi.Location
import OpenApi.Main
import OpenApi.NameSet
import OpenApi.Notice
import OpenApi.Proofs.CommandLine.Output
import OpenApi.Proofs.Compile.Aliases
import OpenApi.Proofs.Compile.Annotations
import OpenApi.Proofs.Compile.Cases
import OpenApi.Proofs.Compile.ClosedText
import OpenApi.Proofs.Compile.Composition
import OpenApi.Proofs.Compile.Descent
import OpenApi.Proofs.Compile.Flatten
import OpenApi.Proofs.Compile.Hints
import OpenApi.Proofs.Compile.Independence
import OpenApi.Proofs.Compile.Intersection
import OpenApi.Proofs.Compile.Leaves
import OpenApi.Proofs.Compile.Marks
import OpenApi.Proofs.Compile.Null
import OpenApi.Proofs.Compile.Parts
import OpenApi.Proofs.Compile.Presence
import OpenApi.Proofs.Compile.Referring
import OpenApi.Proofs.Compile.Reported
import OpenApi.Proofs.Compile.Spliced
import OpenApi.Proofs.Compile.Synthesis
import OpenApi.Proofs.Compile.Uses
import OpenApi.Proofs.Disk
import OpenApi.Proofs.Document.Dependencies
import OpenApi.Proofs.Document.Narrowed
import OpenApi.Proofs.Document.Order
import OpenApi.Proofs.Document.Resolution
import OpenApi.Proofs.Document.Selection
import OpenApi.Proofs.Emission.Bases
import OpenApi.Proofs.Emission.Blocks
import OpenApi.Proofs.Emission.ClassKeys
import OpenApi.Proofs.Emission.ClassNames
import OpenApi.Proofs.Emission.Closed
import OpenApi.Proofs.Emission.Copying
import OpenApi.Proofs.Emission.Faults
import OpenApi.Proofs.Emission.Identifiers
import OpenApi.Proofs.Emission.Imports
import OpenApi.Proofs.Emission.Numbering
import OpenApi.Proofs.Emission.Routes
import OpenApi.Proofs.Emission.Shadowing
import OpenApi.Proofs.Enumeration.Annotations
import OpenApi.Proofs.Enumeration.Schemas
import OpenApi.Proofs.Graph.Order
import OpenApi.Proofs.Identifier.Counting
import OpenApi.Proofs.Json.Scalars
import OpenApi.Proofs.Json.Written
import OpenApi.Proofs.Keyed.Merging
import OpenApi.Proofs.Loading
import OpenApi.Proofs.Reference
import OpenApi.Proofs.Resolver
import OpenApi.Proofs.Schema.References
import OpenApi.Proofs.Source.BlockComments
import OpenApi.Proofs.Source.Classes
import OpenApi.Proofs.Text.Words
import OpenApi.Proofs.Validation
import OpenApi.Proofs.Version
import OpenApi.Reference
import OpenApi.Resolver
import OpenApi.Schema
import OpenApi.Schema.Reader
import OpenApi.Settings
import OpenApi.Source.Comment
import OpenApi.Source.TypedDict
import OpenApi.Source.Zod
import OpenApi.Target
import OpenApi.Text.Blank
import OpenApi.Text.Letter
import OpenApi.Text.Numeral
import OpenApi.Text.Printable
import OpenApi.Text.Quoted
import OpenApi.Text.Ranges
import OpenApi.Text.Utf8
import OpenApi.Text.Word
import OpenApi.Traced
import OpenApi.TypeExpr
import OpenApi.Validation
import OpenApi.Value
import OpenApi.Value.Key
import OpenApi.Value.Literal
import OpenApi.Value.Writable
import OpenApi.Version
