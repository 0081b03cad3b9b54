import Lineage.Catalog
import Lineage.Column.Batch
import Lineage.Column.Cast
import Lineage.Column.Grid
import Lineage.Column.Type
import Lineage.Command.Arguments
import Lineage.Command.Basic
import Lineage.Command.Help
import Lineage.Command.Run
import Lineage.Csv.Guess
import Lineage.Csv.Record
import Lineage.Csv.Table
import Lineage.Dict
import Lineage.Digest
import Lineage.Digest.Blake3
import Lineage.Document.Basic
import Lineage.Document.Graph
import Lineage.Document.Reader
import Lineage.Document.Types
import Lineage.Engine.Basic
import Lineage.External
import Lineage.Fault
import Lineage.Graph.Basic
import Lineage.Graph.Node
import Lineage.Json.Basic
import Lineage.Json.Lexeme
import Lineage.Json.Reader
import Lineage.Json.Record
import Lineage.Json.Writer
import Lineage.Main
import Lineage.Number.Binary64
import Lineage.Number.Reader
import Lineage.Number.Shortest
import Lineage.Number.Word
import Lineage.Path.Basic
import Lineage.Path.Dotted
import Lineage.Path.Json
import Lineage.Query.Execution
import Lineage.Query.Records
import Lineage.Query.Syntax
import Lineage.Random.Choice
import Lineage.Random.Generator
import Lineage.Schema.Basic
import Lineage.Schema.Outline
import Lineage.Schema.Propagation
import Lineage.Settings
import Lineage.Stream.Basic
import Lineage.Stream.Operation
import Lineage.Text.Blank
import Lineage.Text.Digit
import Lineage.Text.Glyph
import Lineage.Text.Quote
import Lineage.Text.Width
import Lineage.Time.Calendar
import Lineage.Time.Reader
import Lineage.Transform.Basic
import Lineage.Transform.Compose
import Lineage.Transform.Json
import Lineage.Ty.Address
import Lineage.Ty.Basic
import Lineage.Ty.Columns
import Lineage.Ty.Item
import Lineage.Ty.Json
import Lineage.Ty.Projection
import Lineage.Ty.References
import Lineage.Ty.Render
import Lineage.Ty.Selection
import Lineage.Yaml.Node
import Lineage.Yaml.Outline
import Lineage.Yaml.Scalar
import Lineage.Yaml.Tag
import Lineage.Yaml.Text
import Lineage.Yaml.Token
import Lineage.Yaml.Value
import Lineage.Proofs.Number.Binary64
import Lineage.Proofs.Number.Shortest
import Lineage.Proofs.Number.Layout
import Lineage.Proofs.Json.Writer
import Lineage.Proofs.Ty.Json
import Lineage.Proofs.Digest
import Lineage.Proofs.Graph.Reachable
import Lineage.Proofs.Json.Equal
import Lineage.Proofs.Transform.Json
import Lineage.Proofs.Graph.Content
import Lineage.Proofs.Graph.Order
import Lineage.Proofs.Dict
import Lineage.Proofs.Graph.Growth
import Lineage.Proofs.Graph.Substitution
import Lineage.Proofs.Outcome
import Lineage.Proofs.Engine.Level
import Lineage.Proofs.Engine.Memory
import Lineage.Proofs.Column.Batch
import Lineage.Proofs.Stream.Regroup
import Lineage.Proofs.Column.Rowwise
import Lineage.Proofs.Ty.Rowwise
import Lineage.Proofs.Stream.Operation
import Lineage.Proofs.Ty.Columns
import Lineage.Proofs.Engine.BatchSize
import Lineage.Proofs.Csv.Table
import Lineage.Proofs.Ty.Cut
import Lineage.Proofs.Ty.Described
import Lineage.Proofs.Ty.Projection
import Lineage.Proofs.Schema.Propagation
import Lineage.Proofs.Document.Plan
import Lineage.Proofs.Stream.Described
import Lineage.Proofs.Engine.Pipeline
import Lineage.Proofs.Ty.References
import Lineage.Proofs.Ty.Address
import Lineage.Proofs.Schema.Wrapper
import Lineage.Proofs.Json.Reader
import Lineage.Proofs.Path.Json
import Lineage.Proofs.Schema.Consistency
import Lineage.Proofs.Ty.Descend
import Lineage.Proofs.Ty.Item
import Lineage.Proofs.Graph.Ancestry
import Lineage.Proofs.Graph.Walk
import Lineage.Proofs.Graph.Construction
import Lineage.Proofs.Schema.Static
import Lineage.Proofs.Graph.Consistency
import Lineage.Proofs.Engine.StaticSchema
import Lineage.Proofs.Column.Fits
import Lineage.Proofs.Ty.Membership
import Lineage.Proofs.Ty.Marks
import Lineage.Proofs.Ty.Trim
import Lineage.Proofs.Stream.Filter
import Lineage.Proofs.Graph.Failure
import Lineage.Proofs.Stream.Merge
import Lineage.Proofs.Engine.Sources
import Lineage.Proofs.Ty.ItemNulls
import Lineage.Proofs.Ty.Select
import Lineage.Proofs.Ty.Pruning
import Lineage.Proofs.Ty.ReadBack
import Lineage.Proofs.Document.Projection
import Lineage.Proofs.Json.Record
import Lineage.Proofs.Ty.Reading
import Lineage.Proofs.Transform.Reading
import Lineage.Proofs.Graph.Reading
import Lineage.Proofs.Ty.Stored
import Lineage.Proofs.Ty.Passing
import Lineage.Proofs.Stream.Sized
import Lineage.Proofs.Stream.OwnType
import Lineage.Proofs.Engine.OwnType
import Lineage.Proofs.Engine.Remembered
import Lineage.Proofs.Document.Mirror
import Lineage.Proofs.Query.Records
import Lineage.Proofs.Query.Selection
import Lineage.Proofs.Query.Star
import Lineage.Proofs.Engine.External
import Lineage.Proofs.Text.Blank
import Lineage.Proofs.Query.Search
import Lineage.Proofs.Query.Words
import Lineage.Proofs.Query.Written
import Lineage.Proofs.Query.Predicates
import Lineage.Proofs.Query.Clauses
import Lineage.Proofs.Query.ReadBack
import Lineage.Proofs.Query.Literal
import Lineage.Proofs.Column.Narrow
import Lineage.Proofs.Ty.Projected
import Lineage.Proofs.Ty.Relinking
import Lineage.Proofs.Ty.ForeignKeys
import Lineage.Proofs.Query.Bytes
import Lineage.Proofs.Query.Slices
import Lineage.Proofs.Number.Rounding
import Lineage.Proofs.Number.Whole
import Lineage.Proofs.Query.WholeLiteral
import Lineage.Proofs.Schema.ItemKeys
import Lineage.Proofs.Ty.Nullability
import Lineage.Proofs.Ty.Routes
import Lineage.Proofs.Ty.Inference
import Lineage.Proofs.Engine.Inferred
import Lineage.Proofs.Number.Value
import Lineage.Proofs.Document.Declared
import Lineage.Proofs.Document.WholeLimits
import Lineage.Proofs.Document.Addressed
import Lineage.Proofs.Document.Limits
import Lineage.Proofs.Document.Narrowed
import Lineage.Proofs.Ty.Branches
import Lineage.Proofs.Ty.Selected
import Lineage.Proofs.Ty.Overlooked
import Lineage.Proofs.Ty.Settled
import Lineage.Proofs.Stream.Twice
import Lineage.Proofs.Random.Choice
import Lineage.Proofs.Stream.Drawn
import Lineage.Proofs.Schema.Settled
import Lineage.Proofs.Schema.Item
import Lineage.Proofs.Transform.Compose
import Lineage.Proofs.Graph.Application
import Lineage.Proofs.Path.Dotted
import Lineage.Proofs.Schema.Derived
import Lineage.Proofs.Ty.Outermost
import Lineage.Proofs.Schema.Tables
import Lineage.Proofs.Time.Calendar
import Lineage.Proofs.Time.Text
import Lineage.Proofs.Ty.Dates
import Lineage.Proofs.Command.Settings
