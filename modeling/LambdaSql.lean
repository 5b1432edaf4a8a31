import LambdaSql.Calendar.Clock
import LambdaSql.Calendar.Date
import LambdaSql.Calendar.Duration
import LambdaSql.Calendar.Format
import LambdaSql.Calendar.Moment
import LambdaSql.Dialect.Basic
import LambdaSql.Dialect.Function
import LambdaSql.Dialect.MySql
import LambdaSql.Document.Basic
import LambdaSql.Document.Printer
import LambdaSql.Document.Reader
import LambdaSql.Error
import LambdaSql.Expr.Basic
import LambdaSql.Expr.Origin
import LambdaSql.Fault
import LambdaSql.Host.Call
import LambdaSql.Host.Evaluate
import LambdaSql.Host.Evaluation
import LambdaSql.Host.Format
import LambdaSql.Host.Members
import LambdaSql.Host.Operators
import LambdaSql.Model.Basic
import LambdaSql.Model.Field
import LambdaSql.Number.Binary
import LambdaSql.Number.Checked
import LambdaSql.Number.Decimal
import LambdaSql.Number.Fixed
import LambdaSql.Number.Shortest
import LambdaSql.Plan.Compiler
import LambdaSql.Plan.Lowering
import LambdaSql.Plan.Projection
import LambdaSql.Plan.Query
import LambdaSql.Plan.Scope
import LambdaSql.Render.Phrase
import LambdaSql.Render.Select
import LambdaSql.Render.Template
import LambdaSql.Settings.Basic
import LambdaSql.Settings.Compiler
import LambdaSql.Settings.Load
import LambdaSql.Settings.Once
import LambdaSql.Settings.Options
import LambdaSql.Sql.Literal
import LambdaSql.Sql.Node
import LambdaSql.Sql.Operators
import LambdaSql.Sql.Parameters
import LambdaSql.Sql.Predicate
import LambdaSql.Statement.Assign
import LambdaSql.Statement.Basic
import LambdaSql.Statement.Compile
import LambdaSql.Statement.Fetched
import LambdaSql.Statement.Query
import LambdaSql.Text.Blank
import LambdaSql.Text.Case
import LambdaSql.Text.CaseTable
import LambdaSql.Text.HiddenTable
import LambdaSql.Text.Quoted
import LambdaSql.Text.Search
import LambdaSql.Toml.Reader
import LambdaSql.Toml.Scalar
import LambdaSql.Toml.Table
import LambdaSql.Toml.Token
import LambdaSql.Translation.Basic
import LambdaSql.Translation.Defaults
import LambdaSql.Value.Basic
import LambdaSql.Value.Guid
import LambdaSql.Value.HostType
import LambdaSql.Value.Named
import LambdaSql.Value.Order
import LambdaSql.Value.Text
import LambdaSql.Proofs.Meaning.Datum
import LambdaSql.Proofs.Meaning.Node
import LambdaSql.Proofs.Plan.Outcome
import LambdaSql.Proofs.Meaning.Expr
import LambdaSql.Proofs.Meaning.Host
import LambdaSql.Proofs.Meaning.Lowering
import LambdaSql.Proofs.Reading.Parser
import LambdaSql.Proofs.Reading.Regroup
import LambdaSql.Proofs.Reading.Scanner
import LambdaSql.Proofs.Reading.Spelling
import LambdaSql.Proofs.Reading.Structure
import LambdaSql.Proofs.Reading.Text
import LambdaSql.Proofs.Naming.Drawn
import LambdaSql.Proofs.Naming.Operands
import LambdaSql.Proofs.Naming.Queries
import LambdaSql.Proofs.Binding.Agreement
import LambdaSql.Proofs.Binding.Batch
import LambdaSql.Proofs.Binding.Rows
import LambdaSql.Proofs.Naming.Capture
import LambdaSql.Proofs.Meaning.Restriction
import LambdaSql.Proofs.Meaning.Predicate
import LambdaSql.Proofs.Fetching.Deferral
import LambdaSql.Proofs.Twins.Text
import LambdaSql.Proofs.Nesting.Ends
import LambdaSql.Proofs.Nesting.Changes
import LambdaSql.Proofs.Nesting.Lists
import LambdaSql.Proofs.Nesting.Order
import LambdaSql.Proofs.Scoping.Bodies
import LambdaSql.Proofs.Binding.Consistency
import LambdaSql.Proofs.Binding.Following
import LambdaSql.Proofs.Binding.Objects
import LambdaSql.Proofs.Binding.Renaming
import LambdaSql.Proofs.Grouping.Keys
import LambdaSql.Proofs.Binding.Inlined
import LambdaSql.Proofs.Binding.Natives
import LambdaSql.Proofs.Typing.Families
import LambdaSql.Proofs.Faults.Evaluation
import LambdaSql.Proofs.Binding.Single
import LambdaSql.Proofs.Meaning.Negation
import LambdaSql.Proofs.Meaning.Concatenation
import LambdaSql.Proofs.Meaning.Folding
import LambdaSql.Proofs.Meaning.Nearest
import LambdaSql.Proofs.Meaning.Numbers
import LambdaSql.Proofs.Meaning.StaticCalls
import LambdaSql.Proofs.Meaning.NumberCalls
import LambdaSql.Proofs.Meaning.SpanParts
import LambdaSql.Proofs.Meaning.CalendarCalls
import LambdaSql.Proofs.Meaning.DateShifts
import LambdaSql.Proofs.Meaning.DateFormats
import LambdaSql.Proofs.Plan.Shapes
import LambdaSql.Proofs.Nesting.Abandoned
import LambdaSql.Proofs.Fetching.Evaluable
import LambdaSql.Proofs.Reading.Segments
import LambdaSql.Proofs.Reading.Quotation
import LambdaSql.Proofs.Reading.Spans
import LambdaSql.Proofs.Scoping.Choices
import LambdaSql.Proofs.Binding.Sinks
import LambdaSql.Proofs.Binding.Templates
import LambdaSql.Proofs.Settings.Loading
