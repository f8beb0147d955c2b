import Piecework.Argument
import Piecework.Arithmetic
import Piecework.Calendar
import Piecework.Client
import Piecework.CommandLine
import Piecework.CommandLine.Grammar
import Piecework.CommandLine.Help
import Piecework.CommandLine.Reader
import Piecework.CommandLine.Show
import Piecework.Config
import Piecework.Dependency
import Piecework.Environment
import Piecework.Environment.Dotenv
import Piecework.Evaluation
import Piecework.Expression
import Piecework.Http.MediaType
import Piecework.Http.Message
import Piecework.Http.Route
import Piecework.Http.Server
import Piecework.Http.Status
import Piecework.Ident
import Piecework.Infix
import Piecework.Instant
import Piecework.Instant.Text
import Piecework.Journal
import Piecework.Json.Codec
import Piecework.Json.Fault
import Piecework.Json.Number
import Piecework.Json.Record
import Piecework.Json.Skip
import Piecework.Json.Text
import Piecework.Lease
import Piecework.Main
import Piecework.Number.Binary64
import Piecework.Number.Layout
import Piecework.Number.Reader
import Piecework.Number.Shortest
import Piecework.Operation
import Piecework.Plan
import Piecework.Postfix
import Piecework.Proofs.Acceptance
import Piecework.Proofs.Argument
import Piecework.Proofs.Batch
import Piecework.Proofs.Calendar
import Piecework.Proofs.Client
import Piecework.Proofs.Compilation
import Piecework.Proofs.Coverage
import Piecework.Proofs.Deadline
import Piecework.Proofs.Drain
import Piecework.Proofs.Finite
import Piecework.Proofs.Grammar
import Piecework.Proofs.Handover
import Piecework.Proofs.Http.Route
import Piecework.Proofs.Ident
import Piecework.Proofs.Instant
import Piecework.Proofs.Json.Codec
import Piecework.Proofs.Json.Finite
import Piecework.Proofs.Json.Float
import Piecework.Proofs.Json.List
import Piecework.Proofs.Json.Number
import Piecework.Proofs.Json.Reads
import Piecework.Proofs.Json.Record
import Piecework.Proofs.Json.Scale
import Piecework.Proofs.Json.Size
import Piecework.Proofs.Json.Text
import Piecework.Proofs.Linear
import Piecework.Proofs.Literals
import Piecework.Proofs.Machine
import Piecework.Proofs.Number.Digits
import Piecework.Proofs.Number.Decimal
import Piecework.Proofs.Number.Double
import Piecework.Proofs.Number.Error
import Piecework.Proofs.Number.Plain
import Piecework.Proofs.Number.Product
import Piecework.Proofs.Number.Rounding
import Piecework.Proofs.Number.Shortest
import Piecework.Proofs.Numeral
import Piecework.Proofs.Pieces
import Piecework.Proofs.Refinement
import Piecework.Proofs.Sentence
import Piecework.Proofs.Server
import Piecework.Proofs.Shift
import Piecework.Proofs.Spelling
import Piecework.Proofs.Store.Admission
import Piecework.Proofs.Store.Change
import Piecework.Proofs.Store.Coherence
import Piecework.Proofs.Store.Confluence
import Piecework.Proofs.Store.Dispatch
import Piecework.Proofs.Store.Distributed
import Piecework.Proofs.Store.Final
import Piecework.Proofs.Store.Frontier
import Piecework.Proofs.Store.Isolation
import Piecework.Proofs.Store.Pool
import Piecework.Proofs.Store.Progress
import Piecework.Proofs.Store.Reachable
import Piecework.Proofs.Store.Reclaim
import Piecework.Proofs.Store.Refusal
import Piecework.Proofs.Store.Run
import Piecework.Proofs.Store.Status
import Piecework.Proofs.Store.Tables
import Piecework.Proofs.Store.Tenure
import Piecework.Proofs.Submission
import Piecework.Proofs.Tree
import Piecework.Proofs.TreePlan
import Piecework.Proofs.Unfolding
import Piecework.Proofs.Wire.Records
import Piecework.Proofs.Wire.RoundTrip
import Piecework.Propagation
import Piecework.Registry
import Piecework.Service
import Piecework.Service.Fault
import Piecework.Service.Source
import Piecework.Span
import Piecework.Store
import Piecework.Store.Journal
import Piecework.Task
import Piecework.Text.Alphanumeric
import Piecework.Text.Blank
import Piecework.Text.Extending
import Piecework.Text.Quoted
import Piecework.Text.Ranges
import Piecework.Text.Unprintable
import Piecework.Turn
import Piecework.Wire.Exchange
import Piecework.Wire.Records
import Piecework.Wire.Scalars
import Piecework.Worker
import Piecework.Worker.Script
