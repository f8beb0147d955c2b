/-
# Piecework.Wire.Scalars — the simple values of the wire format.

Identities, operands and instants are strings with a content of their own; operations and statuses are
words; a span is written as its whole milliseconds, and what is left beside them is lost.
-/
import Piecework.Expression
import Piecework.Instant.Text
import Piecework.Json.Record

namespace Piecework.Wire

open Json (Codec)

/-- Identities of tasks. -/
def taskId : Codec TaskId :=
  .text TaskId.text fun s => (TaskId.ofText s).mapError Ident.Fault.message

/-- Identities of expressions. -/
def expressionId : Codec ExpressionId :=
  .text ExpressionId.text fun s => (ExpressionId.ofText s).mapError Ident.Fault.message

/-- Operands. -/
def argument : Codec Argument :=
  .text Argument.text fun s => (Argument.ofText s).mapError ArgumentFault.message

/-- Instants.  A text that is none is refused right behind it. -/
def instant : Codec Instant where
  write t := Json.writeString t.text.toList
  read text :=
    match Json.readText "an RFC 3339 formatted date and time string" text with
    | .error fault => .error fault
    | .ok (s, rest) =>
      match Instant.ofText s with
      | .ok t => .ok (t, rest)
      | .error fault => .error (.here (.refused fault.message) rest)

/-- Spans as whole milliseconds in a word. -/
def span : Codec Span where
  write s := Codec.word.write (.ofNat s.toNat)
  read text := (Codec.word.read text).map fun (n, rest) => (.ofMillis n.toNat, rest)

/-- Operations by their symbols. -/
def operation : Codec Operation :=
  let name (o : Operation) : String := .singleton o.symbol
  .choice (Operation.all.map fun o => (name o, o)) name

/-- Where a task stands. -/
def taskStatus : Codec TaskStatus :=
  .choice ([.pending, .dispatched, .completed, .failed].map fun s => (TaskStatus.name s, s)) TaskStatus.name

/-- The word for a reported status. -/
def reportStatusName : ReportStatus → String
  | .completed => "completed"
  | .failed => "error"

/-- What a worker may report. -/
def reportStatus : Codec ReportStatus :=
  .choice ([.completed, .failed].map fun s => (reportStatusName s, s)) reportStatusName

/-- Where an expression stands. -/
def expressionStatus : Codec ExpressionStatus :=
  .choice ([.pending, .completed, .failed].map fun s => (ExpressionStatus.name s, s))
    ExpressionStatus.name

end Piecework.Wire
