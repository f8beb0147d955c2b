/-
# Piecework.Wire.Exchange — the bodies of requests and responses.

Each body is an object with a single member around the value that is exchanged.
-/
import Piecework.Wire.Records

namespace Piecework.Wire

open Json (Codec)

/-- An object with a single member. -/
def single (title name : String) (c : Codec α) : Codec α := .record title (.one (.required name c)) id id

/-- The request to evaluate a text. -/
def calculateRequest : Codec String := single "CalculateRequest" "expression" .string

/-- The answer to an accepted text. -/
def calculateResponse : Codec ExpressionId := single "CalculateResponse" "id" expressionId

/-- All expressions. -/
def expressionsResponse : Codec (List Expression) :=
  single "ExpressionsResponse" "expressions" (.list expression)

/-- One expression. -/
def expressionResponse : Codec View := single "ExpressionResponse" "expression" view

/-- One assignment. -/
def taskResponse : Codec Assignment := single "TaskResponse" "task" assignment

/-- Where the expression stands after a report. -/
def resultResponse : Codec ExpressionStatus :=
  single "ResultResponse" "expression_status" expressionStatus

/-- A failure. -/
def errorResponse : Codec String := single "ErrorResponse" "error" .string

end Piecework.Wire
