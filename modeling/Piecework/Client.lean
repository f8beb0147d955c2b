/-
# Piecework.Client — calls to a service elsewhere.

A call is a request together with the reading of its response.  It is carried out over a transport,
which either brings a response or nothing.  Responses that report success carry the answer as JSON;
all others carry a message, as JSON or as plain text.

Requests name their target in full: the base address of the client with the path behind it.  Slashes at
the end of the base address do not count.
-/
import Piecework.Http.Server
import Piecework.Http.Status
import Piecework.Worker

namespace Piecework

/-- Why a call has no answer. -/
inductive ClientFault where
  /-- There was no response, or one that cannot be read. -/
  | transport
  /-- The service refused. -/
  | refused (status : Nat) (message : String)
deriving DecidableEq, Repr

namespace ClientFault

/-- The wording of a fault. -/
def message : ClientFault → String
  | .transport => "request failed"
  | .refused status message => "orchestrator returned " ++ Http.statusText status ++ ": " ++ message

/-- The status with which the service refused. -/
def status? : ClientFault → Option Nat
  | .transport => none
  | .refused status _ => some status

end ClientFault

/-! ## Transports -/

/-- Carries a request to wherever its target is, and brings the response back. -/
abbrev Transport (σ : Type) := σ → Http.Request → Turn σ (Option Http.Response)

namespace Transport

/-- Leads nowhere. -/
def unreachable {σ : Type} : Transport σ := fun s _ => .look s none

/-- Leads to a server at an address, which sees targets without that address. -/
def toServer {σ : Type} (address : String) (serve : Transport σ) : Transport σ := fun s r =>
  if address.toList.isPrefixOf r.target.toList then
    serve s { r with target := .ofList (r.target.toList.drop address.length) }
  else .look s none

end Transport

/-! ## Calls -/

/-- A request, and how its response is read. -/
structure Call (α : Type) where
  request : Http.Request
  read : Http.Response → Except ClientFault α

/-- Makes a call over a transport. -/
def Call.run {σ α : Type} (transport : Transport σ) (s : σ) (call : Call α) :
    Turn σ (Except ClientFault α) :=
  (transport s call.request).map fun
    | some response => call.read response
    | none => .error .transport

/-- A client of the service at a base address. -/
structure Client where
  base : String
deriving DecidableEq, Repr

namespace Client

/-- The client of the service at an address. -/
def ofAddress (address : String) : Client :=
  ⟨.ofList (address.toList.reverse.dropWhile (· = '/')).reverse⟩

/-- The target of a path. -/
def target (c : Client) (path : String) : String := c.base ++ path

/-- The message of a response that reports a failure. -/
def failure (r : Http.Response) : ClientFault :=
  .refused r.status <| match Wire.errorResponse.decode r.body with
    | .ok message => message
    | .error _ => r.body

/-- Reads the answer from the body of a response. -/
def readBody {α : Type} (codec : Json.Codec α) (r : Http.Response) : Except ClientFault α :=
  if r.isSuccess then (codec.decode r.body).mapError fun _ => .transport else .error (failure r)

/-- Submits an expression. -/
def calculate (c : Client) (text : String) : Call ExpressionId where
  request := .post (c.target "/api/v1/calculate") (Wire.calculateRequest.encode text)
  read := readBody Wire.calculateResponse

/-- Asks for one expression. -/
def expression (c : Client) (id : ExpressionId) : Call View where
  request := .get (c.target (Http.Route.expressionsPath ++ "/" ++ id.text))
  read := readBody Wire.expressionResponse

/-- Asks for all expressions. -/
def expressions (c : Client) : Call (List Expression) where
  request := .get (c.target Http.Route.expressionsPath)
  read := readBody Wire.expressionsResponse

/-- Asks for a task.  That there is none is an answer. -/
def nextTask (c : Client) : Call (Option Assignment) where
  request := .get (c.target "/internal/task")
  -- By this status the service says that it has none.
  read r := if r.status = 404 then .ok none else (readBody Wire.taskResponse r).map some

/-- Reports on a task. -/
def report (c : Client) (r : Report) : Call ExpressionStatus where
  request := .post (c.target "/internal/task/result") (Wire.report.encode r)
  read := readBody Wire.resultResponse

/-- A service elsewhere as a source of tasks for workers. -/
def source {σ : Type} (c : Client) (transport : Transport σ) : TaskSource σ ClientFault where
  fetch s := c.nextTask.run transport s
  report s r :=
    let turn := (c.report r).run transport s
    ⟨turn.answer.map fun _ => (), turn.state,
      turn.journal ++ match turn.answer with
        | .ok _ => [.debug "reported"]
        | .error _ => []⟩
  wording := ClientFault.message

end Client

end Piecework
