/-
# Piecework.Http.Server — the service behind requests and responses.

A request is routed by its path, refused if its method is not served there, and answered with the JSON
text of what the service answers.  A `HEAD` request is carried out like a `GET` request and answered
without the body.  `OPTIONS` is answered on every path and carries nothing out.

Where the service breaks off there is no response.
-/
import Piecework.Http.Route
import Piecework.Service
import Piecework.Wire.Exchange

namespace Piecework

/-- Whether handling breaks off without an answer: the deadline of a lease lies beyond the calendar. -/
def ServiceFault.breaksOff (f : ServiceFault) : Bool := f = .storage .beyondCalendar

namespace Http

/-! ## Bodies -/

/-- Why a body is refused. -/
inductive BodyFault where
  /-- The content type does not announce JSON. -/
  | contentType
  | tooLong
  /-- The text, and what is wrong with it as JSON. -/
  | json (text : String) (fault : Json.Fault)
deriving DecidableEq, Repr

/-- The most bytes that a body may have. -/
def bodyLimit : Nat := 2 ^ 21

/-- The wording of a fault. -/
def BodyFault.message : BodyFault → String
  | .contentType => "Expected request with `Content-Type: application/json`"
  | .tooLong => "Failed to buffer the request body: length limit exceeded"
  | .json text fault =>
    (match fault.cause.category with
      | .unfinished | .malformed => "Failed to parse the request body as JSON: "
      | .mismatch => "Failed to deserialize the JSON body into the target type: ")
      ++ fault.report text.toList

/-- The status of a response that carries the fault. -/
def BodyFault.status : BodyFault → Nat
  | .contentType => 415
  | .tooLong => 413
  | .json _ fault =>
    match fault.cause.category with
    | .unfinished | .malformed => 400
    | .mismatch => 422

/-- The value in the body of a request. -/
def Request.value (r : Request) (c : Json.Codec α) : Except BodyFault α :=
  if !announcesJson r.contentType then .error .contentType
  else if bodyLimit < r.body.utf8ByteSize then .error .tooLong
  else (c.decode r.body).mapError (.json r.body)

/-! ## Responses -/

/-- A response that says what is wrong. -/
def Response.fault (status : Nat) (message : String) : Response :=
  .json status (Wire.errorResponse.encode message)

/-- What is said about a fault of the service itself. -/
def journalFault (f : ServiceFault) : List Line :=
  if 500 ≤ f.status ∧ !f.breaksOff then [.error ("request failed: " ++ f.message)] else []

/-- Answers with what the service has answered. -/
def respond (c : Json.Codec α) (status : Nat) (t : Turn Service (Except ServiceFault α)) :
    Turn Service (Option Response) :=
  match t.answer with
  | .ok a => ⟨some (.json status (c.encode a)), t.state, t.journal⟩
  | .error f =>
    ⟨if f.breaksOff then none else some (.fault f.status f.message), t.state,
      t.journal ++ journalFault f⟩

/-- Carries a request out with the value in its body. -/
def withBody (s : Service) (r : Request) (c : Json.Codec α) (run : α → Turn Service (Option Response)) :
    Turn Service (Option Response) :=
  match r.value c with
  | .ok a => run a
  | .error f => .look s (some (.fault f.status f.message))

/-! ## Routes -/

/-- The assignment of a turn; it is a fault if there is none. -/
def requireTask (t : Turn Service (Except ServiceFault (Option Assignment))) :
    Turn Service (Except ServiceFault Assignment) :=
  match t.answer with
  | .ok (some a) => ⟨.ok a, t.state, t.journal ++ [.debug "leased task"]⟩
  | .ok none => ⟨.error .noTask, t.state, t.journal⟩
  | .error f => ⟨.error f, t.state, t.journal⟩

/-- The expression of an identity in text. -/
def viewOf (s : Service) (text : String) : Except ServiceFault View :=
  match ExpressionId.ofText text with
  | .ok id => s.view id
  | .error _ => .error (.invalidId text)

/-- The version of the service. -/
def version : String := "0.1.0"

/-- Shows one expression. -/
def showExpression (s : Service) (segment : List Char) : Turn Service (Option Response) :=
  match decodeSegment segment with
  | some text => respond Wire.expressionResponse 200 (.look s (viewOf s text))
  | none => .look s (some (.plain 400 "Invalid URL: Invalid UTF-8 in `id`"))

/-- Carries a request out on its route. -/
def Route.run (s : Service) (mint : Mint) (now : Instant) (r : Request) :
    Route → Turn Service (Option Response)
  | .health =>
    .look s (some (.json 200 ("\x7b\"status\":\"ok\",\"version\":\"" ++ version ++ "\"\x7d")))
  | .calculate =>
    withBody s r Wire.calculateRequest fun text =>
      respond Wire.calculateResponse 201 (s.add mint now text)
  | .expressions => respond Wire.expressionsResponse 200 (.look s (.ok s.list))
  | .expression segment => showExpression s segment
  | .nextTask => respond Wire.taskResponse 200 (requireTask (s.next now))
  | .taskResult =>
    withBody s r Wire.report fun report => respond Wire.resultResponse 200 (s.report now report)

/-- A response to a request that asks for no body. -/
def Response.withoutBody (r : Response) : Response := { r with body := "" }

/-- Serves a request. -/
def serve (s : Service) (mint : Mint) (now : Instant) (r : Request) :
    Turn Service (Option Response) :=
  let route := Route.ofPath? r.path
  if r.method = "OPTIONS" then .look s (some (.bare 200 (route.map Route.allow)))
  else match route with
    | none => .look s (some (.bare 404 none))
    -- Only a path that is known can have a method that is not.
    | some route =>
      if r.method ∉ route.methods then .look s (some (.bare 405 (some route.allow)))
      else
        let turn := route.run s mint now r
        if r.method = "HEAD" then turn.map (Option.map Response.withoutBody) else turn

end Http

end Piecework
