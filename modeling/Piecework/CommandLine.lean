/-
# Piecework.CommandLine — what the words of a command line do.

`eval` evaluates an expression in place; the other verbs call a service elsewhere.  A run ends with a
code, the text it has written and a complaint if it went wrong: code 1 if what was asked for could not
be done, code 2 if the words make no sense.
-/
import Piecework.Client
import Piecework.CommandLine.Reader
import Piecework.CommandLine.Show
import Piecework.Config
import Piecework.Environment.Dotenv
import Piecework.Evaluation

namespace Piecework

namespace CommandLine

/-- Why a run went wrong. -/
inductive Complaint where
  | misuse
  | service (fault : ServiceFault)
  | client (fault : ClientFault)
  /-- A text that was given as an identity is none. -/
  | invalidId (text : String)
  /-- A word that was given as a status is none. -/
  | unknownStatus (word : String)
  /-- An expression has no value. -/
  | noValue (text reason : String)
  /-- An expression has not ended for as long as one was ready to wait. -/
  | unfinished (text : String)
  /-- The settings file sets a variable to a text that no variable can hold. -/
  | settings

/-- The wording of a complaint. -/
def Complaint.message : Complaint → String
  | .misuse => "the command line is not understood"
  | .service fault => fault.message
  | .client fault => fault.message
  | .invalidId text => "Invalid expression ID: " ++ text
  | .unknownStatus word => "unknown status " ++ Text.quoted word
  | .noValue text reason => text ++ ": " ++ reason
  | .unfinished text => text ++ ": still pending"
  | .settings => "a variable cannot hold the NUL character"

/-- The code with which a run ends that went wrong. -/
def Complaint.code : Complaint → Nat
  | .misuse => 2
  | .settings => 101
  | _ => 1

/-- Lines as text. -/
def linesText (lines : List String) : String := String.join (lines.map fun line => line ++ "\n")

/-- How a run ends. -/
structure Exit where
  /-- The text that was written. -/
  output : String
  complaint : Option Complaint

namespace Exit

/-- A run that went well. -/
def done (output : String) : Exit := ⟨output, none⟩

/-- A run that went wrong before anything was written. -/
def failed (c : Complaint) : Exit := ⟨"", some c⟩

/-- The code. -/
def code (e : Exit) : Nat := e.complaint.elim 0 Complaint.code

/-- The same run with another text written first. -/
def after (output : String) (e : Exit) : Exit := { e with output := output ++ e.output }

end Exit

/-! ## Evaluating in place -/

/-- Shows the value of an expression that has ended. -/
def showResult (v : View) : Exit :=
  match v.status, v.result with
  | .completed, some r => .done (linesText [numberText r])
  | _, _ =>
    .failed (.noValue v.text ((v.tasks.findSome? Task.error).getD "evaluation failed"))

/-- Evaluates an expression in place. -/
def evaluate (config : Config) (mint : Mint) (now : Instant) (instant tasks : Bool) (text : String) :
    Exit :=
  let times := if instant then .uniform (.ofMillis 0) else config.times
  match (Evaluation.ofText times config.lease mint now text).answer with
  | .error fault => .failed (.service fault)
  | .ok e => (showResult e.view).after (if tasks then linesText (viewLines e.view) else "")

/-! ## Calling a service -/

section

variable {σ : Type} (transport : Transport σ) (c : Client)

/-- Makes a call, and shows its answer. -/
def called {α : Type} (s : σ) (call : Call α) (present : α → Exit) : Turn σ Exit :=
  (call.run transport s).map fun
    | .ok a => present a
    | .error fault => .failed (.client fault)

/-- Asks for an expression until it has ended, at most so many times more than once. -/
def awaitEnd (id : ExpressionId) : Nat → σ → Turn σ (Except ClientFault View)
  | 0, s => (c.expression id).run transport s
  | patience + 1, s =>
    let turn := (c.expression id).run transport s
    match turn.answer with
    | .error _ => turn
    | .ok v =>
      if v.status.isTerminal then turn
      else (awaitEnd id patience turn.state).after turn.journal

/-- Waits for the end of an expression, and shows it. -/
def awaited (s : σ) (patience : Nat) (id : ExpressionId) (present : View → Exit) : Turn σ Exit :=
  (awaitEnd transport c id patience s).map fun
    | .error fault => .failed (.client fault)
    | .ok v => if v.status.isTerminal then present v else .failed (.unfinished v.text)

/-- Submits an expression. -/
def submit (s : σ) (patience : Nat) (wait : Bool) (text : String) : Turn σ Exit :=
  let submitted := (c.calculate text).run transport s
  match submitted.answer with
  | .error fault => submitted.map fun _ => .failed (.client fault)
  | .ok id =>
    if wait then (awaited transport c submitted.state patience id showResult).after submitted.journal
    else submitted.map fun _ => .done (linesText [id.text])

/-- Shows one expression. -/
def get (s : σ) (patience : Nat) (wait : Bool) (text : String) : Turn σ Exit :=
  match ExpressionId.ofText text with
  | .error _ => .look s (.failed (.invalidId text))
  | .ok id =>
    let present (v : View) : Exit := .done (linesText (viewLines v))
    if wait then awaited transport c s patience id present
    else called transport s (c.expression id) present

/-- Lists expressions, all or those of one status. -/
def list (s : σ) (word : Option String) : Turn σ Exit :=
  let matching (wanted : ExpressionStatus → Bool) : Turn σ Exit :=
    called transport s c.expressions fun es =>
      .done (linesText (listLines (es.filter fun e => wanted e.status)))
  match word with
  | none => matching fun _ => true
  | some word =>
    match statusOf? word with
    | some status => matching (· = status)
    | none => .look s (.failed (.unknownStatus word))

end

/-! ## Whole runs -/

/-- What a run finds around it. -/
structure Surroundings (σ : Type) where
  environment : Environment
  /-- The content of the settings file, if there is one. -/
  settings : Option String
  transport : Transport σ
  mint : Mint
  now : Instant
  /-- How often to ask again for an expression that has not ended. -/
  patience : Nat

/-- Does what the words say. -/
def perform {σ : Type} (around : Surroundings σ) (env : Environment) (s : σ) (w : Words) : Turn σ Exit :=
  let client := Client.ofAddress w.url
  let operand := w.given.operand.getD ""
  let wait := w.given.flags.contains "wait"
  match w.verb with
  | .eval =>
    .look s (evaluate (.ofEnvironment env) around.mint around.now (w.given.flags.contains "instant")
      (w.given.flags.contains "tasks") operand)
  | .submit => submit around.transport client s around.patience wait operand
  | .get => get around.transport client s around.patience wait operand
  | .list => list around.transport client s (w.given.values.lookup "status")

/-- Reads the settings file and the command line, and does what it says. -/
def run {σ : Type} (around : Surroundings σ) (s : σ) (words : List String) : Turn σ Exit :=
  let (env, fault) := match around.settings with
    | some content => Dotenv.loadFile around.environment content
    | none => (around.environment, none)
  if fault = some .nul then .look s (.failed .settings)
  else match read env words with
    | .misuse => .look s (.failed .misuse)
    | .help page => .look s (.done (page.text env))
    | .run w => perform around env s w

end CommandLine

end Piecework
