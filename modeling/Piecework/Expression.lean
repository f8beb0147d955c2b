/-
# Piecework.Expression — an accepted expression and its view with all tasks.

An expression remembers its text, the tasks that compute it in the order in which they were compiled,
and its status.  Its value is the result of the last task.
-/
import Piecework.Task

namespace Piecework

/-- Where an expression stands. -/
inductive ExpressionStatus where
  /-- Some task has no result yet. -/
  | pending
  /-- Every task is completed. -/
  | completed
  /-- Some task has failed. -/
  | failed
deriving DecidableEq, Repr

/-- The word for a status. -/
def ExpressionStatus.name : ExpressionStatus → String
  | .pending => "pending"
  | .completed => "completed"
  | .failed => "error"

/-- Whether the status can still change. -/
def ExpressionStatus.isTerminal : ExpressionStatus → Bool
  | .pending => false
  | .completed | .failed => true

/-- An expression whose tasks are of type `τ`: identities in the store, whole tasks in a view. -/
structure ExpressionOf (τ : Type) where
  id : ExpressionId
  /-- The text as it was submitted. -/
  text : String
  status : ExpressionStatus
  /-- Set once the expression is completed. -/
  result : Option Float
  /-- The tasks in the order of compilation. -/
  tasks : List τ
  created : Instant
  updated : Instant
deriving DecidableEq

/-- An expression as it is stored. -/
abbrev Expression := ExpressionOf TaskId

/-- An expression together with its tasks. -/
abbrev View := ExpressionOf Task

/-- An expression that no task has been reported for. -/
def Expression.fresh (id : ExpressionId) (text : String) (tasks : List TaskId) (now : Instant) :
    Expression where
  id := id
  text := text
  status := .pending
  result := none
  tasks := tasks
  created := now
  updated := now

/-- The same expression with its tasks in another form. -/
def ExpressionOf.withTasks {τ σ : Type} (e : ExpressionOf τ) (tasks : List σ) : ExpressionOf σ where
  id := e.id
  text := e.text
  status := e.status
  result := e.result
  tasks := tasks
  created := e.created
  updated := e.updated

/-- The task whose result is the value of the expression. -/
def ExpressionOf.finalTask? {τ : Type} (e : ExpressionOf τ) : Option τ := e.tasks.getLast?

end Piecework
