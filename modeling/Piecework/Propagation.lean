/-
# Piecework.Propagation — how the outcome of a task moves its expression.

A task takes one outcome and keeps it.  An expression fails with the first task that fails, is completed
once all its tasks are, and then never moves again.
-/
import Piecework.Expression

namespace Piecework

/-- An outcome for a task that has ended already. -/
structure TransitionFault where
  task : TaskId
  status : TaskStatus
deriving DecidableEq, Repr

/-- The wording of the fault. -/
def TransitionFault.message (fault : TransitionFault) : String :=
  "task " ++ fault.task.text ++ " is already " ++ fault.status.name

/-- The task as an outcome leaves it. -/
def Task.ended (t : Task) (o : Outcome) : Task :=
  match o with
  | .completed value => { t with status := .completed, lease := none, result := some value, error := none }
  | .failed reason => { t with status := .failed, lease := none, result := none, error := some reason }

/-- Records an outcome, unless the task has ended. -/
def Task.record (t : Task) (o : Outcome) : Except TransitionFault Task :=
  if t.status.isTerminal then .error ⟨t.id, t.status⟩ else .ok (t.ended o)

namespace Expression

/-- Whether all tasks of an expression are completed. -/
def allCompleted (e : Expression) (known : TaskId → Option Task) : Bool :=
  e.tasks.all fun id => (known id).any fun t => t.status = .completed

/-- The status that follows from a change of one task. -/
def nextStatus (e : Expression) (known : TaskId → Option Task) (updated : Task) : ExpressionStatus :=
  if updated.status = .failed then .failed
  else if e.allCompleted known then .completed
  else .pending

/-- The result of the last task. -/
def finalResult (e : Expression) (known : TaskId → Option Task) : Option Float :=
  e.finalTask?.bind fun id => (known id).bind Task.result

/-- The expression after a change of one task.  The time of the last change moves with the status only. -/
def reconcile (e : Expression) (known : TaskId → Option Task) (updated : Task) (now : Instant) :
    Expression :=
  if e.status.isTerminal then e
  else
    let next := e.nextStatus known updated
    let result := match next with
      | .completed => e.finalResult known
      | .failed => none
      | .pending => e.result
    { e with
      status := next
      result := result
      updated := if next = e.status then e.updated else now }

end Expression

end Piecework
