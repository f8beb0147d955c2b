/-
# Piecework.Wire.Records — tasks and expressions on the wire.

Each record lists its members in the order in which they are written.  Results and errors that are not
set are written as `null` in tasks and expressions, and left out of reports and views.
-/
import Piecework.Wire.Scalars

namespace Piecework.Wire

open Json (Codec Member Members)

/-- Tasks. -/
def task : Codec Task :=
  .record "Task"
    (.more (.required "id" taskId)
    <| .more (.required "expression_id" expressionId)
    <| .more (.required "operation" operation)
    <| .more (.required "arg1" argument)
    <| .more (.required "arg2" argument)
    <| .more (.required "operation_time_ms" span)
    <| .more (.required "status" taskStatus)
    <| .more (.optional "result" .float)
    <| .more (.optional "error" .string)
    <| .more (.required "dependencies" (.list taskId))
    <| .more (.optional "lease_expires_at" instant)
    <| .one (.required "created_at" instant))
    (fun t => (t.id, t.owner, t.operation, t.left, t.right, t.duration, t.status, t.result, t.error,
      t.dependencies, t.lease, t.created))
    fun (id, owner, operation, left, right, duration, status, result, error, dependencies, lease,
      created) => ⟨id, owner, operation, left, right, duration, status, result, error, dependencies,
      lease, created⟩

/-- Assignments. -/
def assignment : Codec Assignment :=
  .record "TaskAssignment"
    (.more (.required "id" taskId)
    <| .more (.required "expression_id" expressionId)
    <| .more (.required "operation" operation)
    <| .more (.required "arg1" .float)
    <| .more (.required "arg2" .float)
    <| .one (.required "operation_time_ms" span))
    (fun a => (a.id, a.owner, a.operation, a.left, a.right, a.duration))
    fun (id, owner, operation, left, right, duration) => ⟨id, owner, operation, left, right, duration⟩

/-- Reports. -/
def report : Codec Report :=
  .record "TaskReport"
    (.more (.required "id" taskId)
    <| .more (.required "status" reportStatus)
    <| .more (.spare "result" .float)
    <| .one (.spare "error" .string))
    (fun r => (r.task, r.status, r.result, r.error))
    fun (task, status, result, error) => ⟨task, status, result, error⟩

/-- Expressions whose tasks are written by the given codec. -/
def expressionOf (title : String) (result : Member (Option Float)) (tasks : Codec τ) :
    Codec (ExpressionOf τ) :=
  .record title
    (.more (.required "id" expressionId)
    <| .more (.required "text" .string)
    <| .more (.required "status" expressionStatus)
    <| .more result
    <| .more (.required "tasks" (.list tasks))
    <| .more (.required "created_at" instant)
    <| .one (.required "updated_at" instant))
    (fun e => (e.id, e.text, e.status, e.result, e.tasks, e.created, e.updated))
    fun (id, text, status, result, tasks, created, updated) =>
      ⟨id, text, status, result, tasks, created, updated⟩

/-- Expressions with the identities of their tasks. -/
def expression : Codec Expression := expressionOf "Expression" (.optional "result" .float) taskId

/-- Expressions with their tasks. -/
def view : Codec View := expressionOf "ExpressionView" (.hidden "result" .float) task

end Piecework.Wire
