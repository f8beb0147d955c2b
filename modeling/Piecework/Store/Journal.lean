/-
# Piecework.Store.Journal — what the store has to say about its work.

The lines follow from what was asked, what was answered and how the store stood before and after.  An
operation that is refused says nothing.
-/
import Piecework.Journal
import Piecework.Store
import Piecework.Text.Quoted

namespace Piecework.Store

/-- An expression was accepted with its tasks. -/
def journalPut (e : Expression) (tasks : List Task) (answer : Except StoreFault Unit) : List Line :=
  match answer with
  | .error _ => []
  | .ok () =>
    .info ("adding expression: " ++ e.text) :: tasks.map fun t =>
      .debug ("adding task: " ++ t.left.text ++ " " ++ String.singleton t.operation.symbol ++ " "
        ++ t.right.text)

/-- A task was handed out. -/
def journalClaim (answer : Except StoreFault (Option Assignment)) : List Line :=
  match answer with
  | .ok (some _) => [.debug "task dispatched"]
  | _ => []

/-- A report was taken. -/
def journalReport (before after : Store) (id : TaskId) (answer : Except StoreFault ExpressionStatus) :
    List Line :=
  match answer with
  | .error _ => []
  | .ok status =>
    let task := after.task? id
    let earlier := task.bind fun t => (before.expression? t.owner).map ExpressionOf.status
    let result := task.bind fun t => (after.expression? t.owner).bind ExpressionOf.result
    if earlier = some status ∨ status = .pending then [.debug "expression status"]
    else if status = .completed then
      [.info ("expression completed with result: " ++ Journal.optional Journal.number.text result)]
    else [.warn ("expression failed: " ++ Journal.optional Text.quoted (task.bind Task.error))]

/-- Lapsed leases were taken back. -/
def journalReap (reclaimed : List TaskId) : List Line :=
  reclaimed.map fun _ => .warn "lease expired, returning task to pending"

end Piecework.Store
