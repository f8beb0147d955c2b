/-
# Piecework.Task — one operation of an expression, and what happens to it.

A task applies one operation to two operands, each a number or the output of another task.  It waits
until the tasks it depends on have results, is handed to a worker under a lease, and ends with a result
or a failure.  A worker sees an assignment, in which both operands are numbers, and answers with a
report.
-/
import Piecework.Argument
import Piecework.Instant
import Piecework.Operation

namespace Piecework

/-! ## The life of a task -/

/-- Where a task stands. -/
inductive TaskStatus where
  /-- Not handed out. -/
  | pending
  /-- Handed to a worker under a lease. -/
  | dispatched
  /-- Ended with a result. -/
  | completed
  /-- Ended with a failure, which fails the expression too. -/
  | failed
deriving DecidableEq, Repr

/-- The word for a status. -/
def TaskStatus.name : TaskStatus → String
  | .pending => "pending"
  | .dispatched => "dispatched"
  | .completed => "completed"
  | .failed => "error"

/-- Whether the status can still change. -/
def TaskStatus.isTerminal : TaskStatus → Bool
  | .completed | .failed => true
  | .pending | .dispatched => false

/-- One operation of an expression. -/
structure Task where
  id : TaskId
  /-- The expression that the task belongs to. -/
  owner : ExpressionId
  operation : Operation
  left : Argument
  right : Argument
  /-- How long a worker holds the task before it reports. -/
  duration : Span
  status : TaskStatus
  /-- Set once the task is completed. -/
  result : Option Float
  /-- Set once the task has failed. -/
  error : Option String
  /-- The tasks that must be completed before this one can be handed out. -/
  dependencies : List TaskId
  /-- When the lease of the present worker runs out. -/
  lease : Option Instant
  created : Instant
deriving DecidableEq

/-- The tasks that a pair of operands waits for, the left one first; a task that stands on both sides
is listed once. -/
def Argument.dependencies (left right : Argument) : List TaskId :=
  match left.dependency?, right.dependency? with
  | some a, some b => if a = b then [a] else [a, b]
  | some a, none => [a]
  | none, some b => [b]
  | none, none => []

theorem Argument.mem_dependencies_iff {left right : Argument} {id : TaskId} :
    id ∈ left.dependencies right ↔ left.dependency? = some id ∨ right.dependency? = some id := by
  unfold Argument.dependencies
  cases hl : left.dependency? with
  | none => cases hr : right.dependency? <;> simp [eq_comm]
  | some a =>
    cases hr : right.dependency? with
    | none => simp [eq_comm]
    | some b =>
      by_cases hab : a = b
      · simp [hab, eq_comm]
      · simp [hab, eq_comm]

/-- A task that nobody has worked on. -/
def Task.fresh (id : TaskId) (owner : ExpressionId) (operation : Operation) (left right : Argument)
    (duration : Span) (created : Instant) : Task where
  id := id
  owner := owner
  operation := operation
  left := left
  right := right
  duration := duration
  status := .pending
  result := none
  error := none
  dependencies := left.dependencies right
  lease := none
  created := created

/-- The task as it was before anybody worked on it. -/
def Task.plain (t : Task) : Task :=
  .fresh t.id t.owner t.operation t.left t.right t.duration t.created

@[simp]
theorem Task.plain_fresh (id : TaskId) (owner : ExpressionId) (operation : Operation)
    (left right : Argument) (duration : Span) (created : Instant) :
    (Task.fresh id owner operation left right duration created).plain
      = .fresh id owner operation left right duration created := rfl

/-- Tasks that were the same before anybody worked on them ask for the same work. -/
theorem Task.work_eq_of_plain_eq {t u : Task} (h : t.plain = u.plain) :
    t.id = u.id ∧ t.owner = u.owner ∧ t.operation = u.operation ∧ t.left = u.left ∧
      t.right = u.right ∧ t.duration = u.duration := by
  simp only [Task.plain, Task.fresh, Task.mk.injEq] at h
  exact ⟨h.1, h.2.1, h.2.2.1, h.2.2.2.1, h.2.2.2.2.1, h.2.2.2.2.2.1⟩

/-! ## Assignments, outcomes and reports -/

/-- What a worker is given: a task with both operands as numbers. -/
structure Assignment where
  id : TaskId
  owner : ExpressionId
  operation : Operation
  left : Float
  right : Float
  duration : Span
deriving DecidableEq

/-- How a task ends. -/
inductive Outcome where
  | completed (value : Float)
  | failed (reason : String)
deriving DecidableEq

/-- The status that a task has after an outcome. -/
def Outcome.status : Outcome → TaskStatus
  | .completed _ => .completed
  | .failed _ => .failed

/-- The two statuses that a worker may report. -/
inductive ReportStatus where
  | completed
  | failed
deriving DecidableEq, Repr

/-- A worker's report on one task. -/
structure Report where
  task : TaskId
  status : ReportStatus
  result : Option Float
  error : Option String
deriving DecidableEq

/-- The report of an outcome. -/
def Report.ofOutcome (task : TaskId) : Outcome → Report
  | .completed value => ⟨task, .completed, some value, none⟩
  | .failed reason => ⟨task, .failed, none, some reason⟩

/-- A report of success that carries no result. -/
structure ReportFault where
  task : TaskId
deriving DecidableEq, Repr

/-- The wording of the fault. -/
def ReportFault.message (fault : ReportFault) : String :=
  "report for task " ++ fault.task.text ++ " is completed but carries no result"

/-- The reason recorded for a failure that was reported without one. -/
def Report.defaultReason : String := "worker reported an error"

/-- The outcome that a report stands for.  What does not belong to the reported status is ignored. -/
def Report.outcome (report : Report) : Except ReportFault Outcome :=
  match report.status with
  | .completed =>
    match report.result with
    | some value => .ok (.completed value)
    | none => .error ⟨report.task⟩
  | .failed => .ok (.failed (report.error.getD Report.defaultReason))

/-- A report made from an outcome stands for that outcome. -/
theorem Report.outcome_ofOutcome (task : TaskId) (o : Outcome) :
    (Report.ofOutcome task o).outcome = .ok o := by
  cases o <;> rfl

/-- Applies the operation of an assignment: what an honest worker reports. -/
def Assignment.outcome (a : Assignment) : Outcome :=
  match a.operation.apply a.left a.right with
  | .ok value => .completed value
  | .error fault => .failed fault.message

end Piecework
