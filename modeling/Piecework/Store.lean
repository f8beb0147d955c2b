/-
# Piecework.Store — expressions and tasks, and the tasks that wait for a worker.

The store holds every accepted expression and all tasks in the order in which they came.  Beside them
it keeps the pool of tasks that may still be handed out: a task leaves the pool when it ends, and all
tasks of an expression leave it when the expression fails.  The order of the pool is the order of
creation, so the first candidate is the oldest.

Every operation answers with a value or a fault, and with the store as it is afterwards.
-/
import Piecework.Dependency
import Piecework.Lease
import Piecework.Propagation
import Piecework.Registry

namespace Piecework

/-- Why the store refuses. -/
inductive StoreFault where
  | unknownTask (task : TaskId)
  | unknownExpression (expression : ExpressionId)
  | duplicateExpression (expression : ExpressionId)
  | duplicateTask (task : TaskId)
  | unsound (fault : GraphFault)
  | ended (fault : TransitionFault)
  /-- An expression without tasks. -/
  | noTasks (expression : ExpressionId)
  /-- The tasks are not the ones that the expression lists. -/
  | listMismatch (expression : ExpressionId)
  /-- Some tasks belong to another expression. -/
  | foreignTasks (expression : ExpressionId)
  /-- An operand refers to a task without result. -/
  | resultMissing (task : TaskId)
  /-- The deadline of a lease lies beyond the calendar. -/
  | beyondCalendar
deriving DecidableEq, Repr

/-- The wording of a fault. -/
def StoreFault.message : StoreFault → String
  | .unknownTask task => "Not found: task " ++ task.text
  | .unknownExpression expression => "Not found: expression " ++ expression.text
  | .duplicateExpression expression => "Already exists: expression " ++ expression.text
  | .duplicateTask task => "Already exists: task " ++ task.text
  | .unsound fault => "Invalid task graph: " ++ fault.message
  | .ended fault => "Conflict: " ++ fault.message
  | .noTasks expression => "expression " ++ expression.text ++ " has no tasks"
  | .listMismatch expression =>
    "task list of expression " ++ expression.text ++ " does not match its tasks"
  | .foreignTasks expression => "tasks do not belong to expression " ++ expression.text
  | .resultMissing task => "result of task " ++ task.text ++ " is not available"
  | .beyondCalendar => "deadline is beyond the calendar"

/-- Chooses among the tasks that could be handed out. -/
abbrev Selector := List Task → Option Task

/-- Takes the oldest candidate. -/
def Selector.oldest : Selector := List.head?

/-- Takes the youngest candidate. -/
def Selector.youngest : Selector := List.getLast?

/-- Accepted expressions and their tasks. -/
structure Store where
  /-- In the order of acceptance. -/
  expressions : Registry ExpressionId Expression
  /-- In the order of creation. -/
  tasks : Registry TaskId Task
  /-- The tasks that may still be handed out, in the order of creation. -/
  pool : List TaskId
deriving DecidableEq

namespace Store

/-- The store without expressions. -/
def empty : Store := ⟨.empty, .empty, []⟩

/-! ## Looking -/

/-- The task of an identity. -/
def task? (s : Store) (id : TaskId) : Option Task := s.tasks.get? id

/-- The expression of an identity. -/
def expression? (s : Store) (id : ExpressionId) : Option Expression := s.expressions.get? id

/-- All expressions in the order of acceptance. -/
def list (s : Store) : List Expression := s.expressions.values

/-- The tasks of an expression in the order of compilation. -/
def tasksIn (s : Store) (e : Expression) : List Task := e.tasks.filterMap s.task?

/-- The tasks of the expression of an identity. -/
def tasksOf? (s : Store) (id : ExpressionId) : Option (List Task) := (s.expression? id).map s.tasksIn

/-- An expression together with its tasks. -/
def view? (s : Store) (id : ExpressionId) : Option View :=
  (s.expression? id).map fun e => e.withTasks (s.tasksIn e)

/-- Whether a task could be handed out now. -/
def isReady (s : Store) (t : Task) : Bool := t.status = .pending && t.resolution s.task? = .ready

/-- The tasks that could be handed out now, oldest first. -/
def candidates (s : Store) : List Task := (s.pool.filterMap s.task?).filter s.isReady

/-- The task that would be handed out now. -/
def next? (s : Store) (select : Selector) : Option Task := select s.candidates

/-- The number that an operand stands for. -/
def operand (s : Store) : Argument → Except StoreFault Float
  | .literal value => .ok value
  | .output id =>
    match (s.task? id).bind Task.result with
    | some value => .ok value
    | none => .error (.resultMissing id)

/-- What a worker is given for a task. -/
def assignment (s : Store) (t : Task) : Except StoreFault Assignment :=
  match s.operand t.left with
  | .error fault => .error fault
  | .ok left =>
    match s.operand t.right with
    | .error fault => .error fault
    | .ok right => .ok ⟨t.id, t.owner, t.operation, left, right, t.duration⟩

/-! ## Accepting expressions -/

/-- The first reason not to accept an expression with its tasks. -/
def refusal (s : Store) (e : Expression) (tasks : List Task) : Option StoreFault :=
  if tasks.isEmpty then some (.noTasks e.id)
  else if tasks.map Task.id ≠ e.tasks then some (.listMismatch e.id)
  else if tasks.any fun t => t.owner ≠ e.id then some (.foreignTasks e.id)
  else
    match Batch.validate tasks with
    | .error fault => some (.unsound fault)
    | .ok () =>
      if s.expressions.contains e.id then some (.duplicateExpression e.id)
      else (tasks.find? fun t => s.tasks.contains t.id).map fun t => .duplicateTask t.id

/-- The store with an expression and its tasks behind all others. -/
def accept (s : Store) (e : Expression) (tasks : List Task) : Store where
  expressions := s.expressions.push e.id e
  tasks := s.tasks.append (tasks.map fun t => (t.id, t))
  pool := s.pool ++ tasks.map Task.id

/-- Accepts an expression with its tasks, or says why not. -/
def put (s : Store) (e : Expression) (tasks : List Task) : Except StoreFault Unit × Store :=
  match s.refusal e tasks with
  | some fault => (.error fault, s)
  | none => (.ok (), s.accept e tasks)

/-! ## Handing tasks out -/

/-- The store with a task in another state. -/
def setTask (s : Store) (t : Task) : Store := { s with tasks := s.tasks.set t.id t }

/-- Hands the selected task out under a lease. -/
def claim (s : Store) (select : Selector) (policy : LeasePolicy) (now : Instant) :
    Except StoreFault (Option Assignment) × Store :=
  match s.next? select with
  | none => (.ok none, s)
  | some t =>
    match s.assignment t with
    | .error fault => (.error fault, s)
    | .ok a =>
      match policy.deadline? now t.duration with
      | none => (.error .beyondCalendar, s)
      | some deadline =>
        (.ok (some a), s.setTask { t with status := .dispatched, lease := some deadline })

/-- Whether a lease has run out on a task of the pool. -/
def hasLapsed (s : Store) (now : Instant) (id : TaskId) : Bool :=
  (s.task? id).any fun t => t.isLapsed now

/-- The task without its lease. -/
def release (t : Task) : Task := { t with status := .pending, lease := none }

/-- Takes lapsed leases back: the tasks in the pool whose lease has run out are pending again. -/
def reap (s : Store) (now : Instant) : List TaskId × Store :=
  let lapsed := s.pool.filter (s.hasLapsed now)
  -- All of the pool is stored, so the second case of the walk does not come up.
  (lapsed, lapsed.foldl (fun s id => match s.task? id with
    | some t => s.setTask (release t)
    | none => s) s)

/-! ## Taking reports -/

/-- Takes tasks out of the pool. -/
def close (s : Store) (ids : List TaskId) : Store := { s with pool := s.pool.filter fun id => id ∉ ids }

/-- The store with an expression in another state. -/
def setExpression (s : Store) (e : Expression) : Store :=
  { s with expressions := s.expressions.set e.id e }

/-- Moves the owner of a task that has just ended.  A failure closes all tasks of the expression. -/
def settle (s : Store) (t : Task) (now : Instant) : Except StoreFault ExpressionStatus × Store :=
  match s.expression? t.owner with
  | none => (.error (.unknownExpression t.owner), s)
  | some e =>
    let moved := e.reconcile s.task? t now
    let s := s.setExpression moved
    -- A second failure finds the tasks closed already.
    (.ok moved.status, if moved.status = .failed ∧ e.status ≠ .failed then s.close e.tasks else s)

/-- Records the outcome of a task and moves its expression. -/
def report (s : Store) (id : TaskId) (o : Outcome) (now : Instant) :
    Except StoreFault ExpressionStatus × Store :=
  match s.task? id with
  | none => (.error (.unknownTask id), s)
  | some t =>
    match t.record o with
    | .error fault => (.error (.ended fault), s)
    | .ok ended => ((s.setTask ended).close [id]).settle ended now

end Store

end Piecework
