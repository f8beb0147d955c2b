/-
# Piecework.Plan — the tasks of an expression in the order in which they can run.

A postfix sequence is cut into tasks with a stack of operands.  Each operator takes the two most recent
operands, the right one first, and leaves a reference to its own output; so every task stands behind
the tasks it depends on, and the last one yields the value of the expression.  An expression must come
down to one operand and contain at least one operation.
-/
import Piecework.Journal
import Piecework.Postfix
import Piecework.Task

namespace Piecework

/-- How long each operation takes. -/
structure OperationTimes where
  add : Span
  subtract : Span
  multiply : Span
  divide : Span
deriving DecidableEq, Repr

namespace OperationTimes

/-- The same time for every operation. -/
def uniform (s : Span) : OperationTimes := ⟨s, s, s, s⟩

/-- The time of one operation. -/
def of (times : OperationTimes) : Operation → Span
  | .add => times.add
  | .subtract => times.subtract
  | .multiply => times.multiply
  | .divide => times.divide

/-- One second for every operation. -/
def standard : OperationTimes := uniform (.ofMillis 1000)

end OperationTimes

namespace Plan

/-- What all tasks of one expression share, and the names that are free for them. -/
structure Setting where
  owner : ExpressionId
  times : OperationTimes
  /-- The identity of the task made at each place. -/
  name : Nat → TaskId
  now : Instant

/-- The task made at place `n`. -/
def Setting.task (s : Setting) (n : Nat) (operation : Operation) (left right : Argument) : Task :=
  .fresh (s.name n) s.owner operation left right (s.times.of operation) s.now

/-- Makes the tasks from place `n` on, with the operands that are on the stack. -/
def build (s : Setting) : Nat → List Argument → List Postfix.Item → Except CompileFault (List Task)
  | n, stack, [] => if stack.length = 1 ∧ 0 < n then .ok [] else .error .values
  | n, stack, .number value :: rest => build s n (.literal value :: stack) rest
  | n, stack, .operator operation :: rest =>
    match stack with
    | right :: left :: below =>
      match build s (n + 1) (.output (s.name n) :: below) rest with
      | .ok tasks => .ok (s.task n operation left right :: tasks)
      | .error fault => .error fault
    | _ => .error .values

/-- The tasks of a postfix sequence. -/
def ofPostfix (s : Setting) (items : List Postfix.Item) : Except CompileFault (List Task) :=
  build s 0 [] items

/-- Compiles an expression to its tasks. -/
def ofText (s : Setting) (text : String) : Except CompileFault (List Task) :=
  match Postfix.ofText text with
  | .ok items => ofPostfix s items
  | .error fault => .error fault

/-- What compiling an expression has to say. -/
def journal (s : Setting) (text : String) : List Line :=
  match Postfix.ofText text with
  | .error _ => []
  | .ok items =>
    let converted := Line.debug "converted to postfix"
    match ofPostfix s items with
    | .ok _ => [converted, .debug "lowered to tasks"]
    | .error _ => [converted]

end Plan

end Piecework
