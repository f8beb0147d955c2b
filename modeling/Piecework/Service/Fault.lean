/-
# Piecework.Service.Fault — why the service refuses, and which status says so.

A caller is told what it got wrong by the class of the status: a text that is no expression or a report
that makes no sense cannot be processed, what is not there is not found, what has ended is in conflict.
Only what the store finds unsound in its own data is a failure of the service itself.
-/
import Piecework.Postfix
import Piecework.Store

namespace Piecework

/-- Why the service refuses. -/
inductive ServiceFault where
  /-- The text is not an expression. -/
  | compile (fault : CompileFault)
  | unknownExpression (expression : ExpressionId)
  | unknownTask (task : TaskId)
  /-- No task could be handed out. -/
  | noTask
  /-- A text that was given as an identity is none. -/
  | invalidId (text : String)
  /-- The task has ended before. -/
  | conflict (fault : TransitionFault)
  /-- The report stands for no outcome. -/
  | invalidReport (fault : ReportFault)
  /-- The store found its data unsound. -/
  | storage (fault : StoreFault)
deriving DecidableEq, Repr

namespace ServiceFault

/-- What a refusal of the store means to the caller of the service. -/
def ofStore : StoreFault → ServiceFault
  | .unknownTask task => .unknownTask task
  | .unknownExpression expression => .unknownExpression expression
  | .ended fault => .conflict fault
  | fault => .storage fault

/-- The wording of a fault. -/
def message : ServiceFault → String
  | .compile fault => fault.message
  | .unknownExpression expression => "not found: expression " ++ expression.text
  | .unknownTask task => "not found: task " ++ task.text
  | .noTask => "not found: no task available"
  | .invalidId text => "invalid id: " ++ text
  | .conflict fault => "conflict: " ++ fault.message
  | .invalidReport fault => fault.message
  | .storage fault => "storage error: " ++ fault.message

/-- The status of an answer that carries the fault. -/
def status : ServiceFault → Nat
  | .compile _ | .invalidReport _ => 422
  | .unknownExpression _ | .unknownTask _ | .noTask => 404
  | .invalidId _ => 400
  | .conflict _ => 409
  | .storage _ => 500

end ServiceFault

end Piecework
