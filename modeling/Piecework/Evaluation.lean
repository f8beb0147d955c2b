/-
# Piecework.Evaluation — evaluates one expression from its text to its value.

A service of its own takes the expression in, works all tasks off and shows the expression as it stands
then: completed with a value, or failed at the first operation that has none.
-/
import Piecework.Service

namespace Piecework

/-- An expression after all tasks that could run were worked off. -/
structure Evaluation where
  view : View
  /-- How many tasks were worked off. -/
  executed : Nat

namespace Evaluation

/-- Evaluates an expression on a service that holds nothing else. -/
def ofText (times : OperationTimes) (policy : LeasePolicy) (mint : Mint) (now : Instant)
    (text : String) : Turn Service (Except ServiceFault Evaluation) :=
  let added := (Service.start times policy).add mint now text
  match added.answer with
  | .error fault => added.map fun _ => .error fault
  | .ok id =>
    let drained := (added.state.drainAll now).after added.journal
    drained.map fun answer => answer.bind fun executed =>
      (drained.state.view id).map fun view => ⟨view, executed⟩

end Evaluation

end Piecework
