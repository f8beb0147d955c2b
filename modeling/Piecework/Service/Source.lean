/-
# Piecework.Service.Source — the service as a source of tasks for workers in place.
-/
import Piecework.Service
import Piecework.Worker

namespace Piecework

/-- Fetching hands a task out, and a report is taken as it comes. -/
def Service.source (now : Instant) : TaskSource Service ServiceFault where
  fetch s := s.next now
  report s r := (s.report now r).map (Except.map fun _ => ())
  wording := ServiceFault.message

end Piecework
