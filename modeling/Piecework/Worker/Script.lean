/-
# Piecework.Worker.Script — a source of tasks that follows a script.

A script lists what the fetches are answered with, and tells for each task which of the reports on it are
refused: the first, the second, and so on.  Once the list is used up there are no tasks.
-/
import Piecework.Worker

namespace Piecework

/-- Why the first, the second, … of some reports is refused, if it is. -/
def Refusals := Nat → Option String

/-- All reports are answered alike. -/
instance : Coe (Option String) Refusals := ⟨fun refusal _ => refusal⟩

/-- Prepared answers for a worker. -/
structure Script where
  /-- What the next fetches are answered with. -/
  answers : List (Except String (Option Assignment))
  /-- Why the next reports on a task are refused. -/
  refusal : TaskId → Refusals

namespace Script

/-- The script behind a report on a task. -/
def behindReport (s : Script) (task : TaskId) : Script :=
  { s with refusal := fun id => if id = task then fun n => s.refusal id (n + 1) else s.refusal id }

/-- The script as a source of tasks. -/
def source : TaskSource Script String where
  fetch s := match s.answers with
    | [] => .look s (.ok none)
    | answer :: rest => .look { s with answers := rest } answer
  report s r := .look (s.behindReport r.task) <| match s.refusal r.task 0 with
    | some reason => .error reason
    | none => .ok ()
  wording reason := reason

/-- Enough rounds for a shift whose pauses between cycles without an accepted report last at least a tick:
each round uses an answer up or takes time. -/
def rounds (s : Script) (shift : Shift) : Nat := s.answers.length + shift.stop.getD 0 + 2

end Script

end Piecework
