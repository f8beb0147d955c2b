/-
# Piecework.Dependency — which tasks can run, and which batches are sound.

A task is ready when all tasks it depends on are completed.  A batch of tasks is sound when every task
depends only on earlier ones of the batch; it is then in an order in which it can run, and has no
cycles.
-/
import Piecework.Registry
import Piecework.Task

namespace Piecework

/-- How a task stands towards the tasks it depends on. -/
inductive Resolution where
  /-- All are completed. -/
  | ready
  /-- These are not completed or not known. -/
  | blocked (on : List TaskId)
  /-- These have failed, so the task can never run. -/
  | failed (on : List TaskId)
deriving DecidableEq, Repr

/-- How a task stands towards the tasks it depends on, as far as they are known. -/
def Task.resolution (known : TaskId → Option Task) (t : Task) : Resolution :=
  let status (id : TaskId) : Option TaskStatus := (known id).map Task.status
  match t.dependencies.filter fun id => status id = some .failed with
  | id :: more => .failed (id :: more)
  | [] =>
    match t.dependencies.filter fun id => status id ≠ some .completed with
    | id :: more => .blocked (id :: more)
    | [] => .ready

/-- A task is ready when all that it depends on is completed. -/
theorem Task.resolution_eq_ready_iff {known : TaskId → Option Task} {t : Task} :
    t.resolution known = .ready ↔
      ∀ id ∈ t.dependencies, (known id).map Task.status = some .completed := by
  unfold Task.resolution
  constructor
  · intro h id hid
    dsimp only at h
    split at h
    · exact absurd h (by simp)
    · split at h
      · exact absurd h (by simp)
      · rename_i hnil
        simpa using List.filter_eq_nil_iff.mp hnil id hid
  · intro h
    have hfailed : t.dependencies.filter
        (fun id => (known id).map Task.status = some .failed) = [] :=
      List.filter_eq_nil_iff.mpr fun id hid => by simp [h id hid]
    have hopen : t.dependencies.filter
        (fun id => (known id).map Task.status ≠ some .completed) = [] :=
      List.filter_eq_nil_iff.mpr fun id hid => by simp [h id hid]
    simp only [hfailed, hopen]

/-- What is not known blocks: a task that depends on one which is taken out cannot run. -/
theorem Task.resolution_erase_ne_ready {known : Registry TaskId Task} {t : Task} {id : TaskId}
    (h : id ∈ t.dependencies) : t.resolution (known.erase id).get? ≠ .ready := by
  intro hready
  have hstatus := Task.resolution_eq_ready_iff.mp hready id h
  rw [Registry.get?_erase, if_pos rfl] at hstatus
  cases hstatus

/-- Why a batch is not sound. -/
inductive GraphFault where
  /-- A task stands twice in the batch. -/
  | duplicate (task : TaskId)
  /-- A task depends on one that is not earlier in the batch. -/
  | unknownDependency (task dependency : TaskId)
  /-- A task belongs to another expression than the first one. -/
  | foreign (task : TaskId)
deriving DecidableEq, Repr

/-- The wording of a fault. -/
def GraphFault.message : GraphFault → String
  | .duplicate task => "duplicate task " ++ task.text
  | .unknownDependency task dependency =>
    "task " ++ task.text ++ " depends on " ++ dependency.text
      ++ ", which is not an earlier task of the batch"
  | .foreign task => "task " ++ task.text ++ " belongs to a different expression"

namespace Batch

/-- Checks the tasks from some place on; `seen` holds the ones before. -/
def check (owner : ExpressionId) : List TaskId → List Task → Except GraphFault Unit
  | _, [] => .ok ()
  | seen, t :: rest =>
    if t.owner ≠ owner then .error (.foreign t.id)
    else
      match t.dependencies.find? fun id => id ∉ seen with
      | some dependency => .error (.unknownDependency t.id dependency)
      | none => if t.id ∈ seen then .error (.duplicate t.id) else check owner (t.id :: seen) rest

/-- Checks a batch.  The first task says which expression it belongs to. -/
def validate : List Task → Except GraphFault Unit
  | [] => .ok ()
  | t :: rest => check t.owner [] (t :: rest)

end Batch

end Piecework
