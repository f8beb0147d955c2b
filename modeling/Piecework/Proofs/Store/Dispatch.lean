/-
# Piecework.Proofs.Store.Dispatch — which task is handed out.

A task can run when it waits, its expression has not failed, and all that it depends on is completed.  A claim
does not look for such tasks among all that are stored, but among those of the pool.  In a reachable store this
comes to the same, in the same order: what the pool offers is the stored tasks, expression by expression and
each in the order of compilation, without those that cannot run (`Reachable.candidates_eq`).

So a claim hands out a task if and only if there is one that can run, and it is the first of them in that order,
however often a lease on it was taken back.  What is handed out are the numbers that the operands stand for, and
nothing is written but the status and the lease of the task (`Reachable.dispatch`).
-/
import Piecework.Proofs.Store.Coherence
import Piecework.Proofs.Store.Progress

namespace Piecework.Store

variable {s : Store}

/-! ## All tasks in order -/

/-- All tasks: expression by expression in the order of acceptance, and those of each in the order of
compilation. -/
def inOrder (s : Store) : List Task := s.list.flatMap s.tasksIn

/-- This is the order of creation. -/
theorem Reachable.inOrder_eq (h : Reachable s) : s.inOrder = s.tasks.keys.filterMap s.task? := by
  rw [h.keys_eq, List.filterMap_flatMap]
  rfl

theorem Reachable.mem_inOrder_iff (h : Reachable s) {t : Task} :
    t ∈ s.inOrder ↔ s.task? t.id = some t := by
  rw [h.inOrder_eq, List.mem_filterMap]
  constructor
  · rintro ⟨id, -, ht⟩
    rw [h.sound.task_id ht]
    exact ht
  · exact fun ht => ⟨t.id, Registry.mem_keys_iff.mpr ⟨t, ht⟩, ht⟩

/-- The pool holds the open ones among all tasks, in the same order. -/
theorem Reachable.filterMap_pool (h : Reachable s) :
    s.pool.filterMap s.task? = s.inOrder.filter (s.IsOpen ·.id) := by
  rw [h.pool_eq, h.inOrder_eq]
  refine filterMap_task?_filter fun id t ht => ?_
  rw [h.sound.task_id ht]

/-! ## Tasks that can run -/

/-- A task that waits for nothing but a worker: it is stored and pending, its expression has not failed, and all
that it depends on is completed. -/
structure IsRunnable (s : Store) (t : Task) : Prop where
  stored : s.task? t.id = some t
  pending : t.status = .pending
  owner : ∃ e, s.expression? t.owner = some e ∧ e.status ≠ .failed
  dependencies : ∀ d ∈ t.dependencies, ∃ u, s.task? d = some u ∧ u.status = .completed

theorem isRunnable_iff {t : Task} (ht : s.task? t.id = some t) :
    s.IsRunnable t ↔ s.IsOpen t.id ∧ s.isReady t = true := by
  rw [isReady, Bool.and_eq_true, decide_eq_true_eq, decide_eq_true_eq, Task.resolution_eq_ready_iff]
  simp only [Option.map_eq_some_iff]
  constructor
  · rintro ⟨-, hpending, ⟨e, he, hok⟩, hdeps⟩
    exact ⟨⟨t, e, ht, by rw [hpending]; rfl, he, hok⟩, hpending, hdeps⟩
  · rintro ⟨⟨u, e, hu, -, he, hok⟩, hpending, hdeps⟩
    obtain rfl : t = u := Option.some.inj (ht.symm.trans hu)
    exact ⟨ht, hpending, ⟨e, he, hok⟩, hdeps⟩

instance (s : Store) (t : Task) : Decidable (s.IsRunnable t) :=
  decidable_of_iff (s.task? t.id = some t ∧ s.IsOpen t.id ∧ s.isReady t = true)
    ⟨fun h => (isRunnable_iff h.1).mpr h.2, fun h => ⟨h.stored, (isRunnable_iff h.stored).mp h⟩⟩

/-- The candidates are all tasks that can run, in the order of all tasks. -/
theorem Reachable.candidates_eq (h : Reachable s) :
    s.candidates = s.inOrder.filter (s.IsRunnable ·) := by
  rw [candidates, h.filterMap_pool, List.filter_filter]
  refine List.filter_congr fun t ht => ?_
  rw [Bool.eq_iff_iff, decide_eq_true_eq, isRunnable_iff (h.mem_inOrder_iff.mp ht), Bool.and_eq_true,
    decide_eq_true_eq, and_comm]

theorem Reachable.mem_candidates_iff (h : Reachable s) {t : Task} :
    t ∈ s.candidates ↔ s.IsRunnable t := by
  rw [h.candidates_eq, List.mem_filter, h.mem_inOrder_iff, decide_eq_true_eq]
  exact and_iff_right_of_imp IsRunnable.stored

/-- The oldest candidate is the first task that can run, in the order of all tasks. -/
theorem Reachable.next?_oldest_iff (h : Reachable s) {t : Task} :
    s.next? .oldest = some t ↔ ∃ front rest, s.inOrder = front ++ t :: rest ∧ s.IsRunnable t ∧
      ∀ u ∈ front, ¬s.IsRunnable u := by
  show s.candidates.head? = some t ↔ _
  rw [h.candidates_eq, List.head?_filter, List.find?_eq_some_iff_append]
  simp only [decide_eq_true_eq, Bool.not_eq_true', decide_eq_false_iff_not]
  constructor
  · rintro ⟨hrun, front, rest, hsplit, hfront⟩
    exact ⟨front, rest, hsplit, hrun, hfront⟩
  · rintro ⟨front, rest, hsplit, hrun, hfront⟩
    exact ⟨hrun, front, rest, hsplit, hfront⟩

/-- An eager selector finds nothing just where no task can run. -/
theorem Reachable.next?_eq_none_iff (h : Reachable s) {select : Selector} (hl : select.Lawful)
    (he : select.Eager) : s.next? select = none ↔ ∀ t, ¬s.IsRunnable t := by
  constructor
  · intro hnone t hrun
    have hmem := h.mem_candidates_iff.mpr hrun
    rw [he _ hnone] at hmem
    exact absurd hmem List.not_mem_nil
  · intro hnone
    cases hnext : s.next? select with
    | none => rfl
    | some t => exact absurd (h.mem_candidates_iff.mp (hl _ _ hnext)) (hnone t)

/-! ## What is handed out -/

/-- The number that an operand stands for: itself, or the result that is recorded for the task that it refers
to. -/
inductive Reads (s : Store) : Argument → Float → Prop
  | literal (value : Float) : Reads s (.literal value) value
  | output {id : TaskId} {t : Task} {value : Float} :
      s.task? id = some t → t.status = .completed → t.result = some value → Reads s (.output id) value

theorem Reachable.reads_of_operand (h : Reachable s) {a : Argument} {v : Float}
    (ha : s.operand a = .ok v) : s.Reads a v := by
  cases a with
  | literal value =>
    obtain rfl := Except.ok.inj ha
    exact .literal value
  | output id =>
    rw [operand] at ha
    cases hr : (s.task? id).bind Task.result with
    | none => simp [hr] at ha
    | some w =>
      rw [hr] at ha
      obtain rfl := Except.ok.inj ha
      obtain ⟨t, ht, hresult⟩ := Option.bind_eq_some_iff.mp hr
      exact .output ht ((h.settled.tasks ht).result.mpr (by rw [hresult]; rfl)) hresult

/-- A claim hands the selected task out with the numbers that its operands stand for, and writes nothing but its
status and its lease. -/
theorem Reachable.claim_of_next (h : Reachable s) {select : Selector} (hl : select.Lawful)
    {policy : LeasePolicy} {now deadline : Instant} {t : Task} (hnext : s.next? select = some t)
    (hd : policy.deadline? now t.duration = some deadline) :
    ∃ left right, s.Reads t.left left ∧ s.Reads t.right right ∧
      s.claim select policy now = (.ok (some ⟨t.id, t.owner, t.operation, left, right, t.duration⟩),
        s.setTask { t with status := .dispatched, lease := some deadline }) := by
  obtain ⟨a, ha⟩ := h.assignment_of_mem_candidates (hl _ _ hnext)
  obtain ⟨left, right, hleft, hright, rfl⟩ := assignment_eq_ok_iff.mp ha
  refine ⟨left, right, h.reads_of_operand hleft, h.reads_of_operand hright, ?_⟩
  simp only [claim, hnext, ha, hd]

/-- **What is handed out.**  The oldest candidate is the first task that can run, in the order in which
expressions were accepted and then in the order of compilation.  Whatever selector takes one of its candidates
if there are any, it finds a task if and only if one can run, and then one that can run.  As long as the
calendar has the deadline, a claim hands out just that task, with the numbers that its operands stand for; the
task is dispatched then, under a lease up to the deadline, and all else is as it was.  Where nothing can run,
nothing changes. -/
theorem Reachable.dispatch (h : Reachable s) :
    (∀ t, s.next? .oldest = some t ↔ ∃ front rest, s.inOrder = front ++ t :: rest ∧ s.IsRunnable t ∧
      ∀ u ∈ front, ¬s.IsRunnable u) ∧
    ∀ select : Selector, select.Lawful → select.Eager →
      (s.next? select = none ↔ ∀ t, ¬s.IsRunnable t) ∧
      (∀ t, s.next? select = some t → s.IsRunnable t) ∧
      ∀ policy now, (∀ t, s.next? select = some t → (policy.deadline? now t.duration).isSome) →
        let answer := (s.claim select policy now).1
        let later := (s.claim select policy now).2
        ((∃ a, answer = .ok (some a)) ↔ ∃ t, s.IsRunnable t) ∧
        ((∀ t, ¬s.IsRunnable t) → answer = .ok none ∧ later = s) ∧
        ∀ t, s.next? select = some t → ∃ deadline left right,
          policy.deadline? now t.duration = some deadline ∧
          s.Reads t.left left ∧ s.Reads t.right right ∧
          answer = .ok (some ⟨t.id, t.owner, t.operation, left, right, t.duration⟩) ∧
          later.expressions = s.expressions ∧ later.pool = s.pool ∧ later.tasks.keys = s.tasks.keys ∧
          ∀ id, later.task? id
            = if id = t.id then some { t with status := .dispatched, lease := some deadline }
              else s.task? id := by
  refine ⟨fun t => h.next?_oldest_iff, fun select hl he => ?_⟩
  have hfound : ∀ t, s.next? select = some t → s.IsRunnable t :=
    fun t ht => h.mem_candidates_iff.mp (hl _ _ ht)
  have hnone := h.next?_eq_none_iff hl he
  refine ⟨hnone, hfound, fun policy now hd => ?_⟩
  intro answer later
  have hidle : (∀ t, ¬s.IsRunnable t) → s.claim select policy now = (.ok none, s) := by
    intro hno
    simp only [claim, hnone.mpr hno]
  refine ⟨⟨?_, ?_⟩, fun hno => Prod.ext_iff.mp (hidle hno), ?_⟩
  · rintro ⟨a, ha⟩
    by_contra hno
    have hclaim := hidle (not_exists.mp hno)
    exact absurd ((congrArg Prod.fst hclaim).symm.trans ha) (by simp)
  · rintro ⟨t, hrun⟩
    obtain ⟨u, hu⟩ := Option.ne_none_iff_exists'.mp fun hno => hnone.mp hno t hrun
    obtain ⟨deadline, hdeadline⟩ := Option.isSome_iff_exists.mp (hd u hu)
    obtain ⟨left, right, -, -, hclaim⟩ := h.claim_of_next hl hu hdeadline
    exact ⟨_, congrArg Prod.fst hclaim⟩
  · intro t ht
    obtain ⟨deadline, hdeadline⟩ := Option.isSome_iff_exists.mp (hd t ht)
    obtain ⟨left, right, hleft, hright, hclaim⟩ := h.claim_of_next hl ht hdeadline
    have hlater : later = s.setTask { t with status := .dispatched, lease := some deadline } :=
      congrArg Prod.snd hclaim
    refine ⟨deadline, left, right, hdeadline, hleft, hright, congrArg Prod.fst hclaim, ?_⟩
    rw [hlater]
    exact ⟨rfl, rfl, Registry.keys_set _ _ _,
      task?_setTask (t := { t with status := .dispatched, lease := some deadline }) (hfound t ht).stored⟩

/-- The second task of the older expression could not run when the younger expression came, but it can once the
first task is completed.  It is handed out before the task of the younger expression, with the result of the
first task for an operand. -/
theorem Reachable.dispatch_resumed :
    let first : Task := .fresh ⟨1⟩ ⟨0⟩ .divide (.literal 9) (.literal 3) (.ofMillis 1) .epoch
    let second : Task := .fresh ⟨2⟩ ⟨0⟩ .subtract (.output ⟨1⟩) (.literal 2) (.ofMillis 1) .epoch
    let other : Task := .fresh ⟨4⟩ ⟨3⟩ .multiply (.literal 8) (.literal 2) (.ofMillis 1) .epoch
    let s := empty.after [.put (.fresh ⟨0⟩ "9/3-2" [⟨1⟩, ⟨2⟩] .epoch) [first, second],
      .put (.fresh ⟨3⟩ "8*2" [⟨4⟩] .epoch) [other],
      .claim .oldest Selector.lawful_oldest .standard .epoch, .report ⟨1⟩ (.completed 3) .epoch]
    Reachable s ∧ s.next? .oldest = some second ∧ s.IsRunnable other ∧
      (LeasePolicy.standard.deadline? .epoch second.duration).isSome ∧
      (s.claim .oldest .standard .epoch).1 = .ok (some ⟨⟨2⟩, ⟨0⟩, .subtract, 3, 2, .ofMillis 1⟩) := by
  intro first second other s
  have hreachable : Reachable s := reachable_after _
  have hdeadline : (LeasePolicy.standard.deadline? .epoch second.duration).isSome := by decide +kernel
  obtain ⟨holdest, hselected⟩ := Reachable.dispatch hreachable
  have hnext : s.next? .oldest = some second := (holdest second).mpr
    ⟨[first.ended (.completed 3)], [other], by decide +kernel, by decide +kernel, by decide +kernel⟩
  obtain ⟨-, -, hclaims⟩ := hselected .oldest Selector.lawful_oldest Selector.eager_oldest
  obtain ⟨-, -, hhanded⟩ := hclaims .standard .epoch fun t ht => by
    obtain rfl := Option.some.inj (hnext.symm.trans ht)
    exact hdeadline
  obtain ⟨_, left, right, -, hleft, hright, hanswer, -⟩ := hhanded second hnext
  cases hleft with
  | output ht _ hresult =>
    cases hright
    have hdone : (s.task? ⟨1⟩).bind Task.result = some 3 := by decide +kernel
    rw [ht, Option.bind_some, hresult] at hdone
    obtain rfl := Option.some.inj hdone
    exact ⟨hreachable, hnext, by decide +kernel, hdeadline, hanswer⟩

end Piecework.Store
