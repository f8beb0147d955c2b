/-
# Piecework.Proofs.Store.Status — the status of an expression says where its tasks stand.

When a task ends, its expression is moved by a rule that looks at this one task for a failure, and not at
all once the expression has ended.  Over every use of a store this comes to a rule over all tasks: an
expression has failed when some task has, is completed when all tasks are, and has the result of its
last task then (`Reachable.status_of_tasks`).  What carries it is that the rule holds before every step
(`Settled`), so a move by one task is a move by all of them.
-/
import Piecework.Proofs.Store.Reachable

namespace Piecework

/-- A task has a result when it is completed and a reason when it has failed, and only then. -/
structure Task.Consistent (t : Task) : Prop where
  result : t.status = .completed ↔ t.result.isSome
  error : t.status = .failed ↔ t.error.isSome

/-- An expression stands as all its tasks say. -/
structure ExpressionOf.Settled (known : TaskId → Option Task) (e : Expression) : Prop where
  failed_iff : e.status = .failed ↔ ∃ id ∈ e.tasks, (known id).map Task.status = some .failed
  completed_iff : e.status = .completed ↔ ∀ id ∈ e.tasks, (known id).map Task.status = some .completed
  result : e.result = if e.status = .completed then Expression.finalResult e known else none

namespace ExpressionOf.Settled

variable {known later : TaskId → Option Task} {e : Expression}

/-- Only tasks that have ended count. -/
theorem congr (h : e.Settled known)
    (hsame : ∀ id ∈ e.tasks, later id = known id ∨ ∃ t t', known id = some t ∧ later id = some t' ∧
      t.status.isTerminal = false ∧ t'.status.isTerminal = false) : e.Settled later := by
  -- Both rules ask for terminal statuses only, and tasks that have one are as they were.
  have hstatus : ∀ status : TaskStatus, status.isTerminal = true → ∀ id ∈ e.tasks,
      ((known id).map Task.status = some status ↔ (later id).map Task.status = some status) := by
    intro status hterm id hid
    rcases hsame id hid with heq | ⟨t, t', ht, ht', hopen, hopen'⟩
    · rw [heq]
    · rw [ht, ht', Option.map_some, Option.map_some, Option.some_inj, Option.some_inj]
      constructor
      · rintro rfl
        exact absurd hterm (by simp [hopen])
      · rintro rfl
        exact absurd hterm (by simp [hopen'])
  refine ⟨?_, ?_, ?_⟩
  · rw [h.failed_iff]
    exact exists_congr fun id => and_congr_right fun hid => hstatus .failed rfl id hid
  · rw [h.completed_iff]
    exact forall₂_congr fun id hid => hstatus .completed rfl id hid
  · rw [h.result]
    by_cases hc : e.status = .completed
    · rw [if_pos hc, if_pos hc]
      unfold Expression.finalResult finalTask?
      cases hlast : e.tasks.getLast? with
      | none => rfl
      | some id =>
        have hid : id ∈ e.tasks := List.mem_of_getLast? hlast
        have hdone := h.completed_iff.mp hc id hid
        rcases hsame id hid with heq | ⟨t, _, ht, -, hopen, -⟩
        · rw [Option.bind_some, Option.bind_some, heq]
        · rw [ht, Option.map_some, Option.some_inj] at hdone
          simp [hdone, TaskStatus.isTerminal] at hopen
    · rw [if_neg hc, if_neg hc]

/-- A fresh expression waits for all its tasks. -/
theorem fresh (hf : e.IsFresh) (hne : e.tasks ≠ [])
    (hpending : ∀ id ∈ e.tasks, (known id).map Task.status = some .pending) : e.Settled known := by
  have hstatus : e.status = .pending := by rw [hf]; rfl
  have hresult : e.result = none := by rw [hf]; rfl
  obtain ⟨first, hfirst⟩ := List.exists_mem_of_ne_nil _ hne
  refine ⟨?_, ?_, ?_⟩
  · simp only [hstatus, reduceCtorEq, false_iff]
    rintro ⟨id, hid, hfailed⟩
    simp [hpending id hid] at hfailed
  · simp only [hstatus, reduceCtorEq, false_iff]
    intro hall
    have hdone := hall first hfirst
    simp [hpending first hfirst] at hdone
  · simp [hstatus, hresult]

theorem allCompleted_iff {e : Expression} {known : TaskId → Option Task} :
    Expression.allCompleted e known = true ↔
      ∀ id ∈ e.tasks, (known id).map Task.status = some .completed := by
  rw [Expression.allCompleted, List.all_eq_true]
  refine forall₂_congr ?_
  intro id _
  cases known id <;> simp

/-- Where no other task has failed, the move by one task is the move by all of them. -/
theorem nextStatus_iff {t : Task} (hmem : t.id ∈ e.tasks) (hnew : later t.id = some t)
    (hother : ∀ id ∈ e.tasks, id ≠ t.id → (later id).map Task.status ≠ some .failed) :
    (Expression.nextStatus e later t = .failed ↔
        ∃ id ∈ e.tasks, (later id).map Task.status = some .failed) ∧
      (Expression.nextStatus e later t = .completed ↔
        ∀ id ∈ e.tasks, (later id).map Task.status = some .completed) := by
  have htask : (later t.id).map Task.status = some t.status := by rw [hnew, Option.map_some]
  unfold Expression.nextStatus
  by_cases hfail : t.status = .failed
  · rw [if_pos hfail]
    rw [hfail] at htask
    refine ⟨⟨fun _ => ⟨t.id, hmem, htask⟩, fun _ => rfl⟩, ?_⟩
    simp only [reduceCtorEq, false_iff]
    intro hall
    have hdone := hall t.id hmem
    rw [htask] at hdone
    exact absurd hdone (by simp)
  -- Neither this task has failed nor any other, so looking at this one was enough.
  · have hnone : ¬∃ id ∈ e.tasks, (later id).map Task.status = some .failed := by
      rintro ⟨id, hid, hfailed⟩
      by_cases hne : id = t.id
      · rw [hne, htask, Option.some_inj] at hfailed
        exact hfail hfailed
      · exact hother id hid hne hfailed
    rw [if_neg hfail, ← allCompleted_iff, iff_false_right hnone]
    split
    · rename_i hall
      exact ⟨by simp, fun _ => hall, fun _ => rfl⟩
    · rename_i hall
      exact ⟨by simp, by simp, fun hc => absurd hc hall⟩

/-- A failed expression stands as all tasks say as long as the failure that it has seen is there. -/
theorem of_failed (h : e.Settled known) (hs : e.status = .failed)
    (hstays : ∀ id ∈ e.tasks, (known id).map Task.status = some .failed → later id = known id) :
    e.Settled later := by
  obtain ⟨id, hid, hfailed⟩ := h.failed_iff.mp hs
  rw [← hstays id hid hfailed] at hfailed
  refine ⟨⟨fun _ => ⟨id, hid, hfailed⟩, fun _ => hs⟩, ?_, ?_⟩
  · simp only [hs, reduceCtorEq, false_iff]
    intro hall
    simp [hall id hid] at hfailed
  · rw [h.result, hs]
    rfl

/-- One task of an expression changes that has not ended, and the expression moves by this task alone:
then it stands as all tasks say, if it did before. -/
theorem reconcile {t u : Task} (now : Instant) (h : e.Settled known) (hmem : t.id ∈ e.tasks)
    (hold : known t.id = some u) (hopen : u.status.isTerminal = false) (hnew : later t.id = some t)
    (hother : ∀ id ∈ e.tasks, id ≠ t.id → later id = known id) :
    (Expression.reconcile e later t now).Settled later := by
  have hne : ∀ id status, (known id).map Task.status = some status → status.isTerminal = true →
      id ≠ t.id := by
    rintro id status hs hterm rfl
    rw [hold, Option.map_some, Option.some_inj] at hs
    rw [← hs, hopen] at hterm
    exact absurd hterm (by simp)
  unfold Expression.reconcile
  cases hs : e.status with
  | failed =>
    -- A failed expression does not look at its tasks again, but the failure that it has seen is still there.
    exact h.of_failed hs fun id hid hfailed => hother id hid (hne id _ hfailed rfl)
  -- A completed expression has no task left that could end.
  | completed => exact absurd rfl (hne t.id _ (h.completed_iff.mp hs t.id hmem) rfl)
  | pending =>
    have hnone : ∀ id ∈ e.tasks, id ≠ t.id → (later id).map Task.status ≠ some .failed := by
      intro id hid hid' hfailed
      rw [hother id hid hid'] at hfailed
      have hbefore := h.failed_iff.mpr ⟨id, hid, hfailed⟩
      simp [hs] at hbefore
    have hresult : e.result = none := by
      rw [h.result, hs]
      rfl
    obtain ⟨hfailed, hcompleted⟩ := nextStatus_iff hmem hnew hnone
    rw [if_neg (by simp [ExpressionStatus.isTerminal])]
    refine ⟨hfailed, hcompleted, ?_⟩
    cases hnext : Expression.nextStatus e later t with
    | pending => simp [hresult]
    | completed =>
      simp only [if_true]
      rfl
    | failed => simp

theorem pending_iff (h : e.Settled known) :
    e.status = .pending ↔ (¬∃ id ∈ e.tasks, (known id).map Task.status = some .failed) ∧
      ¬∀ id ∈ e.tasks, (known id).map Task.status = some .completed := by
  rw [← h.failed_iff, ← h.completed_iff]
  cases e.status <;> simp

/-- Nothing but a completed expression has a result, and every such has one. -/
theorem result_isSome_iff (h : e.Settled known) (hne : e.tasks ≠ [])
    (hcons : ∀ {id t}, known id = some t → t.Consistent) :
    e.result.isSome ↔ e.status = .completed := by
  constructor
  · intro hsome
    rw [h.result] at hsome
    split at hsome
    · assumption
    · exact absurd hsome (by simp)
  · intro hc
    obtain ⟨id, hlast⟩ := Option.isSome_iff_exists.mp (List.getLast?_isSome.mpr hne)
    have hdone := h.completed_iff.mp hc id (List.mem_of_getLast? hlast)
    obtain ⟨t, ht, hstatus⟩ := Option.map_eq_some_iff.mp hdone
    rw [h.result, if_pos hc, Expression.finalResult, finalTask?, hlast, Option.bind_some, ht,
      Option.bind_some]
    exact (hcons ht).result.mp hstatus

theorem last_of_result (h : e.Settled known) {r : Float} (hr : e.result = some r) :
    ∃ id t, e.tasks.getLast? = some id ∧ known id = some t ∧ t.result = some r := by
  rw [h.result] at hr
  split at hr
  · obtain ⟨id, hlast, hr⟩ := Option.bind_eq_some_iff.mp hr
    obtain ⟨t, ht, hr⟩ := Option.bind_eq_some_iff.mp hr
    exact ⟨id, t, hlast, ht, hr⟩
  · exact absurd hr (by simp)

end ExpressionOf.Settled

theorem Task.Consistent.of_isFresh {t : Task} (h : t.IsFresh) : t.Consistent := by
  rw [← h]
  exact ⟨by simp [Task.plain, Task.fresh], by simp [Task.plain, Task.fresh]⟩

namespace Store

variable {s : Store}

theorem Moves.consistent {c : Change} {t t' : Task} (h : Moves c t t') (ht : t.Consistent) :
    t'.Consistent := by
  cases h with
  | stays => exact ht
  | dispatched _ hs =>
    have hr := ht.result
    have he := ht.error
    rw [hs] at hr he
    exact ⟨by simpa using hr, by simpa using he⟩
  | released _ hs =>
    have hr := ht.result
    have he := ht.error
    rw [hs] at hr he
    exact ⟨by simpa [release] using hr, by simpa [release] using he⟩
  | ended o _ _ => cases o <;> exact ⟨by simp [Task.ended], by simp [Task.ended]⟩

/-! ## The rule in a store -/

/-- All tasks of a store are consistent, and all expressions stand as their tasks say. -/
structure Settled (s : Store) : Prop where
  tasks : ∀ {id t}, s.task? id = some t → t.Consistent
  expressions : ∀ {x e}, s.expression? x = some e → e.Settled s.task?

namespace Settled

theorem empty : Settled .empty :=
  ⟨fun h => absurd h (by simp [task?, Store.empty]),
    fun h => absurd h (by simp [expression?, Store.empty])⟩

/-- What waits or is handed out may be written again as long as it has not ended. -/
theorem setTask (hs : Settled s) {c : Change} {t t' : Task} (ht : s.task? t.id = some t)
    (hm : Moves c t t') (hopen : t.status.isTerminal = false)
    (hopen' : t'.status.isTerminal = false) : Settled (s.setTask t') := by
  obtain ⟨hid, -⟩ := Task.work_eq_of_plain_eq hm.plain
  have hstored : s.task? t'.id = some t := hid ▸ ht
  refine ⟨?_, ?_⟩
  · intro id v hv
    rw [task?_setTask hstored] at hv
    split at hv
    · rw [Option.some_inj] at hv
      exact hv ▸ hm.consistent (hs.tasks ht)
    · exact hs.tasks hv
  · intro x e he
    refine (hs.expressions he).congr ?_
    intro id _
    rw [task?_setTask hstored]
    by_cases hx : id = t'.id
    · exact Or.inr ⟨t, t', hx ▸ hstored, if_pos hx, hopen, hopen'⟩
    · exact Or.inl (if_neg hx)

theorem accept (hs : Settled s) (h : Sound s) {e : Expression} {tasks : List Task}
    (hr : s.refusal e tasks = none) (he : e.IsFresh) (ht : ∀ t ∈ tasks, t.IsFresh) :
    Settled (s.accept e tasks) := by
  obtain ⟨hne, hlist, -⟩ := refusal_eq_none_iff.mp hr
  refine ⟨?_, ?_⟩
  · intro id t hid
    rcases task?_accept_cases hid with hid | ⟨hmem, -⟩
    · exact hs.tasks hid
    · exact .of_isFresh (ht t hmem)
  · intro x f hf
    rcases expression?_accept_cases hf with hf | ⟨-, rfl⟩
    · refine (hs.expressions hf).congr fun id hid => Or.inl ?_
      obtain ⟨t, hstored, -⟩ := h.owned hf id hid
      rw [task?_accept_of_stored hstored, hstored]
    · refine .fresh he (hlist ▸ by simpa using hne) ?_
      intro id hid
      rw [← hlist] at hid
      obtain ⟨t, hmem, rfl⟩ := List.mem_map.mp hid
      rw [task?_accept_of_mem hr hmem, Option.map_some, ← ht t hmem]
      rfl

/-- The end of a task moves its own expression, and touches no task of another. -/
theorem finish (hs : Settled s) (h : Sound s) {t : Task} (o : Outcome) (now : Instant)
    (ht : s.task? t.id = some t) (hopen : t.status.isTerminal = false) :
    Settled ((Change.finish t o now).apply s) := by
  obtain ⟨e, he, hmem, -, hsound, htask, hexpr⟩ := finish_spec h o now ht
  obtain ⟨-, hid, -, -⟩ := ended_keeps t o
  refine ⟨?_, ?_⟩
  · intro id v hv
    rw [htask] at hv
    split at hv
    · rw [Option.some_inj] at hv
      exact hv ▸ (Moves.ended o now hopen).consistent (hs.tasks ht)
    · exact hs.tasks hv
  · intro x f hf
    rw [hexpr] at hf
    split at hf
    · rw [Option.some_inj] at hf
      rw [← hf]
      refine (hs.expressions he).reconcile now (hid ▸ hmem) (hid ▸ ht) hopen ?_ ?_
      · rw [htask, if_pos hid]
      · intro id _ hne
        rw [htask, if_neg (hid ▸ hne)]
    · rename_i hx
      refine (hs.expressions hf).congr fun id hid => Or.inl ?_
      -- No other expression lists the task that ends.
      have hne : id ≠ t.id := by
        rintro rfl
        obtain ⟨u, hu, hown⟩ := h.owned hf t.id hid
        rw [ht, Option.some_inj] at hu
        exact hx (hu ▸ hown.symm)
      rw [htask, if_neg hne]

theorem apply (hs : Settled s) (h : Sound s) {c : Change} (hc : c.Enabled s) (hf : c.IsFresh s) :
    Settled (c.apply s) := by
  rcases Change.step_cases h hc with
    ⟨e, tasks, rfl⟩ | ⟨t, t', hwrite, ht, hm, hopen, hopen'⟩ | ⟨t, o, now, rfl⟩
  · exact hs.accept h hc hf.1 hf.2
  · rw [hwrite]
    exact hs.setTask ht hm hopen hopen'
  · exact hs.finish h o now hc.1 hc.2

end Settled

theorem Reachable.settled (h : Reachable s) : Settled s :=
  h.induct .empty fun _ _ hs hc hf hp => hp.apply hs hc hf

/-- A task that has ended is found as it ended, whatever the store is used for afterwards. -/
theorem Leads.keeps_ended {later : Store} (h : Leads s later) (hs : Sound s) {id : TaskId} {t : Task}
    (ht : s.task? id = some t) (hterm : t.status.isTerminal = true) : later.task? id = some t := by
  refine ((h.path hs).induct (P := fun s => s.task? id = some t) ?_ hs ht).2
  intro s c hs hc _ hp
  obtain ⟨t', ht', hmoves⟩ := Change.moves hs hc hp
  rw [ht', hmoves.eq_of_isTerminal hterm]

/-- In every reachable store every expression stands as all its tasks say: it has failed if one of them
has, is completed if all of them are, and is pending otherwise; it has a result if it is completed, and then
that of its last task.  A report on a task that has not ended is never refused: the answer is where the owner
stands afterwards, and the outcome is there from then on.  Any other report is refused without a trace. -/
theorem Reachable.status_of_tasks (h : Reachable s) :
    (∀ x e, s.expression? x = some e →
      (e.status = .failed ↔ ∃ id ∈ e.tasks, (s.task? id).map Task.status = some .failed) ∧
      (e.status = .completed ↔ ∀ id ∈ e.tasks, (s.task? id).map Task.status = some .completed) ∧
      (e.status = .pending ↔ (¬∃ id ∈ e.tasks, (s.task? id).map Task.status = some .failed) ∧
        ¬∀ id ∈ e.tasks, (s.task? id).map Task.status = some .completed) ∧
      (e.result.isSome ↔ e.status = .completed) ∧
      ∀ r, e.result = some r →
        ∃ id t, e.tasks.getLast? = some id ∧ s.task? id = some t ∧ t.result = some r) ∧
    (∀ id t o now, s.task? id = some t → t.status.isTerminal = false →
      ∃ e, (s.report id o now).1 = .ok e.status ∧
        (s.report id o now).2.expression? t.owner = some e ∧
        ∀ later, Leads (s.report id o now).2 later → later.task? id = some (t.ended o)) ∧
    ∀ id o now, (∀ t, s.task? id = some t → t.status.isTerminal = true) →
      ∃ fault, s.report id o now = (.error fault, s) := by
  have hs := h.sound
  refine ⟨?_, ?_, ?_⟩
  · intro x e he
    have hset := h.settled.expressions he
    exact ⟨hset.failed_iff, hset.completed_iff, hset.pending_iff,
      hset.result_isSome_iff (hs.nonempty he) fun ht => h.settled.tasks ht,
      fun r hr => hset.last_of_result hr⟩
  · intro id t o now ht hopen
    have hid := hs.task_id ht
    subst hid
    obtain ⟨hen, e, hreport, he⟩ := report_of_open hs o now ht hopen
    obtain ⟨-, -, -, -, hsound, htask, -⟩ := finish_spec hs o now ht
    rw [hreport]
    refine ⟨e, rfl, he, fun later hl => hl.keeps_ended hsound ?_ ?_⟩
    · rw [htask, if_pos rfl]
    · cases o <;> rfl
  · intro id o now hclosed
    exact report_of_closed o now hclosed

/-- Reports out of turn: the task that has to wait fails before the one that it waits for is completed. -/
theorem Reachable.status_of_tasks_crossed :
    let first : Task := .fresh ⟨1⟩ ⟨0⟩ .divide (.literal 6) (.literal 3) (.ofMillis 1) .epoch
    let second : Task := .fresh ⟨2⟩ ⟨0⟩ .add (.output ⟨1⟩) (.literal 1) (.ofMillis 1) .epoch
    let e := Expression.fresh ⟨0⟩ "6/3+1" [⟨1⟩, ⟨2⟩] .epoch
    let failed := ((Store.empty.put e [first, second]).2.report ⟨2⟩ (.failed "lost") .epoch).2
    Reachable failed ∧ (∃ e', (failed.report ⟨1⟩ (.completed 2) .epoch).1 = .ok e'.status ∧
        (failed.report ⟨1⟩ (.completed 2) .epoch).2.expression? ⟨0⟩ = some e' ∧ e'.status = .failed) ∧
      ∃ fault, failed.report ⟨2⟩ (.completed 3) .epoch = (.error fault, failed) := by
  intro first second e failed
  have hput : Reachable (Store.empty.put e [first, second]).2 := by
    refine .put .refl rfl ?_
    intro t ht
    rcases List.mem_cons.mp ht with rfl | ht
    · rfl
    · rw [List.mem_singleton.mp ht]
      rfl
  have hfailed : Reachable failed := .report ⟨2⟩ _ _ hput
  have hlate : Reachable (failed.report ⟨1⟩ (.completed 2) .epoch).2 := .report ⟨1⟩ _ _ hfailed
  obtain ⟨-, hopen, hclosed⟩ := hfailed.status_of_tasks
  obtain ⟨e', hanswer, he', -⟩ := hopen ⟨1⟩ first (.completed 2) .epoch rfl rfl
  refine ⟨hfailed, ⟨e', hanswer, he', ?_⟩, hclosed ⟨2⟩ _ _ ?_⟩
  · have hsecond : (failed.report ⟨1⟩ (.completed 2) .epoch).2.task? ⟨2⟩
        = some (second.ended (.failed "lost")) := rfl
    obtain ⟨f, hf, hmem⟩ := hlate.sound.listed hsecond
    obtain rfl : e' = f := Option.some.inj (he'.symm.trans hf)
    exact (hlate.status_of_tasks.1 _ _ hf).1.mpr ⟨⟨2⟩, hmem, rfl⟩
  · intro t ht
    obtain rfl : second.ended (.failed "lost") = t := Option.some.inj ht
    rfl

end Store

end Piecework
