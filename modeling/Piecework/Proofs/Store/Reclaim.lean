/-
# Piecework.Proofs.Store.Reclaim — which leases a round takes back, and which it leaves.

A round walks over the pool, so it takes back the lapsed leases on open tasks, in the order of creation, and a
second round at the same time or for an earlier one finds none.  When an expression fails, all its tasks leave
the pool, and some of them may be in the hands of workers.  Their leases lapse like all others, but no round
takes them back: such a task stays dispatched until somebody reports on it (`Reachable.task?_after_halted`).
These are the only leases that a round leaves behind (`Reachable.reclaims`).
-/
import Piecework.Proofs.Store.Dispatch
import Piecework.Proofs.Store.Final

namespace Piecework

theorem Instant.le_iff {a b : Instant} :
    a ≤ b ↔ a.second < b.second ∨ (a.second = b.second ∧ a.nano ≤ b.nano) := by
  show a.le b = true ↔ _
  simp [Instant.le]

theorem Instant.le_trans {a b c : Instant} (hab : a ≤ b) (hbc : b ≤ c) : a ≤ c := by
  rw [Instant.le_iff] at *
  omega

theorem Task.isLapsed_iff {t : Task} {now : Instant} :
    t.isLapsed now = true ↔ t.status = .dispatched ∧ ∃ deadline, t.lease = some deadline ∧ deadline ≤ now := by
  rw [isLapsed, Bool.and_eq_true, decide_eq_true_eq, Option.any_eq_true]
  simp only [decide_eq_true_eq]

/-- A lease that has lapsed stays so. -/
theorem Task.isLapsed_of_le {t : Task} {now later : Instant} (h : t.isLapsed now = true)
    (hle : now ≤ later) : t.isLapsed later = true := by
  obtain ⟨hout, deadline, hlease, hdeadline⟩ := isLapsed_iff.mp h
  exact isLapsed_iff.mpr ⟨hout, deadline, hlease, Instant.le_trans hdeadline hle⟩

namespace Store

variable {s : Store}

/-! ## Tasks of failed expressions -/

/-- Whether the expression of a task has failed. -/
def isHalted (s : Store) (t : Task) : Bool := (s.expression? t.owner).any fun e => e.status = .failed

theorem isHalted_eq_true_iff {t : Task} :
    s.isHalted t = true ↔ ∃ e, s.expression? t.owner = some e ∧ e.status = .failed := by
  simp [isHalted, Option.any_eq_true]

/-- The pool holds a task that has not ended as long as its expression has not failed. -/
theorem Reachable.mem_pool_iff_isHalted (h : Reachable s) {id : TaskId} {t : Task}
    (ht : s.task? id = some t) (hopen : t.status.isTerminal = false) :
    id ∈ s.pool ↔ s.isHalted t = false := by
  obtain ⟨e, he, -⟩ := h.sound.listed ht
  rw [h.mem_pool_iff id, ← Bool.not_eq_true, isHalted_eq_true_iff]
  constructor
  · rintro ⟨u, f, hu, -, hf, hok⟩ ⟨g, hg, hfailed⟩
    obtain rfl : t = u := Option.some.inj (ht.symm.trans hu)
    obtain rfl : f = g := Option.some.inj (hf.symm.trans hg)
    exact hok hfailed
  · exact fun hok => ⟨t, e, ht, hopen, he, fun hfailed => hok ⟨e, he, hfailed⟩⟩

theorem not_isTerminal_of_dispatched {t : Task} (h : t.status = .dispatched) :
    t.status.isTerminal = false := by
  rw [h]
  rfl

/-- The pool holds a lapsed task as long as its expression has not failed. -/
theorem Reachable.mem_pool_iff_of_isLapsed (h : Reachable s) {now : Instant} {id : TaskId} {t : Task}
    (ht : s.task? id = some t) (hlapsed : t.isLapsed now = true) : id ∈ s.pool ↔ s.isHalted t = false :=
  h.mem_pool_iff_isHalted ht (not_isTerminal_of_dispatched (status_of_isLapsed hlapsed))

/-- A task in the hands of a worker whose expression has failed stays as it is until a report ends it. -/
theorem Reachable.task?_after_halted (h : Reachable s) {id : TaskId} {t : Task} (ht : s.task? id = some t)
    (hout : t.status = .dispatched) (hhalted : s.isHalted t = true) (run : List Command) :
    (s.after run).task? id = some t ∨ ∃ o, (s.after run).task? id = some (t.ended o) := by
  induction run generalizing s with
  | nil => exact Or.inl ht
  | cons c rest ih =>
    obtain ⟨t', ht', htreats⟩ := treats h.sound c ht
    cases htreats with
    | stays =>
      obtain ⟨e, he, hfailed⟩ := isHalted_eq_true_iff.mp hhalted
      have hkept : (s.perform c).2.expression? t.owner = some e :=
        expression?_after_of_isTerminal h.sound he (by rw [hfailed]; rfl) [c]
      exact ih (h.after [c]) ht' (isHalted_eq_true_iff.mpr ⟨e, hkept, hfailed⟩)
    | handed _ _ _ hpending =>
      rw [hout] at hpending
      exact absurd hpending (by simp)
    | ended o now _ _ =>
      exact Or.inr ⟨o, task?_after_of_isTerminal (h.sound.perform _) ht' (isTerminal_ended t o) rest⟩
    -- A round releases tasks of the pool only.
    | released now hin _ =>
      have hpool := ((reap_spec h.sound now).2.1 t.id).mp hin
      rw [h.sound.task_id ht, h.mem_pool_iff_isHalted ht (not_isTerminal_of_dispatched hout), hhalted]
        at hpool
      exact absurd hpool.1 (by simp)

/-! ## One round -/

theorem pool_releaseAll (s : Store) (ids : List TaskId) : (s.releaseAll ids).pool = s.pool := by
  induction ids generalizing s with
  | nil => rfl
  | cons id rest ih =>
    rw [releaseAll, List.foldl_cons]
    refine (ih _).trans ?_
    cases s.task? id <;> rfl

/-- A round tells of the lapsed tasks whose expressions have not failed, in the order of all tasks. -/
theorem Reachable.reap_fst (h : Reachable s) (now : Instant) :
    (s.reap now).1 = (s.inOrder.filter fun t => t.isLapsed now && !s.isHalted t).map Task.id := by
  have hwalk : ∀ id t, s.task? id = some t → s.hasLapsed now id = t.isLapsed now := by
    intro id t ht
    rw [hasLapsed, ht, Option.any_some]
  have hids : ((s.pool.filter (s.hasLapsed now)).filterMap s.task?).map Task.id
      = s.pool.filter (s.hasLapsed now) := by
    refine Tables.map_filterMap_eq_self fun id hid => ?_
    obtain ⟨t, ht, -⟩ := (Option.any_eq_true _ _).mp (List.mem_filter.mp hid).2
    exact ⟨t, ht, h.sound.task_id ht⟩
  show s.pool.filter (s.hasLapsed now) = _
  rw [← hids, filterMap_task?_filter hwalk, h.filterMap_pool, List.filter_filter]
  refine congrArg _ (List.filter_congr fun t ht => ?_)
  have hstored := h.mem_inOrder_iff.mp ht
  cases hlapsed : t.isLapsed now with
  | false => rfl
  | true =>
    have hpool := h.mem_pool_iff_of_isLapsed hstored hlapsed
    rw [h.mem_pool_iff t.id] at hpool
    simp [hpool]

/-- Behind a round, a task is lapsed only if its expression has failed. -/
theorem Reachable.isLapsed_reap_iff (h : Reachable s) (now : Instant) {id : TaskId} {t : Task} :
    (s.reap now).2.task? id = some t ∧ t.isLapsed now = true ↔
      s.task? id = some t ∧ t.isLapsed now = true ∧ s.isHalted t = true := by
  obtain ⟨htask, htaken, -⟩ := reap_spec h.sound now
  rw [htask]
  by_cases hin : id ∈ (s.reap now).1
  · obtain ⟨hpool, u, hu, hlapsed⟩ := (htaken id).mp hin
    have hok := (h.mem_pool_iff_of_isLapsed hu hlapsed).mp hpool
    rw [if_pos hin, hu]
    constructor
    · rintro ⟨hreleased, hlapsed⟩
      obtain rfl := Option.some.inj hreleased
      exact absurd (status_of_isLapsed hlapsed) (by simp [release])
    · rintro ⟨hsame, -, hhalted⟩
      rw [← Option.some.inj hsame, hok] at hhalted
      exact absurd hhalted Bool.false_ne_true
  · rw [if_neg hin]
    refine and_congr_right fun ht => ⟨fun hlapsed => ⟨hlapsed, ?_⟩, And.left⟩
    by_contra hok
    refine hin ((htaken id).mpr ⟨?_, t, ht, hlapsed⟩)
    exact (h.mem_pool_iff_of_isLapsed ht hlapsed).mpr (by simpa using hok)

/-- A second round for the same time or an earlier one finds nothing. -/
theorem Reachable.reap_reap (h : Reachable s) {now again : Instant} (hle : again ≤ now) :
    (s.reap now).2.reap again = ([], (s.reap now).2) := by
  have hlater : Reachable (s.reap now).2 := .reap now h
  obtain ⟨-, htaken, -⟩ := reap_spec hlater.sound again
  have hnone : ((s.reap now).2.reap again).1 = [] := by
    refine List.eq_nil_iff_forall_not_mem.mpr fun id hid => ?_
    obtain ⟨hpool, t, ht, hlapsed⟩ := (htaken id).mp hid
    obtain ⟨-, -, hhalted⟩ := (h.isLapsed_reap_iff now).mp ⟨ht, Task.isLapsed_of_le hlapsed hle⟩
    rw [hlater.mem_pool_iff_of_isLapsed ht hlapsed] at hpool
    rw [isHalted, expression?, (reap_spec h.sound now).2.2] at hpool
    exact absurd (hhalted.symm.trans hpool) (by simp)
  refine Prod.ext hnone ?_
  show (s.reap now).2.releaseAll ((s.reap now).2.reap again).1 = _
  rw [hnone, releaseAll_nil]

/-- A round tells of all lapsed tasks if and only if no failed expression has one. -/
theorem Reachable.reap_fst_eq_iff (h : Reachable s) (now : Instant) :
    (s.reap now).1 = (s.inOrder.filter (·.isLapsed now)).map Task.id ↔
      ∀ id t, s.task? id = some t → t.isLapsed now = true → s.isHalted t = false := by
  constructor
  · intro hall id t ht hlapsed
    have hid := h.sound.task_id ht
    subst hid
    have hin : t.id ∈ (s.reap now).1 := by
      rw [hall]
      exact List.mem_map_of_mem (List.mem_filter.mpr ⟨h.mem_inOrder_iff.mpr ht, hlapsed⟩)
    obtain ⟨hpool, -⟩ := ((reap_spec h.sound now).2.1 t.id).mp hin
    exact (h.mem_pool_iff_of_isLapsed ht hlapsed).mp hpool
  · intro hok
    rw [h.reap_fst]
    refine congrArg _ (List.filter_congr fun t ht => ?_)
    cases hlapsed : t.isLapsed now with
    | false => rfl
    | true => simp [hok t.id t (h.mem_inOrder_iff.mp ht) hlapsed]

/-! ## What a round comes to -/

/-- **Which leases a round takes back.**  A round tells of the lapsed tasks whose expressions have not failed, in
the order of all tasks; these are pending then, without a lease, and all else is as it was.  What is lapsed
behind it was lapsed before, and its expression has failed; so a round leaves no lapsed lease behind, and tells
of all of them, if and only if no failed expression had one.  A second round at the same time or for an earlier
one finds nothing.  A task in the hands of a worker whose expression has failed is never taken back, whatever is
asked of the store: it stays as it is until a report ends it. -/
theorem Reachable.reclaims (h : Reachable s) (now : Instant) :
    let taken := (s.reap now).1
    let later := (s.reap now).2
    taken = (s.inOrder.filter fun t => t.isLapsed now && !s.isHalted t).map Task.id ∧
      (∀ id, later.task? id = if id ∈ taken
        then (s.task? id).map fun t => { t with status := .pending, lease := none } else s.task? id) ∧
      later.expressions = s.expressions ∧ later.pool = s.pool ∧ later.tasks.keys = s.tasks.keys ∧
      (∀ id t, later.task? id = some t ∧ t.isLapsed now = true ↔
        s.task? id = some t ∧ t.isLapsed now = true ∧ s.isHalted t = true) ∧
      (taken = (s.inOrder.filter (·.isLapsed now)).map Task.id ↔
        ∀ id t, s.task? id = some t → t.isLapsed now = true → s.isHalted t = false) ∧
      (∀ again, again ≤ now → later.reap again = ([], later)) ∧
      ∀ id t, s.task? id = some t → t.status = .dispatched → s.isHalted t = true → ∀ run,
        (s.after run).task? id = some t ∨ ∃ o, (s.after run).task? id = some (t.ended o) := by
  intro taken later
  obtain ⟨htask, -, hexpressions⟩ := reap_spec h.sound now
  have hkeys : later.tasks.keys = s.tasks.keys := by
    refine ((reap_path h.sound now).keys h.sound ?_).1
    rintro _ _ ⟨t, rfl⟩ e tasks
    exact Change.noConfusion
  exact ⟨h.reap_fst now, htask, hexpressions, pool_releaseAll s _, hkeys,
    fun id t => h.isLapsed_reap_iff now, h.reap_fst_eq_iff now, fun again hle => h.reap_reap hle,
    fun id t ht hout hhalted run => h.task?_after_halted ht hout hhalted run⟩

/-- Three tasks are handed out, and one of the two that belong to the first expression fails.  An hour later the
leases on both others have lapsed, and the round takes back the one of the other expression only. -/
theorem Reachable.reclaims_other :
    let first : Task := .fresh ⟨1⟩ ⟨0⟩ .add (.literal 1) (.literal 2) (.ofMillis 1000) .epoch
    let second : Task := .fresh ⟨2⟩ ⟨0⟩ .add (.literal 3) (.literal 4) (.ofMillis 1000) .epoch
    let third : Task := .fresh ⟨3⟩ ⟨0⟩ .multiply (.output ⟨1⟩) (.output ⟨2⟩) (.ofMillis 1000) .epoch
    let other : Task := .fresh ⟨5⟩ ⟨4⟩ .divide (.literal 6) (.literal 3) (.ofMillis 1000) .epoch
    let claim : Command := .claim .oldest Selector.lawful_oldest .standard .epoch
    let hour : Instant := { second := 3600, nano := 0 }
    let s := empty.after [.put (.fresh ⟨0⟩ "(1+2)*(3+4)" [⟨1⟩, ⟨2⟩, ⟨3⟩] .epoch) [first, second, third],
      .put (.fresh ⟨4⟩ "6/3" [⟨5⟩] .epoch) [other], claim, claim, claim,
      .report ⟨1⟩ (.failed "lost") .epoch]
    Reachable s ∧ (s.reap hour).1 = [⟨5⟩] ∧ (s.reap hour).2.task? ⟨5⟩ = some other ∧
      (s.reap hour).2.reap .epoch = ([], (s.reap hour).2) ∧
      ∃ t, (s.reap hour).2.task? ⟨2⟩ = some t ∧ t.isLapsed hour = true := by
  intro first second third other claim hour s
  have hreachable : Reachable s := reachable_after _
  obtain ⟨htaken, htask, -, -, -, hlapsed, -, hagain, -⟩ := Reachable.reclaims hreachable hour
  have hone : (s.reap hour).1 = [⟨5⟩] := htaken.trans (by decide +kernel)
  have hfound := htask ⟨5⟩
  rw [hone, if_pos List.mem_cons_self] at hfound
  have hleft : ∃ t, s.task? ⟨2⟩ = some t ∧ t.isLapsed hour = true ∧ s.isHalted t = true :=
    ⟨{ second with status := .dispatched, lease := some { second := 31, nano := 0 } },
      by decide +kernel, by decide +kernel, by decide +kernel⟩
  obtain ⟨t, ht⟩ := hleft
  exact ⟨hreachable, hone, hfound.trans (by decide +kernel), hagain .epoch (by decide +kernel), t,
    (hlapsed ⟨2⟩ t).mpr ht⟩

/-- The second of two tasks that were handed out is lapsed, but the round does not tell of it and leaves it as it
is, because its sibling has failed. -/
theorem Reachable.not_reclaims_halted :
    let first : Task := .fresh ⟨1⟩ ⟨0⟩ .add (.literal 1) (.literal 2) (.ofMillis 1000) .epoch
    let second : Task := .fresh ⟨2⟩ ⟨0⟩ .add (.literal 3) (.literal 4) (.ofMillis 1000) .epoch
    let third : Task := .fresh ⟨3⟩ ⟨0⟩ .multiply (.output ⟨1⟩) (.output ⟨2⟩) (.ofMillis 1000) .epoch
    let claim : Command := .claim .oldest Selector.lawful_oldest .standard .epoch
    let hour : Instant := { second := 3600, nano := 0 }
    let s := empty.after [.put (.fresh ⟨0⟩ "(1+2)*(3+4)" [⟨1⟩, ⟨2⟩, ⟨3⟩] .epoch) [first, second, third],
      claim, claim, .report ⟨1⟩ (.failed "lost") .epoch]
    Reachable s ∧ s.reap hour = ([], s) ∧
      ∃ t, s.task? ⟨2⟩ = some t ∧ t.status = .dispatched ∧
        t.lease = some { second := 31, nano := 0 } ∧ t.isLapsed hour = true := by
  intro first second third claim hour s
  exact ⟨reachable_after _, by decide +kernel,
    { second with status := .dispatched, lease := some { second := 31, nano := 0 } },
    by decide +kernel, rfl, rfl, by decide +kernel⟩

end Store

end Piecework
