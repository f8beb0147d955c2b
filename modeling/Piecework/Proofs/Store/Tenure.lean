/-
# Piecework.Proofs.Store.Tenure — a task is in the hands of one worker at a time.

A task that was handed out is not handed out again before a round has taken its lease back, and that happens
at the deadline of the lease or later.  Whoever is given the task then is given the same work: the operands
are results of completed tasks, and these do not change.  A task that a report on was accepted, or one of an
expression that has failed, is never handed out again (`one_tenant_at_a_time`).
-/
import Piecework.Proofs.Store.Final
import Piecework.Proofs.Store.Pool

namespace Piecework

theorem Task.deadline_le_of_isLapsed {t : Task} {deadline now : Instant} (h : t.isLapsed now = true)
    (hlease : t.lease = some deadline) : deadline ≤ now := by
  rw [isLapsed, hlease, Option.any_some, Bool.and_eq_true, decide_eq_true_eq, decide_eq_true_eq] at h
  exact h.2

namespace Store

variable {s : Store}

/-! ## What stays the same between two claims -/

/-- A task asks for the same work as long as it is stored. -/
theorem plain_after (h : Sound s) {id : TaskId} {t : Task} (ht : s.task? id = some t)
    (run : List Command) : ∃ t', (s.after run).task? id = some t' ∧ t'.plain = t.plain := by
  induction run generalizing s t with
  | nil => exact ⟨t, ht, rfl⟩
  | cons c rest ih =>
    obtain ⟨u, hu, htreats⟩ := treats h c ht
    obtain ⟨t', ht', hplain⟩ := ih (h.perform c) hu
    exact ⟨t', ht', hplain.trans htreats.plain⟩

/-- An operand that can be read is read the same ever after. -/
theorem operand_after (h : Reachable s) {a : Argument} {v : Float} (ha : s.operand a = .ok v)
    (run : List Command) : (s.after run).operand a = .ok v := by
  cases a with
  | literal value => exact ha
  | output id =>
    rw [operand] at ha ⊢
    cases hr : (s.task? id).bind Task.result with
    | none => simp [hr] at ha
    | some w =>
      obtain ⟨t, ht, hw⟩ := Option.bind_eq_some_iff.mp hr
      have hdone : t.status = .completed := (h.settled.tasks ht).result.mpr (by rw [hw]; rfl)
      have hlater := task?_after_of_isTerminal h.sound ht (by rw [hdone]; rfl) run
      rw [hlater, Option.bind_some, hw]
      rw [hr] at ha
      exact ha

/-- Whenever a task is handed out, it is the same assignment. -/
theorem eq_of_hands (h : Reachable s) {run : List Command} {c c' : Command} {a a' : Assignment}
    (hh : s.Hands c a) (hh' : (s.after run).Hands c' a') (hid : a'.id = a.id) : a' = a := by
  obtain ⟨_, _, _, _, t, _, -, -, ht, -, hassigned, -⟩ := hands_spec h.sound hh
  obtain ⟨_, _, _, _, t', _, -, -, ht', -, hassigned', -⟩ :=
    hands_spec (h.after run).sound hh'
  obtain ⟨u, hu, hplain⟩ := plain_after h.sound ht run
  obtain rfl : t' = u := Option.some.inj ((hid ▸ ht').symm.trans hu)
  obtain ⟨hname, howner, hoperation, hleft, hright, hduration⟩ := Task.work_eq_of_plain_eq hplain
  obtain ⟨left, right, hl, hr, rfl⟩ := assignment_eq_ok_iff.mp hassigned
  obtain ⟨left', right', hl', hr', rfl⟩ := assignment_eq_ok_iff.mp hassigned'
  rw [hleft, operand_after h hl run, Except.ok.injEq] at hl'
  rw [hright, operand_after h hr run, Except.ok.injEq] at hr'
  rw [hname, howner, hoperation, hduration, hl', hr']

/-! ## What has to happen between two claims -/

/-- A task that is handed out was waiting. -/
theorem status_of_hands (h : Sound s) {c : Command} {a : Assignment} (hh : s.Hands c a) {t : Task}
    (ht : s.task? a.id = some t) : t.status = .pending := by
  obtain ⟨_, _, _, _, u, _, -, -, hu, hpending, -⟩ := hands_spec h hh
  obtain rfl : t = u := Option.some.inj (ht.symm.trans hu)
  exact hpending

/-- A task that is in the hands of a worker is not handed out again before its lease has been taken back. -/
theorem exists_reclaims (run : List Command) {c : Command} {a : Assignment} :
    ∀ {s : Store}, Sound s → ∀ {t : Task} {deadline : Instant}, s.task? a.id = some t →
      t.status = .dispatched → t.lease = some deadline → (s.after run).Hands c a →
      ∃ front r rest, run = front ++ r :: rest ∧ (s.after front).Reclaims r a.id deadline := by
  induction run with
  | nil =>
    intro s h t deadline ht hout _ hh
    have hpending := status_of_hands h hh ht
    rw [hout] at hpending
    exact absurd hpending (by simp)
  | cons first rest ih =>
    intro s h t deadline ht hout hlease hh
    obtain ⟨t', ht', htreats⟩ := treats h first ht
    have hid := h.task_id ht
    cases htreats with
    | stays =>
      obtain ⟨front, r, more, hrun, hreclaims⟩ := ih (h.perform first) ht' hout hlease hh
      exact ⟨first :: front, r, more, by rw [hrun, List.cons_append], hreclaims⟩
    | handed _ _ _ hpending =>
      rw [hout] at hpending
      exact absurd hpending (by simp)
    -- A task that has ended is not handed out at all.
    | ended o now _ _ =>
      have hlater := task?_after_of_isTerminal (h.perform _) ht' (isTerminal_ended t o) rest
      have hpending := status_of_hands ((h.perform _).after rest) hh hlater
      cases o <;> simp [Task.ended] at hpending
    | released now hin hlapsed =>
      exact ⟨[], _, rest, rfl, now, rfl, t.deadline_le_of_isLapsed hlapsed hlease, hid ▸ hin⟩

/-- A task that a report on was accepted is not handed out any more. -/
theorem not_takes_of_hands (before between : List Command) {r c : Command} {a : Assignment}
    (hh : (empty.after (before ++ r :: between)).Hands c a) : ¬(empty.after before).Takes r a.id := by
  intro htakes
  obtain ⟨o, -, t, -, -, -, hended⟩ := task?_after_takes before between htakes
  have hpending := status_of_hands (reachable_after _).sound hh hended
  cases o <;> simp [Task.ended] at hpending

/-- No task of a failed expression is handed out. -/
theorem owner_ne_of_hands (h : Reachable s) {x : ExpressionId} {e : Expression}
    (he : s.expression? x = some e) (hfailed : e.status = .failed) {c : Command} {a : Assignment}
    (hh : s.Hands c a) : a.owner ≠ x := by
  rintro rfl
  obtain ⟨_, _, _, _, t, _, -, hmem, -, -, hassigned, -⟩ := hands_spec h.sound hh
  obtain ⟨left, right, -, -, rfl⟩ := assignment_eq_ok_iff.mp hassigned
  obtain ⟨id, hpool, ht, -⟩ := mem_candidates hmem
  obtain ⟨u, f, hu, -, hf, hok⟩ := (h.mem_pool_iff id).mp hpool
  obtain rfl : t = u := Option.some.inj (ht.symm.trans hu)
  obtain rfl : e = f := Option.some.inj (he.symm.trans hf)
  exact hok hfailed

/-! ## One worker at a time -/

/-- **One worker at a time.**  Whoever claims a task is given a lease on it, which runs for its operation
time and the grace period together, as far as these can be counted.  When the same task is handed out later
in the run, then it is the same assignment, a round has taken the lease back in between, at the deadline or
later, and no report on the task has been accepted in the whole run so far.  Tasks of an expression that has
failed are handed out no more. -/
theorem one_tenant_at_a_time :
    (∀ before c a, (empty.after before).Hands c a →
      ∃ select lawful policy now t deadline, c = .claim select lawful policy now ∧
        (empty.after (before ++ [c])).task? a.id = some t ∧ t.lease = some deadline ∧
        policy.deadline? now a.duration = some deadline ∧
        (policy.Countable a.duration →
          now.later? (a.duration.nanos + policy.timeout.nanos) = some deadline) ∧
        ∀ between c' a', (empty.after (before ++ c :: between)).Hands c' a' → a'.id = a.id →
          a' = a ∧
          (∃ front r rest, between = front ++ r :: rest ∧
            (empty.after (before ++ c :: front)).Reclaims r a.id deadline) ∧
          ∀ front r rest, before ++ c :: between = front ++ r :: rest →
            ¬(empty.after front).Takes r a.id) ∧
    ∀ before x e, (empty.after before).expression? x = some e → e.status = .failed →
      ∀ between c a, (empty.after (before ++ between)).Hands c a → a.owner ≠ x := by
  refine ⟨?_, ?_⟩
  · intro before c a hh
    have h := reachable_after before
    obtain ⟨select, lawful, policy, now, t, deadline, hc, -, ht, -, hassigned, hdeadline, hlater⟩ :=
      hands_spec h.sound hh
    obtain ⟨left, right, -, -, ha⟩ := assignment_eq_ok_iff.mp hassigned
    have hduration : a.duration = t.duration := by rw [ha]
    have hleased : ((empty.after before).perform c).2.task? a.id
        = some { t with status := .dispatched, lease := some deadline } := by
      have hid : a.id = t.id := by rw [ha]
      rw [hlater, task?_setTask (t := { t with status := .dispatched, lease := some deadline })
        (hid ▸ ht), if_pos hid]
    refine ⟨select, lawful, policy, now, { t with status := .dispatched, lease := some deadline },
      deadline, hc, ?_, rfl, hduration ▸ hdeadline, ?_, ?_⟩
    · rw [after_append]
      exact hleased
    · intro hcount
      rw [← LeasePolicy.held_of_countable hcount, ← hdeadline, hduration, LeasePolicy.deadline?]
    · intro between c' a' hh' hid
      have hagain := hh'
      rw [after_append] at hagain
      have hsame : a' = a := eq_of_hands h hh hagain hid
      obtain ⟨front, r, rest, hbetween, hreclaims⟩ :=
        exists_reclaims between (h.sound.perform c) (hid ▸ hleased) rfl rfl hagain
      refine ⟨hsame, ⟨front, r, rest, hbetween, ?_⟩, ?_⟩
      · rw [after_append]
        exact hid ▸ hreclaims
      · intro front' r' rest' hrun
        rw [hrun] at hh'
        exact hid ▸ not_takes_of_hands front' rest' hh'
  · intro before x e he hfailed between c a hh
    have h := reachable_after before
    have hlater := expression?_after_of_isTerminal h.sound he (by rw [hfailed]; rfl) between
    rw [after_append] at hh
    exact owner_ne_of_hands (h.after between) hlater hfailed hh

/-- A task that is handed out again after its lease has lapsed. -/
theorem one_tenant_at_a_time_lapsed :
    let first : Task := .fresh ⟨1⟩ ⟨0⟩ .divide (.literal 6) (.literal 3) (.ofMillis 1000) .epoch
    let put : Command := .put (.fresh ⟨0⟩ "6/3" [⟨1⟩] .epoch) [first]
    let hour : Instant := { second := 3600, nano := 0 }
    let claim (now : Instant) : Command := .claim .oldest Selector.lawful_oldest .standard now
    let divide : Assignment := ⟨⟨1⟩, ⟨0⟩, .divide, 6, 3, .ofMillis 1000⟩
    (empty.after [put]).Hands (claim .epoch) divide ∧
      (empty.after [put, claim .epoch, .reap hour]).Hands (claim hour) divide ∧
      ∃ front r rest, [Command.reap hour] = front ++ r :: rest ∧
        (empty.after ([put] ++ claim .epoch :: front)).Reclaims r ⟨1⟩ { second := 31, nano := 0 } := by
  intro first put hour claim divide
  have hhands : (empty.after [put]).Hands (claim .epoch) divide := by decide +kernel
  have hagain : (empty.after [put, claim .epoch, .reap hour]).Hands (claim hour) divide := by
    decide +kernel
  obtain ⟨_, _, policy, now, t, deadline, hc, -, -, hdeadline, -, hlater⟩ :=
    one_tenant_at_a_time.1 [put] (claim .epoch) divide hhands
  obtain ⟨-, hreclaims, -⟩ := hlater [.reap hour] (claim hour) divide hagain rfl
  have hgranted : LeasePolicy.standard.deadline? .epoch (.ofMillis 1000)
      = some { second := 31, nano := 0 } := by decide +kernel
  obtain ⟨-, rfl, rfl⟩ := Command.claim.inj hc
  obtain rfl : deadline = { second := 31, nano := 0 } := Option.some.inj (hdeadline.symm.trans hgranted)
  exact ⟨hhands, hagain, hreclaims⟩

end Store

end Piecework
