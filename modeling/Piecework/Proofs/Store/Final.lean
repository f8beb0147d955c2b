/-
# Piecework.Proofs.Store.Final — what has ended stays as it ended.

A task ends with the one report on it that is accepted, and nothing writes it again: not another report,
which is refused, and no round over lapsed leases.  An expression ends with a report on one of its tasks, and
that is the only time that anything of it changes, the time of its last change included.  Late reports on
other tasks of a failed expression are recorded on these tasks and leave the expression alone
(`ended_is_final`).
-/
import Piecework.Proofs.Store.Run

namespace Piecework.Store

variable {s : Store}

/-! ## Nothing that has ended is written -/

theorem Updates.eq_of_isTerminal {c : Command} {e e' : Expression} (h : Updates s c e e')
    (hterm : e.status.isTerminal = true) : e' = e := by
  cases h with
  | stays => rfl
  | ended _ _ _ _ hs => simp [hs, ExpressionStatus.isTerminal] at hterm

theorem task?_after_of_isTerminal (h : Sound s) {id : TaskId} {t : Task} (ht : s.task? id = some t)
    (hterm : t.status.isTerminal = true) (run : List Command) : (s.after run).task? id = some t :=
  (leads_after s run).keeps_ended h ht hterm

theorem expression?_after_of_isTerminal (h : Sound s) {x : ExpressionId} {e : Expression}
    (he : s.expression? x = some e) (hterm : e.status.isTerminal = true) (run : List Command) :
    (s.after run).expression? x = some e := by
  induction run generalizing s with
  | nil => exact he
  | cons c rest ih =>
    obtain ⟨e', he', hupdates⟩ := updates h c he
    exact ih (h.perform c) (hupdates.eq_of_isTerminal hterm ▸ he')

/-! ## Every end has its report -/

theorem isTerminal_ended (t : Task) (o : Outcome) : (t.ended o).status.isTerminal = true := by
  cases o <;> rfl

/-- A task that has ended was ended by a report that was accepted. -/
theorem exists_takes (run : List Command) {id : TaskId} {t : Task}
    (ht : (empty.after run).task? id = some t) (hterm : t.status.isTerminal = true) :
    ∃ before c rest, run = before ++ c :: rest ∧ (empty.after before).Takes c id := by
  induction run using List.reverseRecOn generalizing t with
  | nil => exact absurd ht (by simp [task?, empty])
  | append_singleton run c ih =>
    have hs := (reachable_after run).sound
    rw [after_append] at ht
    rcases treats_or_fresh hs c ht with ⟨u, hu, htreats⟩ | ⟨-, hfresh⟩
    · have hid := hs.task_id hu
      subst hid
      cases htreats with
      | stays =>
        obtain ⟨before, c', rest, hrun, htakes⟩ := ih hu hterm
        exact ⟨before, c', rest ++ [c], by rw [hrun, List.append_assoc]; rfl, htakes⟩
      | handed _ _ _ _ => simp [TaskStatus.isTerminal] at hterm
      | ended o now htakes _ => exact ⟨run, _, [], rfl, htakes⟩
      | released _ _ _ => simp [release, TaskStatus.isTerminal] at hterm
    · rw [← hfresh] at hterm
      simp [Task.plain, Task.fresh, TaskStatus.isTerminal] at hterm

/-- An accepted report on a task leaves it as it says, and is the last one on it. -/
theorem task?_after_takes (before rest : List Command) {c : Command} {id : TaskId}
    (h : (empty.after before).Takes c id) :
    ∃ o now t, c = .report id o now ∧ (empty.after before).task? id = some t ∧
      t.status.isTerminal = false ∧ (empty.after (before ++ c :: rest)).task? id = some (t.ended o) := by
  have hs := (reachable_after before).sound
  obtain ⟨o, now, t, hc, ht, hopen, hended⟩ := takes_spec hs h
  refine ⟨o, now, t, hc, ht, hopen, ?_⟩
  rw [after_append]
  exact task?_after_of_isTerminal (hs.perform c) hended (isTerminal_ended t o) rest

theorem not_takes_again (before between : List Command) {c c' : Command} {id : TaskId}
    (h : (empty.after before).Takes c id) : ¬(empty.after (before ++ c :: between)).Takes c' id := by
  intro h'
  obtain ⟨o, -, t, -, -, -, hended⟩ := task?_after_takes before between h
  obtain ⟨-, -, u, -, hu, hopen, -⟩ := takes_spec (reachable_after _).sound h'
  obtain rfl : t.ended o = u := Option.some.inj (hended.symm.trans hu)
  rw [isTerminal_ended] at hopen
  exact absurd hopen (by simp)

/-- Of two places in a run one is in front of the other, or they are the same. -/
theorem eq_of_splits {α : Type} {before before' rest rest' : List α} {c c' : α}
    (h : before ++ c :: rest = before' ++ c' :: rest')
    (hfront : ∀ between, before' ≠ before ++ c :: between)
    (hbehind : ∀ between, before ≠ before' ++ c' :: between) : before = before' := by
  rcases List.append_eq_append_iff.mp h with ⟨between, hbetween, htail⟩ | ⟨between, hbetween, htail⟩
  · cases between with
    | nil => rw [hbetween, List.append_nil]
    | cons first more =>
      obtain rfl : c = first := (List.cons.inj htail).1
      exact absurd hbetween (hfront more)
  · cases between with
    | nil => rw [hbetween, List.append_nil]
    | cons first more =>
      obtain rfl : c' = first := (List.cons.inj htail).1
      exact absurd hbetween (hbehind more)

/-- Where an expression waits, nothing has changed it since it was accepted; where it has ended, it did so
with a report on one of its tasks, at the time of its last change, and had been waiting before. -/
theorem exists_takes_of_expression (run : List Command) {x : ExpressionId} {e : Expression}
    (he : (empty.after run).expression? x = some e) :
    (e.status = .pending ∧ e.updated = e.created) ∨
      (e.status.isTerminal = true ∧ ∃ before id o rest f,
        run = before ++ .report id o e.updated :: rest ∧ id ∈ f.tasks ∧
        (empty.after before).Takes (.report id o e.updated) id ∧
        (empty.after before).expression? x = some f ∧ f.status = .pending ∧ f.updated = f.created ∧
        f.created = e.created ∧
        (empty.after (before ++ [.report id o e.updated])).expression? x = some e) := by
  induction run using List.reverseRecOn generalizing e with
  | nil => exact absurd he (by simp [expression?, empty])
  | append_singleton run c ih =>
    have hs := (reachable_after run).sound
    have hfound := he
    rw [after_append] at he
    rcases updates_or_fresh hs c he with ⟨f, hf, hupdates⟩ | ⟨-, hfresh⟩
    · cases hupdates with
      | stays =>
        rcases ih hf with hwaits | ⟨hterm, before, id, o, rest, g, hrun, hg⟩
        · exact Or.inl hwaits
        · exact Or.inr ⟨hterm, before, id, o, rest ++ [c], g, by rw [hrun, List.append_assoc]; rfl, hg⟩
      | @ended _ _ id o now htakes hmem hpending hterm hupdated hcreated =>
        subst hupdated
        rcases ih hf with ⟨-, huntouched⟩ | ⟨hended, -⟩
        · exact Or.inr ⟨hterm, run, id, o, [], f, rfl, hmem, htakes, hf, hpending, huntouched,
            hcreated.symm, hfound⟩
        · simp [hpending, ExpressionStatus.isTerminal] at hended
    · refine Or.inl ?_
      rw [hfresh]
      exact ⟨rfl, rfl⟩

/-! ## Finality -/

/-- A late report is recorded on its task, and leaves the expression that has ended as it is. -/
theorem report_of_late (h : Sound s) {x : ExpressionId} {e : Expression} (he : s.expression? x = some e)
    (hterm : e.status.isTerminal = true) {id : TaskId} {t : Task} (ht : s.task? id = some t)
    (howner : t.owner = x) (hopen : t.status.isTerminal = false) (o : Outcome) (now : Instant) :
    (s.report id o now).1 = .ok e.status ∧ (s.report id o now).2.task? id = some (t.ended o) ∧
      (s.report id o now).2.expression? x = some e := by
  have hid := h.task_id ht
  subst hid howner
  obtain ⟨-, f, hreport, hf⟩ := report_of_open h o now ht hopen
  obtain ⟨-, -, -, -, -, htask, -⟩ := finish_spec h o now ht
  have hkept : (s.report t.id o now).2.expression? t.owner = some e :=
    expression?_after_of_isTerminal h he hterm [.report t.id o now]
  rw [hreport] at hkept ⊢
  obtain rfl : f = e := Option.some.inj (hf.symm.trans hkept)
  exact ⟨rfl, (htask t.id).trans (if_pos rfl), hkept⟩

/-- **What has ended is final.**  A report that is accepted ends its task, and no other report on this task is
accepted in the whole run.  A task that has ended was ended so; its record is never written again, and each
further report on it is refused with the status that it has.  An expression that has ended was ended by a
report on one of its tasks at the time of its last change; it is never written again, though late reports on
other tasks of it are accepted and recorded.  Until then the time of its last change is the one at which it
was created. -/
theorem ended_is_final (run : List Command) :
    (∀ before c rest id, run = before ++ c :: rest → (empty.after before).Takes c id →
      (∃ o now t, c = .report id o now ∧ (empty.after before).task? id = some t ∧
        t.status.isTerminal = false ∧ (empty.after run).task? id = some (t.ended o)) ∧
      ∀ before' c' rest', run = before' ++ c' :: rest' → (empty.after before').Takes c' id →
        before = before') ∧
    (∀ id t, (empty.after run).task? id = some t → t.status.isTerminal = true →
      (∃ before c rest, run = before ++ c :: rest ∧ (empty.after before).Takes c id) ∧
      ∀ more, (empty.after (run ++ more)).task? id = some t ∧
        ∀ o now, (empty.after (run ++ more)).report id o now
          = (.error (.ended ⟨id, t.status⟩), empty.after (run ++ more))) ∧
    (∀ x e, (empty.after run).expression? x = some e → e.status.isTerminal = true →
      (∃ before id o rest f, run = before ++ .report id o e.updated :: rest ∧ id ∈ f.tasks ∧
        (empty.after before).expression? x = some f ∧ f.status = .pending ∧ f.updated = e.created ∧
        (empty.after (before ++ [.report id o e.updated])).expression? x = some e) ∧
      ∀ more, (empty.after (run ++ more)).expression? x = some e ∧
        ∀ id t o now, (empty.after (run ++ more)).task? id = some t → t.owner = x →
          t.status.isTerminal = false →
          let late := (empty.after (run ++ more)).report id o now
          late.1 = .ok e.status ∧ late.2.task? id = some (t.ended o) ∧ late.2.expression? x = some e) ∧
    ∀ x e, (empty.after run).expression? x = some e → e.status = .pending → e.updated = e.created := by
  refine ⟨?_, ?_, ?_, ?_⟩
  · rintro before c rest id rfl htakes
    refine ⟨task?_after_takes before rest htakes, ?_⟩
    intro before' c' rest' hrun htakes'
    refine eq_of_splits hrun ?_ ?_
    · rintro between rfl
      exact not_takes_again before between htakes htakes'
    · rintro between rfl
      exact not_takes_again before' between htakes' htakes
  · intro id t ht hterm
    refine ⟨exists_takes run ht hterm, fun more => ?_⟩
    have hlater : (empty.after (run ++ more)).task? id = some t := by
      rw [after_append]
      exact task?_after_of_isTerminal (reachable_after run).sound ht hterm more
    exact ⟨hlater, report_of_isTerminal (reachable_after _).sound hlater hterm⟩
  · intro x e he hterm
    refine ⟨?_, fun more => ?_⟩
    · rcases exists_takes_of_expression run he with
        ⟨hpending, -⟩ | ⟨-, before, id, o, rest, f, hrun, hmem, -, hf, hpending, huntouched, hcreated, hends⟩
      · simp [hpending, ExpressionStatus.isTerminal] at hterm
      · exact ⟨before, id, o, rest, f, hrun, hmem, hf, hpending, huntouched.trans hcreated, hends⟩
    · have hlater : (empty.after (run ++ more)).expression? x = some e := by
        rw [after_append]
        exact expression?_after_of_isTerminal (reachable_after run).sound he hterm more
      exact ⟨hlater, fun id t o now ht howner hopen =>
        report_of_late (reachable_after _).sound hlater hterm ht howner hopen o now⟩
  · intro x e he hpending
    rcases exists_takes_of_expression run he with ⟨-, huntouched⟩ | ⟨hterm, -⟩
    · exact huntouched
    · simp [hpending, ExpressionStatus.isTerminal] at hterm

/-- A report that comes after the expression has failed, and one that comes after its own task has ended. -/
theorem ended_is_final_late :
    let first : Task := .fresh ⟨1⟩ ⟨0⟩ .divide (.literal 6) (.literal 3) (.ofMillis 1) .epoch
    let second : Task := .fresh ⟨2⟩ ⟨0⟩ .add (.output ⟨1⟩) (.literal 1) (.ofMillis 1) .epoch
    let e := Expression.fresh ⟨0⟩ "6/3+1" [⟨1⟩, ⟨2⟩] .epoch
    let hour : Instant := { second := 3600, nano := 0 }
    let failed : Expression := ⟨⟨0⟩, "6/3+1", .failed, none, [⟨1⟩, ⟨2⟩], .epoch, hour⟩
    let run : List Command := [.put e [first, second], .report ⟨2⟩ (.failed "lost") hour]
    (empty.after run).expression? ⟨0⟩ = some failed ∧ failed.status.isTerminal = true ∧
      (empty.after (run ++ [.reap .epoch])).expression? ⟨0⟩ = some failed ∧
      ((empty.after (run ++ [.reap .epoch])).report ⟨1⟩ (.completed 2) .epoch).1 = .ok .failed ∧
      ((empty.after (run ++ [.reap .epoch])).report ⟨1⟩ (.completed 2) .epoch).2.task? ⟨1⟩
        = some (first.ended (.completed 2)) ∧
      ((empty.after run).report ⟨2⟩ (.completed 3) .epoch).1 = .error (.ended ⟨⟨2⟩, .failed⟩) := by
  intro first second e hour failed run
  have he : (empty.after run).expression? ⟨0⟩ = some failed := by decide +kernel
  have ht : (empty.after run).task? ⟨2⟩ = some (second.ended (.failed "lost")) := by decide +kernel
  obtain ⟨-, htasks, hexpressions, -⟩ := ended_is_final run
  obtain ⟨hkept, hlate⟩ := (hexpressions ⟨0⟩ failed he rfl).2 [.reap .epoch]
  obtain ⟨hanswer, hrecorded, -⟩ := hlate ⟨1⟩ first (.completed 2) .epoch (by decide +kernel) rfl rfl
  have hrefused := ((htasks ⟨2⟩ _ ht rfl).2 []).2 (.completed 3) .epoch
  rw [List.append_nil] at hrefused
  exact ⟨he, rfl, hkept, hanswer, hrecorded, congrArg Prod.fst hrefused⟩

end Piecework.Store
