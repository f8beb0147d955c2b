/-
# Piecework.Proofs.Store.Run — commands one after the other, and what each does to what is stored.

A run is a list of commands to an empty store.  Reachability forgets the commands; a statement about what
happens between two of them, or before one, needs them back.  So this module says what one command can do to
a task (`Treats`) and to an expression (`Updates`): nothing that ended is written again, a task changes hands
only by a claim, by a report that is accepted, or by a round that takes its lapsed lease back, and an
expression moves only with an accepted report on one of its tasks.
-/
import Mathlib.Data.List.Induction
import Piecework.Proofs.Store.Status

namespace Piecework.Store

variable {s : Store}

/-! ## Commands -/

/-- What a store can be asked.  Batches are fresh, and selectors take what they are offered. -/
inductive Command where
  | put (e : Expression) (tasks : List Task)
      (fresh : e.IsFresh ∧ ∀ t ∈ tasks, t.IsFresh := by decide +kernel)
  | claim (select : Selector) (lawful : select.Lawful) (policy : LeasePolicy) (now : Instant)
  | report (id : TaskId) (o : Outcome) (now : Instant)
  | reap (now : Instant)

/-- What a store can answer. -/
inductive Answer where
  | put (answer : Except StoreFault Unit)
  | claim (answer : Except StoreFault (Option Assignment))
  | report (answer : Except StoreFault ExpressionStatus)
  | reap (taken : List TaskId)
deriving DecidableEq

/-- The answer to a command, and the store behind it. -/
def perform (s : Store) : Command → Answer × Store
  | .put e tasks _ => (.put (s.put e tasks).1, (s.put e tasks).2)
  | .claim select _ policy now => (.claim (s.claim select policy now).1, (s.claim select policy now).2)
  | .report id o now => (.report (s.report id o now).1, (s.report id o now).2)
  | .reap now => (.reap (s.reap now).1, (s.reap now).2)

/-- The store after these commands. -/
def after (s : Store) (run : List Command) : Store := run.foldl (fun s c => (s.perform c).2) s

@[simp]
theorem after_nil (s : Store) : s.after [] = s := rfl

@[simp]
theorem after_cons (s : Store) (c : Command) (run : List Command) :
    s.after (c :: run) = (s.perform c).2.after run := rfl

@[simp]
theorem after_append (s : Store) (run more : List Command) :
    s.after (run ++ more) = (s.after run).after more :=
  List.foldl_append

theorem leads_perform (s : Store) (c : Command) : Leads s (s.perform c).2 := by
  cases c with
  | put e tasks fresh => exact .put .refl fresh.1 fresh.2
  | claim select lawful policy now => exact .claim policy now .refl lawful
  | report id o now => exact .report id o now .refl
  | reap now => exact .reap now .refl

theorem leads_after (s : Store) (run : List Command) : Leads s (s.after run) := by
  induction run generalizing s with
  | nil => exact .refl
  | cons c rest ih => exact (leads_perform s c).trans (ih _)

theorem Reachable.after (h : Reachable s) (run : List Command) : Reachable (s.after run) :=
  Leads.trans h (leads_after s run)

/-- Runs lead to reachable stores. -/
theorem reachable_after (run : List Command) : Reachable (empty.after run) := leads_after empty run

theorem Sound.perform (h : Sound s) (c : Command) : Sound (s.perform c).2 :=
  ((leads_perform s c).path h).sound h

theorem Sound.after (h : Sound s) (run : List Command) : Sound (s.after run) :=
  ((leads_after s run).path h).sound h

/-! ## What a command is known for -/

/-- The command hands the assignment out. -/
def Hands (s : Store) (c : Command) (a : Assignment) : Prop := (s.perform c).1 = .claim (.ok (some a))

instance (s : Store) (c : Command) (a : Assignment) : Decidable (s.Hands c a) :=
  inferInstanceAs (Decidable ((s.perform c).1 = .claim (.ok (some a))))

/-- The command is a report on the task, and it is accepted. -/
def Takes (s : Store) (c : Command) (id : TaskId) : Prop :=
  ∃ o now status, c = .report id o now ∧ (s.report id o now).1 = .ok status

/-- The command takes a lapsed lease on the task back that had run until the deadline. -/
def Reclaims (s : Store) (c : Command) (id : TaskId) (deadline : Instant) : Prop :=
  ∃ now, c = .reap now ∧ deadline ≤ now ∧ id ∈ (s.reap now).1

/-- An assignment is made of a task and of what its operands stand for. -/
theorem assignment_eq_ok_iff {t : Task} {a : Assignment} :
    s.assignment t = .ok a ↔ ∃ left right, s.operand t.left = .ok left ∧
      s.operand t.right = .ok right ∧ a = ⟨t.id, t.owner, t.operation, left, right, t.duration⟩ := by
  unfold assignment
  cases s.operand t.left with
  | error fault => simp
  | ok left =>
    cases s.operand t.right with
    | error fault => simp
    | ok right => simp [eq_comm]

/-- Whoever hands a task out has found it waiting, and dispatches it until the deadline of its lease. -/
theorem hands_spec (h : Sound s) {c : Command} {a : Assignment} (hh : s.Hands c a) :
    ∃ select lawful policy now t deadline, c = .claim select lawful policy now ∧
      t ∈ s.candidates ∧ s.task? a.id = some t ∧ t.status = .pending ∧ s.assignment t = .ok a ∧
      policy.deadline? now t.duration = some deadline ∧
      (s.perform c).2 = s.setTask { t with status := .dispatched, lease := some deadline } := by
  cases c with
  | put e tasks fresh => simp [Hands, perform] at hh
  | report id o now => simp [Hands, perform] at hh
  | reap now => simp [Hands, perform] at hh
  | claim select lawful policy now =>
    simp only [Hands, perform, Answer.claim.injEq] at hh
    rcases claim_cases s select policy now with
      ⟨answer, hclaim, hnone⟩ | ⟨t, b, deadline, hnext, hassigned, hdeadline, hclaim⟩
    · rw [hclaim] at hh
      exact absurd hh (hnone a)
    · rw [hclaim] at hh
      obtain rfl : b = a := Option.some.inj (Except.ok.inj hh)
      obtain ⟨left, right, -, -, hb⟩ := assignment_eq_ok_iff.mp hassigned
      have hmem : t ∈ s.candidates := lawful _ _ hnext
      obtain ⟨_, -, -, hpending, -⟩ := mem_candidates hmem
      refine ⟨select, lawful, policy, now, t, deadline, rfl, hmem, ?_, hpending, hassigned, hdeadline, ?_⟩
      · rw [hb]
        exact h.task?_of_mem_candidates hmem
      · show (s.claim select policy now).2 = _
        rw [hclaim]
        rfl

/-- A task that has ended takes no report: the answer says how it ended, and nothing changes. -/
theorem report_of_isTerminal {id : TaskId} {t : Task} (h : Sound s) (ht : s.task? id = some t)
    (hterm : t.status.isTerminal = true) (o : Outcome) (now : Instant) :
    s.report id o now = (.error (.ended ⟨id, t.status⟩), s) := by
  rw [report, ht, ← h.task_id ht]
  simp only [Task.record, hterm, if_true]

/-- A report that is accepted finds a task that has not ended, and ends it. -/
theorem takes_spec (h : Sound s) {c : Command} {id : TaskId} (ht : s.Takes c id) :
    ∃ o now t, c = .report id o now ∧ s.task? id = some t ∧ t.status.isTerminal = false ∧
      (s.perform c).2.task? id = some (t.ended o) := by
  obtain ⟨o, now, status, rfl, hok⟩ := ht
  rcases report_cases h id o now with ⟨fault, hreport⟩ | ⟨t, status', ht, hen, hreport⟩
  · simp [hreport] at hok
  · obtain ⟨-, -, -, -, -, htask, -⟩ := finish_spec h o now hen.1
    refine ⟨o, now, t, rfl, ht, hen.2, ?_⟩
    show (s.report id o now).2.task? id = _
    rw [hreport]
    show ((Change.finish t o now).apply s).task? id = _
    rw [htask, ← h.task_id ht, if_pos rfl]

/-! ## Rounds that take lapsed leases back -/

/-- Taking leases back releases the tasks that are named, and no others. -/
theorem releaseAll_spec (ids : List TaskId) :
    ∀ {s : Store}, Sound s → (∀ id ∈ ids, ∃ t, s.task? id = some t) →
      (∀ id, (s.releaseAll ids).task? id = if id ∈ ids then (s.task? id).map release else s.task? id) ∧
        (s.releaseAll ids).expressions = s.expressions := by
  induction ids with
  | nil => exact fun {s} _ _ => ⟨fun _ => by simp, rfl⟩
  | cons first rest ih =>
    intro s h hall
    obtain ⟨t, ht⟩ := hall first List.mem_cons_self
    have hname : t.id = first := h.task_id ht
    have hstored : s.task? t.id = some t := hname.symm ▸ ht
    have hfound := task?_setTask (t := release t) hstored
    obtain ⟨htask, hexpressions⟩ := ih (h.setTask (t := release t) hstored rfl) (by
      intro id hid
      obtain ⟨u, hu⟩ := hall id (List.mem_cons_of_mem _ hid)
      rw [hfound]
      split
      · exact ⟨_, rfl⟩
      · exact ⟨u, hu⟩)
    rw [releaseAll_cons ht]
    refine ⟨fun id => ?_, hexpressions⟩
    rw [htask, hfound, show (release t).id = first from hname]
    by_cases hid : id = first
    -- A task that is named twice is released twice, which is no more than once.
    · simp [hid, ht, release]
    · simp [hid]

/-- A round releases the tasks that it tells of, and no others; all of them were lapsed. -/
theorem reap_spec (h : Sound s) (now : Instant) :
    (∀ id, (s.reap now).2.task? id
      = if id ∈ (s.reap now).1 then (s.task? id).map release else s.task? id) ∧
    (∀ id, id ∈ (s.reap now).1 ↔ id ∈ s.pool ∧ ∃ t, s.task? id = some t ∧ t.isLapsed now = true) ∧
    (s.reap now).2.expressions = s.expressions := by
  have hmem : ∀ id, id ∈ s.pool.filter (s.hasLapsed now) ↔
      id ∈ s.pool ∧ ∃ t, s.task? id = some t ∧ t.isLapsed now = true := by
    intro id
    rw [List.mem_filter, hasLapsed, Option.any_eq_true]
  obtain ⟨htask, hexpressions⟩ := releaseAll_spec (s.pool.filter (s.hasLapsed now)) h (by
    intro id hid
    obtain ⟨-, t, ht, -⟩ := (hmem id).mp hid
    exact ⟨t, ht⟩)
  exact ⟨htask, hmem, hexpressions⟩

/-! ## What a command does to a task -/

/-- What can become of a stored task by one command. -/
inductive Treats (s : Store) : Command → Task → Task → Prop
  | stays (c : Command) (t : Task) : Treats s c t t
  | handed {c : Command} {a : Assignment} {t : Task} (deadline : Instant) :
      s.Hands c a → a.id = t.id → t.status = .pending →
      Treats s c t { t with status := .dispatched, lease := some deadline }
  | ended {t : Task} (o : Outcome) (now : Instant) :
      s.Takes (.report t.id o now) t.id → t.status.isTerminal = false →
      Treats s (.report t.id o now) t (t.ended o)
  | released {t : Task} (now : Instant) :
      t.id ∈ (s.reap now).1 → t.isLapsed now = true → Treats s (.reap now) t (release t)

theorem Treats.plain {c : Command} {t t' : Task} (h : Treats s c t t') : t'.plain = t.plain := by
  cases h with
  | ended o _ _ => exact (ended_keeps t o).1
  | _ => rfl

/-- A stored task stays stored. -/
theorem treats (h : Sound s) (c : Command) {id : TaskId} {t : Task} (ht : s.task? id = some t) :
    ∃ t', (s.perform c).2.task? id = some t' ∧ Treats s c t t' := by
  have hid := h.task_id ht
  subst hid
  cases c with
  | put e tasks fresh =>
    show ∃ t', (s.put e tasks).2.task? t.id = some t' ∧ _
    refine ⟨t, ?_, .stays _ t⟩
    rcases put_cases s e tasks with ⟨fault, hput⟩ | ⟨-, hput⟩
    · rw [hput, ht]
    · rw [hput]
      exact task?_accept_of_stored ht
  | claim select lawful policy now =>
    by_cases hh : ∃ a, s.Hands (.claim select lawful policy now) a
    · obtain ⟨a, hh⟩ := hh
      obtain ⟨_, _, _, _, u, deadline, -, -, hu, hpending, hassigned, -, hlater⟩ := hands_spec h hh
      have hid := h.task_id hu
      rw [← hid] at hu
      rw [hlater, task?_setTask (t := { u with status := .dispatched, lease := some deadline }) hu]
      by_cases hut : t.id = u.id
      · obtain rfl : t = u := Option.some.inj (ht.symm.trans (hut ▸ hu))
        exact ⟨_, if_pos rfl, .handed deadline hh hid.symm hpending⟩
      · exact ⟨t, (if_neg hut).trans ht, .stays _ t⟩
    · refine ⟨t, ?_, .stays _ t⟩
      show (s.claim select policy now).2.task? t.id = some t
      rcases claim_cases s select policy now with ⟨answer, hclaim, -⟩ | ⟨u, a, deadline, -, -, -, hclaim⟩
      · rw [hclaim, ht]
      · exact absurd ⟨a, by simp [Hands, perform, hclaim]⟩ hh
  | report id o now =>
    show ∃ t', (s.report id o now).2.task? t.id = some t' ∧ _
    rcases report_cases h id o now with ⟨fault, hreport⟩ | ⟨u, status, hu, hen, hreport⟩
    · exact ⟨t, by rw [hreport, ht], .stays _ t⟩
    · obtain ⟨-, -, -, -, -, htask, -⟩ := finish_spec h o now hen.1
      have htaken : s.Takes (.report id o now) id := ⟨o, now, status, rfl, by rw [hreport]⟩
      have hid := h.task_id hu
      subst hid
      rw [hreport]
      show ∃ t', ((Change.finish u o now).apply s).task? t.id = some t' ∧ _
      rw [htask]
      by_cases hut : t.id = u.id
      · obtain rfl : t = u := Option.some.inj (ht.symm.trans (hut ▸ hu))
        exact ⟨_, if_pos rfl, .ended o now htaken hen.2⟩
      · exact ⟨t, (if_neg hut).trans ht, .stays _ t⟩
  | reap now =>
    obtain ⟨htask, hmem, -⟩ := reap_spec h now
    show ∃ t', (s.reap now).2.task? t.id = some t' ∧ _
    rw [htask]
    by_cases hin : t.id ∈ (s.reap now).1
    · obtain ⟨-, u, hu, hlapsed⟩ := (hmem t.id).mp hin
      obtain rfl : t = u := Option.some.inj (ht.symm.trans hu)
      exact ⟨release t, by rw [if_pos hin, ht, Option.map_some], .released now hin hlapsed⟩
    · exact ⟨t, (if_neg hin).trans ht, .stays _ t⟩

/-! ## What a command does to an expression -/

/-- What can become of a stored expression by one command. -/
inductive Updates (s : Store) : Command → Expression → Expression → Prop
  | stays (c : Command) (e : Expression) : Updates s c e e
  | ended {e e' : Expression} {id : TaskId} (o : Outcome) (now : Instant) :
      s.Takes (.report id o now) id → id ∈ e.tasks → e.status = .pending →
      e'.status.isTerminal = true → e'.updated = now → e'.created = e.created →
      Updates s (.report id o now) e e'

/-- An expression that is moved by one of its tasks stays as it is, or ends at that time. -/
theorem reconcile_cases (e : Expression) (known : TaskId → Option Task) (t : Task) (now : Instant) :
    e.reconcile known t now = e ∨
      (e.status = .pending ∧ (e.reconcile known t now).status.isTerminal = true ∧
        (e.reconcile known t now).updated = now ∧ (e.reconcile known t now).created = e.created) := by
  unfold Expression.reconcile
  cases hs : e.status with
  | completed => exact Or.inl (if_pos rfl)
  | failed => exact Or.inl (if_pos rfl)
  | pending =>
    rw [if_neg (by simp [ExpressionStatus.isTerminal])]
    cases hnext : e.nextStatus known t with
    | pending =>
      refine Or.inl ?_
      simp only [if_true]
      rw [← hs]
    | completed => exact Or.inr ⟨rfl, rfl, rfl, rfl⟩
    | failed => exact Or.inr ⟨rfl, rfl, rfl, rfl⟩

/-- A stored expression stays stored. -/
theorem updates (h : Sound s) (c : Command) {x : ExpressionId} {e : Expression}
    (he : s.expression? x = some e) :
    ∃ e', (s.perform c).2.expression? x = some e' ∧ Updates s c e e' := by
  cases c with
  | put f tasks fresh =>
    show ∃ e', (s.put f tasks).2.expression? x = some e' ∧ _
    refine ⟨e, ?_, .stays _ e⟩
    rcases put_cases s f tasks with ⟨fault, hput⟩ | ⟨-, hput⟩
    · rw [hput, he]
    · rw [hput]
      exact expression?_accept_of_stored he
  | claim select lawful policy now =>
    show ∃ e', (s.claim select policy now).2.expression? x = some e' ∧ _
    refine ⟨e, ?_, .stays _ e⟩
    rcases claim_cases s select policy now with ⟨answer, hclaim, -⟩ | ⟨t, a, deadline, -, -, -, hclaim⟩
    · rw [hclaim, he]
    · rw [hclaim]
      exact he
  | report id o now =>
    show ∃ e', (s.report id o now).2.expression? x = some e' ∧ _
    rcases report_cases h id o now with ⟨fault, hreport⟩ | ⟨t, status, ht, hen, hreport⟩
    · exact ⟨e, by rw [hreport, he], .stays _ e⟩
    · obtain ⟨f, hf, hmem, -, -, -, hexpr⟩ := finish_spec h o now hen.1
      have htaken : s.Takes (.report id o now) id := ⟨o, now, status, rfl, by rw [hreport]⟩
      rw [hreport]
      show ∃ e', ((Change.finish t o now).apply s).expression? x = some e' ∧ _
      rw [hexpr]
      by_cases hx : x = t.owner
      · obtain rfl : e = f := Option.some.inj (he.symm.trans (hx ▸ hf))
        refine ⟨_, if_pos hx, ?_⟩
        rcases reconcile_cases e ((Change.finish t o now).apply s).task? (t.ended o) now with
          hsame | ⟨hpending, hterm, hupdated, hcreated⟩
        · rw [hsame]
          exact .stays _ e
        · exact .ended o now htaken (h.task_id ht ▸ hmem) hpending hterm hupdated hcreated
      · exact ⟨e, (if_neg hx).trans he, .stays _ e⟩
  | reap now =>
    refine ⟨e, ?_, .stays _ e⟩
    show (s.reap now).2.expressions.get? x = some e
    rw [(reap_spec h now).2.2]
    exact he

/-! ## What is new -/

/-- Paths without batches keep the identities of tasks and expressions. -/
theorem Path.keys {may : Store → Change → Prop} {later : Store} (h : Path may s later) (hs : Sound s)
    (hne : ∀ s c, may s c → ∀ e tasks, c ≠ .accept e tasks) :
    later.tasks.keys = s.tasks.keys ∧ later.expressions.keys = s.expressions.keys := by
  refine (h.induct (P := fun later => later.tasks.keys = s.tasks.keys ∧
    later.expressions.keys = s.expressions.keys) ?_ hs ⟨rfl, rfl⟩).2
  intro later c hlater hc hm hp
  obtain ⟨htasks, hexpressions⟩ := Change.keys_apply hlater hc (hne later c hm)
  exact ⟨htasks.trans hp.1, hexpressions.trans hp.2⟩

/-- A command accepts a batch, or keeps the identities of tasks and expressions. -/
theorem keys_perform (h : Sound s) (c : Command) :
    (∃ e tasks fresh, c = .put e tasks fresh ∧ s.refusal e tasks = none ∧
      (s.perform c).2 = s.accept e tasks) ∨
    ((s.perform c).2.tasks.keys = s.tasks.keys ∧ (s.perform c).2.expressions.keys = s.expressions.keys) := by
  cases c with
  | put e tasks fresh =>
    rcases put_cases s e tasks with ⟨fault, hput⟩ | ⟨hr, hput⟩
    · exact Or.inr (by simp only [perform, hput, and_self])
    · exact Or.inl ⟨e, tasks, fresh, rfl, hr, by simp only [perform, hput, Change.apply]⟩
  | claim select lawful policy now =>
    refine Or.inr ((claim_path s lawful policy now).keys h ?_)
    rintro _ _ ⟨t, deadline, rfl⟩ e tasks
    exact Change.noConfusion
  | report id o now =>
    refine Or.inr ((report_path h id o now).keys h ?_)
    rintro _ _ ⟨t, rfl⟩ e tasks
    exact Change.noConfusion
  | reap now =>
    refine Or.inr ((reap_path h now).keys h ?_)
    rintro _ _ ⟨t, rfl⟩ e tasks
    exact Change.noConfusion

/-- A task that is found behind a command was there before, or is one that nobody has worked on. -/
theorem treats_or_fresh (h : Sound s) (c : Command) {id : TaskId} {t' : Task}
    (ht : (s.perform c).2.task? id = some t') :
    (∃ t, s.task? id = some t ∧ Treats s c t t') ∨ (s.task? id = none ∧ t'.IsFresh) := by
  cases hs : s.task? id with
  | some t =>
    obtain ⟨u, hu, htreats⟩ := treats h c hs
    obtain rfl : t' = u := Option.some.inj (ht.symm.trans hu)
    exact Or.inl ⟨t, rfl, htreats⟩
  | none =>
    refine Or.inr ⟨rfl, ?_⟩
    rcases keys_perform h c with ⟨e, tasks, fresh, -, -, hlater⟩ | ⟨hkeys, -⟩
    · rw [hlater] at ht
      rcases task?_accept_cases ht with ht | ⟨hmem, -⟩
      · exact absurd ht (by simp [hs])
      · exact fresh.2 t' hmem
    · rw [task?, Registry.get?_eq_none_iff, ← hkeys, ← Registry.get?_eq_none_iff] at hs
      exact absurd ht (by simp [task?, hs])

/-- An expression that is found behind a command was there before, or waits for all its tasks. -/
theorem updates_or_fresh (h : Sound s) (c : Command) {x : ExpressionId} {e' : Expression}
    (he : (s.perform c).2.expression? x = some e') :
    (∃ e, s.expression? x = some e ∧ Updates s c e e') ∨ (s.expression? x = none ∧ e'.IsFresh) := by
  cases hs : s.expression? x with
  | some e =>
    obtain ⟨f, hf, hupdates⟩ := updates h c hs
    obtain rfl : e' = f := Option.some.inj (he.symm.trans hf)
    exact Or.inl ⟨e, rfl, hupdates⟩
  | none =>
    refine Or.inr ⟨rfl, ?_⟩
    rcases keys_perform h c with ⟨e, tasks, fresh, -, -, hlater⟩ | ⟨-, hkeys⟩
    · rw [hlater] at he
      rcases expression?_accept_cases he with he | ⟨-, rfl⟩
      · exact absurd he (by simp [hs])
      · exact fresh.1
    · rw [expression?, Registry.get?_eq_none_iff, ← hkeys, ← Registry.get?_eq_none_iff] at hs
      exact absurd he (by simp [expression?, hs])

end Piecework.Store
