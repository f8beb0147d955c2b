/-
# Piecework.Proofs.Store.Confluence — reports in any order.

A failure closes the tasks of its expression, and what is reported of them later is written down under an
expression that has ended.  In another order the same reports come before the failure.  Both ways lead to the
same place: a report changes its own task and no other (`Told`), and all the rest of a reachable store follows
from its tasks.

What does depend on the order is when an expression has ended.  Nothing that is asked of a store looks at that
time (`perform_undated`), so stores that differ by it alone answer alike for ever.
-/
import Piecework.Proofs.Store.Coherence

namespace Piecework

namespace Registry

variable {κ α : Type}

/-- Other values under the same keys. -/
def map (r : Registry κ α) (f : α → α) : Registry κ α := ⟨r.entries.map fun e => (e.1, f e.2)⟩

theorem keys_map (r : Registry κ α) (f : α → α) : (r.map f).keys = r.keys := by
  simp [keys, map, Function.comp_def]

theorem map_push (r : Registry κ α) (f : α → α) (k : κ) (a : α) :
    (r.push k a).map f = (r.map f).push k (f a) := by
  simp [map, push]

variable [DecidableEq κ]

theorem get?_map (r : Registry κ α) (f : α → α) (k : κ) : (r.map f).get? k = (r.get? k).map f := by
  rcases r with ⟨entries⟩
  simp only [get?, map]
  induction entries with
  | nil => rfl
  | cons e rest ih =>
    by_cases hk : k = e.1
    · subst hk
      rw [List.map_cons, List.lookup_cons_self, List.lookup_cons_self, Option.map_some]
    · rw [List.map_cons, lookup_cons_of_ne hk, lookup_cons_of_ne hk, ih]

theorem map_set (r : Registry κ α) (f : α → α) (k : κ) (a : α) :
    (r.set k a).map f = (r.map f).set k (f a) := by
  simp only [map, set, List.map_map, mk.injEq]
  refine List.map_congr_left fun e _ => ?_
  by_cases hk : e.1 = k <;> simp [hk]

/-- Registries are known by their keys and by what is found under them. -/
theorem eq_of_get?_eq {r r' : Registry κ α} (hn : r.keys.Nodup) (hkeys : r.keys = r'.keys)
    (h : ∀ k, r.get? k = r'.get? k) : r = r' := by
  have hpairs : ∀ {q : Registry κ α}, q.keys.Nodup →
      q.entries = q.keys.filterMap fun k => (q.get? k).map (Prod.mk k) := by
    intro q hq
    rw [keys, List.filterMap_map, eq_comm]
    refine (List.filterMap_congr fun e he => ?_).trans List.filterMap_some
    rw [Function.comp_apply, get?_of_mem hq he, Option.map_some]
  have hentries : r.entries = r'.entries := by
    rw [hpairs hn, hpairs (hkeys ▸ hn), hkeys]
    exact List.filterMap_congr fun k _ => by rw [h k]
  exact congrArg mk hentries

end Registry

/-- The expression without the time of its last change. -/
def ExpressionOf.undated (e : Expression) : Expression := { e with updated := e.created }

/-- The times make no difference to how an expression moves. -/
theorem ExpressionOf.reconcile_undated (e : Expression) (known : TaskId → Option Task) (t : Task)
    (now : Instant) :
    (Expression.reconcile e.undated known t now).undated = (Expression.reconcile e known t now).undated := by
  have hnext : Expression.nextStatus e.undated known t = Expression.nextStatus e known t := rfl
  have hresult : Expression.finalResult e.undated known = Expression.finalResult e known := rfl
  have hstatus : e.undated.status = e.status := rfl
  unfold Expression.reconcile
  rw [hnext, hresult, hstatus]
  split <;> rfl

/-- Expressions that list the same tasks, and stand as all of them say, stand alike. -/
theorem ExpressionOf.Settled.unique {known : TaskId → Option Task} {e e' : Expression}
    (h : e.Settled known) (h' : e'.Settled known) (htasks : e.tasks = e'.tasks) :
    e.status = e'.status ∧ e.result = e'.result := by
  have hfailed : e.status = .failed ↔ e'.status = .failed := by
    rw [h.failed_iff, h'.failed_iff, htasks]
  have hcompleted : e.status = .completed ↔ e'.status = .completed := by
    rw [h.completed_iff, h'.completed_iff, htasks]
  have hstatus : e.status = e'.status := by
    cases hs : e.status <;> cases hs' : e'.status <;> simp_all
  refine ⟨hstatus, ?_⟩
  rw [h.result, h'.result, hstatus, Expression.finalResult, Expression.finalResult, finalTask?,
    finalTask?, htasks]

namespace Store

variable {s s' later later' : Store}

/-! ## Without the times of the last changes -/

/-- The store without the times at which its expressions changed. -/
def undated (s : Store) : Store := { s with expressions := s.expressions.map ExpressionOf.undated }

theorem expression?_undated (s : Store) (x : ExpressionId) :
    s.undated.expression? x = (s.expression? x).map ExpressionOf.undated :=
  Registry.get?_map _ _ x

theorem undated_setExpression (s : Store) (e : Expression) :
    (s.setExpression e).undated = s.undated.setExpression e.undated :=
  congrArg (Store.mk · s.tasks s.pool) (Registry.map_set s.expressions _ e.id e)

theorem undated_undated (s : Store) : s.undated.undated = s.undated := by
  simp [undated, Registry.map, ExpressionOf.undated, Function.comp_def]

theorem undated_accept (s : Store) (e : Expression) (tasks : List Task) :
    (s.undated.accept e tasks).undated = (s.accept e tasks).undated := by
  have hpush : (s.undated.expressions.push e.id e).map ExpressionOf.undated
      = (s.expressions.push e.id e).map ExpressionOf.undated := by
    rw [Registry.map_push, Registry.map_push]
    exact congrArg (Registry.push · e.id e.undated) (congrArg expressions s.undated_undated)
  exact congrArg (Store.mk · _ _) hpush

theorem refusal_undated (s : Store) (e : Expression) (tasks : List Task) :
    s.undated.refusal e tasks = s.refusal e tasks := by
  have hcontains : s.undated.expressions.contains e.id = s.expressions.contains e.id := by
    rw [Registry.contains, Registry.contains, undated, Registry.get?_map, Option.isSome_map]
  rw [refusal, hcontains]
  rfl

theorem settle_undated (s : Store) (t : Task) (now : Instant) :
    (s.undated.settle t now).1 = (s.settle t now).1 ∧
      (s.undated.settle t now).2.undated = (s.settle t now).2.undated := by
  cases he : s.expression? t.owner with
  | none =>
    have he' : s.undated.expression? t.owner = none := by rw [expression?_undated, he, Option.map_none]
    rw [settle, settle, he, he']
    exact ⟨rfl, s.undated_undated⟩
  | some e =>
    have he' : s.undated.expression? t.owner = some e.undated := by
      rw [expression?_undated, he, Option.map_some]
    have hmoved := e.reconcile_undated s.task? t now
    have hstatus := congrArg ExpressionOf.status hmoved
    have hknown : s.undated.task? = s.task? := rfl
    have hclosing : closing e.undated (Expression.reconcile e.undated s.task? t now)
        = closing e (Expression.reconcile e s.task? t now) := by
      unfold closing
      rw [show (Expression.reconcile e.undated s.task? t now).status
        = (Expression.reconcile e s.task? t now).status from hstatus]
      rfl
    rw [settle_eq now he, settle_eq now he', hknown, hclosing]
    have hset : (s.undated.setExpression (Expression.reconcile e.undated s.task? t now)).undated
        = (s.setExpression (Expression.reconcile e s.task? t now)).undated := by
      rw [undated_setExpression, undated_setExpression, hmoved, undated_undated]
    -- Closing does not look at expressions.
    exact ⟨congrArg Except.ok hstatus,
      congrArg (close · (closing e (Expression.reconcile e s.task? t now))) hset⟩

theorem report_undated (s : Store) (id : TaskId) (o : Outcome) (now : Instant) :
    (s.undated.report id o now).1 = (s.report id o now).1 ∧
      (s.undated.report id o now).2.undated = (s.report id o now).2.undated := by
  rw [report, report, show s.undated.task? id = s.task? id from rfl]
  cases s.task? id with
  | none => exact ⟨rfl, s.undated_undated⟩
  | some t =>
    dsimp only
    cases t.record o with
    | error fault => exact ⟨rfl, s.undated_undated⟩
    | ok ended => exact settle_undated ((s.setTask ended).close [id]) ended now

theorem claim_undated (s : Store) (select : Selector) (policy : LeasePolicy) (now : Instant) :
    (s.undated.claim select policy now).1 = (s.claim select policy now).1 ∧
      (s.undated.claim select policy now).2.undated = (s.claim select policy now).2.undated := by
  rw [claim, claim, show s.undated.next? select = s.next? select from rfl]
  cases s.next? select with
  | none => exact ⟨rfl, s.undated_undated⟩
  | some t =>
    dsimp only
    rw [show s.undated.assignment t = s.assignment t from rfl]
    cases s.assignment t with
    | error fault => exact ⟨rfl, s.undated_undated⟩
    | ok a =>
      dsimp only
      cases policy.deadline? now t.duration with
      | none => exact ⟨rfl, s.undated_undated⟩
      | some deadline =>
        exact ⟨rfl, congrArg (setTask · { t with status := .dispatched, lease := some deadline })
          s.undated_undated⟩

theorem releaseAll_undated (s : Store) (ids : List TaskId) :
    s.undated.releaseAll ids = (s.releaseAll ids).undated := by
  refine List.foldl_hom undated fun s id => ?_
  rw [show s.undated.task? id = s.task? id from rfl]
  cases s.task? id <;> rfl

/-- Nothing that is asked of a store looks at the times at which its expressions changed. -/
theorem perform_undated (s : Store) (c : Command) :
    (s.undated.perform c).1 = (s.perform c).1 ∧
      (s.undated.perform c).2.undated = (s.perform c).2.undated := by
  cases c with
  | put e tasks fresh =>
    rw [perform, perform, put, put, refusal_undated]
    cases s.refusal e tasks with
    | some fault => exact ⟨rfl, s.undated_undated⟩
    | none => exact ⟨rfl, s.undated_accept e tasks⟩
  | claim select lawful policy now =>
    exact (s.claim_undated select policy now).imp_left (congrArg Answer.claim)
  | report id o now => exact (s.report_undated id o now).imp_left (congrArg Answer.report)
  | reap now =>
    refine ⟨rfl, ?_⟩
    show (s.undated.releaseAll _).undated = (s.releaseAll _).undated
    rw [releaseAll_undated, undated_undated]
    rfl

/-- Stores that differ by those times alone answer alike, and differ by nothing else afterwards. -/
theorem alike_after (h : s.undated = s'.undated) (run : List Command) :
    answers perform s run = answers perform s' run ∧ (s.after run).undated = (s'.after run).undated := by
  induction run generalizing s s' with
  | nil => exact ⟨rfl, h⟩
  | cons c rest ih =>
    obtain ⟨hanswer, hlater⟩ := perform_undated s c
    obtain ⟨hanswer', hlater'⟩ := perform_undated s' c
    rw [h] at hanswer hlater
    obtain ⟨hanswers, hafter⟩ := ih (hlater.symm.trans hlater')
    exact ⟨congrArg₂ List.cons (hanswer.symm.trans hanswer') hanswers, hafter⟩

/-! ## What reports leave behind -/

/-- An outcome that is reported for a task, and when it comes in. -/
structure Notice where
  task : TaskId
  outcome : Outcome
  received : Instant

/-- The report as it is given to a store. -/
def Notice.command (n : Notice) : Command := .report n.task n.outcome n.received

/-- What is reported, whenever it comes in. -/
def Notice.content (n : Notice) : TaskId × Outcome := (n.task, n.outcome)

/-- The later store holds what the first one does, but for the outcomes that it was told since. -/
structure Told (s : Store) (contents : List (TaskId × Outcome)) (later : Store) : Prop where
  task_keys : later.tasks.keys = s.tasks.keys
  expression_keys : later.expressions.keys = s.expressions.keys
  reported : ∀ p ∈ contents, later.task? p.1 = (s.task? p.1).map (·.ended p.2)
  silent : ∀ id, id ∉ contents.map Prod.fst → later.task? id = s.task? id
  kept : ∀ x e, s.expression? x = some e → ∃ e', later.expression? x = some e' ∧
    e'.text = e.text ∧ e'.tasks = e.tasks ∧ e'.created = e.created

namespace Told

variable {contents contents' : List (TaskId × Outcome)}

theorem refl (s : Store) : Told s [] s where
  task_keys := rfl
  expression_keys := rfl
  reported _ hp := absurd hp List.not_mem_nil
  silent _ _ := rfl
  kept _ e he := ⟨e, he, rfl, rfl, rfl⟩

/-- It does not matter in which order the store was told. -/
theorem perm (h : Told s contents later) (hp : contents.Perm contents') : Told s contents' later where
  task_keys := h.task_keys
  expression_keys := h.expression_keys
  reported p hmem := h.reported p (hp.mem_iff.mpr hmem)
  silent id hid := h.silent id fun hmem => hid ((hp.map Prod.fst).mem_iff.mp hmem)
  kept := h.kept

/-- Another report, on another task, comes before the others. -/
theorem cons {p : TaskId × Outcome} {next : Store} (h : Told s [p] next) (h' : Told next contents later)
    (hnew : p.1 ∉ contents.map Prod.fst) : Told s (p :: contents) later where
  task_keys := h'.task_keys.trans h.task_keys
  expression_keys := h'.expression_keys.trans h.expression_keys
  reported := by
    intro q hq
    rcases List.mem_cons.mp hq with rfl | hq
    · rw [h'.silent _ hnew]
      exact h.reported q List.mem_cons_self
    · have hne : q.1 ≠ p.1 := fun he => hnew (he ▸ List.mem_map_of_mem hq)
      rw [h'.reported q hq, h.silent q.1 (by simpa using hne)]
  silent := by
    intro id hid
    rw [List.map_cons, List.mem_cons, not_or] at hid
    rw [h'.silent id hid.2, h.silent id (by simpa using hid.1)]
  kept := by
    intro x e he
    obtain ⟨f, hf, htext, htasks, hcreated⟩ := h.kept x e he
    obtain ⟨g, hg, htext', htasks', hcreated'⟩ := h'.kept x f hf
    exact ⟨g, hg, htext'.trans htext, htasks'.trans htasks, hcreated'.trans hcreated⟩

/-- A report on a task that has not ended is accepted, and is all that the store is told. -/
theorem report (h : Sound s) {t : Task} (n : Notice) (ht : s.task? n.task = some t)
    (hopen : t.status.isTerminal = false) :
    (∃ status, (s.perform n.command).1 = .report (.ok status)) ∧
      Told s [n.content] (s.perform n.command).2 := by
  obtain ⟨hen, e, hreport, -⟩ := report_of_open h n.outcome n.received ht hopen
  obtain ⟨f, hf, -, -, -, htask, hexpr⟩ := finish_spec h n.outcome n.received hen.1
  obtain ⟨htasks, hexpressions⟩ := Change.keys_apply h hen fun _ _ => Change.noConfusion
  have hlater : (s.perform n.command).2 = (Change.finish t n.outcome n.received).apply s :=
    congrArg Prod.snd hreport
  have hname : t.id = n.task := h.task_id ht
  refine ⟨⟨e.status, congrArg (Answer.report ∘ Prod.fst) hreport⟩, ?_⟩
  rw [hlater]
  refine ⟨htasks, hexpressions, ?_, ?_, ?_⟩
  · intro p hp
    rw [List.mem_singleton.mp hp]
    show ((Change.finish t n.outcome n.received).apply s).task? n.task
      = (s.task? n.task).map (·.ended n.outcome)
    rw [htask, if_pos hname.symm, ht, Option.map_some]
  · intro id hid
    rw [htask, if_neg fun he => hid (by simp [Notice.content, he, hname])]
  · intro x e he
    by_cases hx : x = t.owner
    · obtain rfl : e = f := Option.some.inj (he.symm.trans (hx ▸ hf))
      obtain ⟨-, htext, htasks⟩ := reconcile_keeps e
        ((Change.finish t n.outcome n.received).apply s).task? (t.ended n.outcome) n.received
      refine ⟨_, (hexpr x).trans (if_pos hx), htext, htasks, ?_⟩
      rcases reconcile_cases e ((Change.finish t n.outcome n.received).apply s).task?
        (t.ended n.outcome) n.received with hsame | ⟨-, -, -, hcreated⟩
      · rw [hsame]
      · exact hcreated
    · exact ⟨e, ((hexpr x).trans (if_neg hx)).trans he, rfl, rfl, rfl⟩

/-- Reports on different tasks that have not ended are all accepted. -/
theorem reports (ns : List Notice) (hn : (ns.map Notice.task).Nodup) :
    ∀ {s : Store}, Sound s →
      (∀ n ∈ ns, ∃ t, s.task? n.task = some t ∧ t.status.isTerminal = false) →
      (∀ a ∈ answers perform s (ns.map Notice.command), ∃ status, a = .report (.ok status)) ∧
        Told s (ns.map Notice.content) (s.after (ns.map Notice.command)) := by
  induction ns with
  | nil => exact fun {s} _ _ => ⟨fun _ ha => absurd ha List.not_mem_nil, .refl s⟩
  | cons n rest ih =>
    intro s h hopen
    rw [List.map_cons, List.nodup_cons] at hn
    obtain ⟨t, ht, ho⟩ := hopen n List.mem_cons_self
    obtain ⟨haccepted, htold⟩ := report h n ht ho
    have hother : ∀ m ∈ rest, m.task ≠ n.task := fun m hm he => hn.1 (he ▸ List.mem_map_of_mem hm)
    -- The first report leaves the tasks alone that the others are about.
    obtain ⟨haccepted', htold'⟩ := ih hn.2 (h.perform n.command) (by
      intro m hm
      rw [htold.silent m.task (by simpa [Notice.content] using hother m hm)]
      exact hopen m (List.mem_cons_of_mem _ hm))
    refine ⟨?_, htold.cons htold' ?_⟩
    · intro a ha
      rcases List.mem_cons.mp ha with rfl | ha
      · exact haccepted
      · exact haccepted' a ha
    · rw [List.map_map]
      exact hn.1

theorem task?_eq (h : Told s contents later) (h' : Told s contents later') : later.task? = later'.task? := by
  funext id
  by_cases hid : id ∈ contents.map Prod.fst
  · obtain ⟨p, hp, rfl⟩ := List.mem_map.mp hid
    rw [h.reported p hp, h'.reported p hp]
  · rw [h.silent id hid, h'.silent id hid]

/-- How the expressions stand follows from what the tasks have come to. -/
theorem undated_expression?_eq (h : Told s contents later) (h' : Told s contents later')
    (hr : Reachable later) (hr' : Reachable later') (x : ExpressionId) :
    later.undated.expression? x = later'.undated.expression? x := by
  rw [expression?_undated, expression?_undated]
  cases he : s.expression? x with
  | none =>
    -- Reports bring no expressions.
    have hkey : x ∉ s.expressions.keys := Registry.get?_eq_none_iff.mp he
    have hnone : later.expression? x = none := Registry.get?_eq_none_iff.mpr (h.expression_keys ▸ hkey)
    have hnone' : later'.expression? x = none := Registry.get?_eq_none_iff.mpr (h'.expression_keys ▸ hkey)
    rw [hnone, hnone']
  | some e =>
    obtain ⟨f, hf, htext, htasks, hcreated⟩ := h.kept x e he
    obtain ⟨f', hf', htext', htasks', hcreated'⟩ := h'.kept x e he
    have hset : f'.Settled later.task? := h.task?_eq h' ▸ hr'.settled.expressions hf'
    obtain ⟨hstatus, hresult⟩ := (hr.settled.expressions hf).unique hset (htasks.trans htasks'.symm)
    have hid : f.id = f'.id := (hr.sound.expression_id hf).trans (hr'.sound.expression_id hf').symm
    rw [hf, hf', Option.map_some, Option.map_some, Option.some_inj]
    simp only [ExpressionOf.undated, ExpressionOf.mk.injEq]
    exact ⟨hid, htext.trans htext'.symm, hstatus, hresult, htasks.trans htasks'.symm,
      hcreated.trans hcreated'.symm, hcreated.trans hcreated'.symm⟩

/-- Reachable stores that were told the same are the same, but for the times of the last changes. -/
theorem undated_eq (h : Told s contents later) (h' : Told s contents later') (hr : Reachable later)
    (hr' : Reachable later') : later.undated = later'.undated := by
  have htask := h.task?_eq h'
  have hexpression := h.undated_expression?_eq h' hr hr'
  have htasks : later.tasks = later'.tasks :=
    Registry.eq_of_get?_eq hr.sound.tasks.nodup (h.task_keys.trans h'.task_keys.symm) (congrFun htask)
  have hexpressions : later.undated.expressions = later'.undated.expressions := by
    refine Registry.eq_of_get?_eq ?_ ?_ hexpression
    · rw [undated, Registry.keys_map]
      exact hr.sound.expressions.nodup
    · rw [undated, undated, Registry.keys_map, Registry.keys_map, h.expression_keys, h'.expression_keys]
  -- Which tasks are open is a matter of their status and of that of their owner.
  have hopen : ∀ {s : Store} {id : TaskId}, s.IsOpen id ↔ ∃ t e, s.task? id = some t ∧
      t.status.isTerminal = false ∧ s.undated.expression? t.owner = some e ∧ e.status ≠ .failed := by
    intro s id
    simp only [IsOpen, expression?_undated, Option.map_eq_some_iff]
    constructor
    · rintro ⟨t, e, ht, ho, he, hs⟩
      exact ⟨t, e.undated, ht, ho, ⟨e, he, rfl⟩, hs⟩
    · rintro ⟨t, _, ht, ho, ⟨e, he, rfl⟩, hs⟩
      exact ⟨t, e, ht, ho, he, hs⟩
  have hpool : later.pool = later'.pool := by
    rw [hr.pool_eq, hr'.pool_eq, htasks]
    refine List.filter_congr fun id _ => decide_eq_decide.mpr ?_
    rw [hopen, hopen, htask]
    simp only [hexpression]
  exact congrArg₂ (fun expressions (rest : _ × _) => Store.mk expressions rest.1 rest.2) hexpressions
    (congrArg₂ Prod.mk htasks hpool)

end Told

/-- Reports on different tasks that have not ended lead to the same store in any order, but for the times of
the last changes. -/
theorem Reachable.undated_reports (h : Reachable s) {ns ns' : List Notice}
    (hperm : (ns.map Notice.content).Perm (ns'.map Notice.content)) (hn : (ns.map Notice.task).Nodup)
    (hopen : ∀ n ∈ ns, ∃ t, s.task? n.task = some t ∧ t.status.isTerminal = false) :
    (∀ a ∈ answers perform s (ns.map Notice.command), ∃ status, a = .report (.ok status)) ∧
      (∀ a ∈ answers perform s (ns'.map Notice.command), ∃ status, a = .report (.ok status)) ∧
      Told s (ns.map Notice.content) (s.after (ns.map Notice.command)) ∧
      (s.after (ns.map Notice.command)).undated = (s.after (ns'.map Notice.command)).undated := by
  have hfst : ∀ ms : List Notice, (ms.map Notice.content).map Prod.fst = ms.map Notice.task :=
    fun ms => List.map_map
  have hperm' : (ns.map Notice.task).Perm (ns'.map Notice.task) := by
    rw [← hfst, ← hfst]
    exact hperm.map Prod.fst
  obtain ⟨haccepted, htold⟩ := Told.reports ns hn h.sound hopen
  obtain ⟨haccepted', htold'⟩ := Told.reports ns' (hperm'.nodup_iff.mp hn) h.sound (by
    intro n hmem
    obtain ⟨m, hm, hname⟩ := List.mem_map.mp (hperm'.mem_iff.mpr (List.mem_map_of_mem hmem))
    rw [← hname]
    exact hopen m hm)
  exact ⟨haccepted, haccepted', htold,
    htold.undated_eq (htold'.perm hperm.symm) (h.after _) (h.after _)⟩

/-! ## In the tables -/

namespace Tables

variable {b b' : Tables}

/-- Tables that differ at most by the times at which their expressions changed. -/
structure Alike (b b' : Tables) : Prop where
  expressions : ∀ x, (b.expressions x).map ExpressionOf.undated = (b'.expressions x).map ExpressionOf.undated
  order : b.order = b'.order
  tasks : b.tasks = b'.tasks
  opened : ∀ n : Nat, b.opened[n]? = b'.opened[n]?
  number : b.number = b'.number
  next : b.next = b'.next

end Tables

theorem Represents.alike {b b' : Tables} (h : Represents b s) (h' : Represents b' s')
    (hsame : s.undated = s'.undated) : b.Alike b' := by
  have hpool : s.undated.pool = s'.undated.pool := by rw [hsame]
  have htasks : s.undated.tasks = s'.undated.tasks := by rw [hsame]
  have hkeys : s.undated.expressions.keys = s'.undated.expressions.keys := by rw [hsame]
  have hnumber : b.number = b'.number := by
    funext id
    refine Option.ext fun n => ?_
    rw [h.number, h'.number]
    exact iff_of_eq (congrArg (fun tasks => (Registry.keys tasks)[n]? = some id) htasks)
  refine ⟨?_, ?_, ?_, ?_, hnumber, ?_⟩
  · intro x
    rw [h.expressions, h'.expressions, ← expression?_undated, ← expression?_undated, hsame]
  · rw [undated, undated, Registry.keys_map, Registry.keys_map] at hkeys
    rw [h.order, h'.order, hkeys]
  · rw [h.tasks, h'.tasks]
    exact congrArg Registry.get? htasks
  · intro n
    refine Option.ext fun id => ?_
    rw [h.opened, h'.opened, hnumber]
    exact and_congr_right fun _ => iff_of_eq (congrArg (id ∈ ·) hpool)
  · rw [h.next, h'.next]
    exact congrArg (List.length ∘ Registry.keys) htasks

/-- **Reports commute.**  Different tasks are reported that have not ended, successes and failures mixed, of
one expression or of many.  In whatever order and at whatever times the reports come in, every one is
accepted and ends its task; and any two orders lead to the same tables, but for the times at which
expressions changed.  Nothing that is asked of them later tells the two apart. -/
theorem Tables.reports_commute (run : List Command) (ns ns' : List Notice)
    (hperm : (ns.map Notice.content).Perm (ns'.map Notice.content)) (hn : (ns.map Notice.task).Nodup)
    (hopen : ∀ n ∈ ns, ∃ t, (Tables.empty.after run).tasks n.task = some t ∧
      t.status.isTerminal = false) :
    let b := Tables.empty.after run
    let first := b.after (ns.map Notice.command)
    let second := b.after (ns'.map Notice.command)
    (∀ a ∈ answers Tables.perform b (ns.map Notice.command), ∃ status, a = .report (.ok status)) ∧
      (∀ a ∈ answers Tables.perform b (ns'.map Notice.command), ∃ status, a = .report (.ok status)) ∧
      (∀ n ∈ ns, first.tasks n.task = (b.tasks n.task).map (·.ended n.outcome)) ∧
      first.Alike second ∧
      ∀ more, answers Tables.perform first more = answers Tables.perform second more ∧
        (first.after more).Alike (second.after more) ∧
        (first.after more).candidates = (second.after more).candidates := by
  intro b first second
  have hr := reachable_after run
  have h : Represents b (Store.empty.after run) := Represents.empty.after .empty run
  have hfirst := h.after hr.sound (ns.map Notice.command)
  have hsecond := h.after hr.sound (ns'.map Notice.command)
  have hr₁ := hr.after (ns.map Notice.command)
  have hr₂ := hr.after (ns'.map Notice.command)
  rw [show (Tables.empty.after run).tasks = _ from h.tasks] at hopen
  obtain ⟨haccepted, haccepted', htold, hsame⟩ := hr.undated_reports hperm hn hopen
  refine ⟨h.answers hr.sound _ ▸ haccepted, h.answers hr.sound _ ▸ haccepted', ?_,
    hfirst.alike hsecond hsame, ?_⟩
  · intro n hmem
    rw [show first.tasks = _ from hfirst.tasks, h.tasks]
    exact htold.reported n.content (List.mem_map_of_mem hmem)
  · intro more
    obtain ⟨hanswers, hlater⟩ := alike_after hsame more
    have hfirst' := hfirst.after hr₁.sound more
    have hsecond' := hsecond.after hr₂.sound more
    refine ⟨?_, hfirst'.alike hsecond' hlater, ?_⟩
    · rw [hfirst.answers hr₁.sound, hsecond.answers hr₂.sound, hanswers]
    · rw [hfirst'.candidates (hr₁.after more).sound, hsecond'.candidates (hr₂.after more).sound]
      -- Candidates are found without a look at the expressions.
      show (Store.undated _).candidates = (Store.undated _).candidates
      rw [hlater]

/-- A success and a failure of the same expression, and a success of another one, the other way round and
at another time. -/
theorem Tables.reports_commute_crossed :
    let task (id owner : BitVec 128) : Task :=
      .fresh ⟨id⟩ ⟨owner⟩ .add (.literal 1) (.literal 2) (.ofMillis 1) .epoch
    let b := Tables.empty.after
      [.put (.fresh ⟨0⟩ "(1+2)*(1+2)" [⟨1⟩, ⟨2⟩] .epoch) [task 1 0, task 2 0],
        .put (.fresh ⟨3⟩ "1+2" [⟨4⟩] .epoch) [task 4 3]]
    let late : Instant := { second := 7, nano := 0 }
    (b.after [.report ⟨1⟩ (.completed 3) .epoch, .report ⟨2⟩ (.failed "lost") .epoch,
        .report ⟨4⟩ (.completed 3) .epoch]).Alike
      (b.after [.report ⟨4⟩ (.completed 3) late, .report ⟨2⟩ (.failed "lost") late,
        .report ⟨1⟩ (.completed 3) late]) := by
  intro task b late
  refine (Tables.reports_commute
    [.put (.fresh ⟨0⟩ "(1+2)*(1+2)" [⟨1⟩, ⟨2⟩] .epoch) [task 1 0, task 2 0],
      .put (.fresh ⟨3⟩ "1+2" [⟨4⟩] .epoch) [task 4 3]]
    [⟨⟨1⟩, .completed 3, .epoch⟩, ⟨⟨2⟩, .failed "lost", .epoch⟩, ⟨⟨4⟩, .completed 3, .epoch⟩]
    [⟨⟨4⟩, .completed 3, late⟩, ⟨⟨2⟩, .failed "lost", late⟩, ⟨⟨1⟩, .completed 3, late⟩]
    ?_ (by decide) ?_).2.2.2.1
  · exact (List.reverse_perm [_, _, _]).symm
  · intro n hn
    have hstored : (b.tasks n.task).map Task.status = some .pending := by
      revert n
      decide +kernel
    obtain ⟨t, ht, hpending⟩ := Option.map_eq_some_iff.mp hstored
    exact ⟨t, ht, by rw [hpending]; rfl⟩

end Store

end Piecework
