/-
# Piecework.Proofs.Store.Change — the four ways in which a store changes.

Whatever is asked of a store, it changes only in small steps of four kinds: a batch is accepted, a
candidate is dispatched, a lapsed lease is released, and a task is finished together with the move of
its expression.  This module names the steps, says when each can happen and what is found in the store
behind it.  The tables of a store agree with each other (`Sound`), and every step keeps that.
-/
import Piecework.Proofs.Batch
import Piecework.Store

namespace Piecework.Store

/-! ## Lookups behind the writes -/

theorem task?_setTask {s : Store} {t u : Task} (h : s.task? t.id = some u) (id : TaskId) :
    (s.setTask t).task? id = if id = t.id then some t else s.task? id := by
  show (s.tasks.set t.id t).get? id = _
  rw [Registry.get?_set]
  by_cases hid : id = t.id
  · rw [if_pos hid, if_pos hid, hid]
    show (s.task? t.id).map _ = _
    rw [h, Option.map_some]
  · rw [if_neg hid, if_neg hid]
    rfl

theorem expression?_setExpression {s : Store} {e f : Expression} (h : s.expression? e.id = some f)
    (id : ExpressionId) :
    (s.setExpression e).expression? id = if id = e.id then some e else s.expression? id := by
  show (s.expressions.set e.id e).get? id = _
  rw [Registry.get?_set]
  by_cases hid : id = e.id
  · rw [if_pos hid, if_pos hid, hid]
    show (s.expression? e.id).map _ = _
    rw [h, Option.map_some]
  · rw [if_neg hid, if_neg hid]
    rfl

@[simp]
theorem expression?_setTask (s : Store) (t : Task) (id : ExpressionId) :
    (s.setTask t).expression? id = s.expression? id := rfl

@[simp]
theorem task?_setExpression (s : Store) (e : Expression) (id : TaskId) :
    (s.setExpression e).task? id = s.task? id := rfl

@[simp]
theorem task?_close (s : Store) (ids : List TaskId) (id : TaskId) :
    (s.close ids).task? id = s.task? id := rfl

@[simp]
theorem expression?_close (s : Store) (ids : List TaskId) (id : ExpressionId) :
    (s.close ids).expression? id = s.expression? id := rfl

theorem task?_accept (s : Store) (e : Expression) (tasks : List Task) (id : TaskId) :
    (s.accept e tasks).task? id = (s.task? id).or (Batch.task? tasks id) := by
  show (s.tasks.append _).get? id = _
  rw [Registry.get?_append, Batch.lookup_entries]
  rfl

theorem keys_accept (s : Store) (e : Expression) (tasks : List Task) :
    (s.accept e tasks).tasks.keys = s.tasks.keys ++ tasks.map Task.id := by
  simp [accept, Registry.append, Registry.keys, Function.comp_def]

theorem expression?_accept (s : Store) (e : Expression) (tasks : List Task) (id : ExpressionId) :
    (s.accept e tasks).expression? id
      = (s.expression? id).or (if id = e.id then some e else none) :=
  Registry.get?_push _ _ _ _

/-- Candidates are stored under their identity and wait, with all that they depend on completed. -/
theorem mem_candidates {s : Store} {t : Task} (h : t ∈ s.candidates) :
    ∃ id ∈ s.pool, s.task? id = some t ∧ t.status = .pending ∧ t.resolution s.task? = .ready := by
  rw [candidates, List.mem_filter, List.mem_filterMap] at h
  obtain ⟨⟨id, hid, ht⟩, hready⟩ := h
  simp only [isReady, Bool.and_eq_true, decide_eq_true_eq] at hready
  exact ⟨id, hid, ht, hready⟩

/-! ## Accepting -/

theorem refusal_eq_none_iff {s : Store} {e : Expression} {tasks : List Task} :
    s.refusal e tasks = none ↔
      tasks ≠ [] ∧ tasks.map Task.id = e.tasks ∧ (∀ t ∈ tasks, t.owner = e.id) ∧
        Batch.validate tasks = .ok () ∧ s.expression? e.id = none ∧
        ∀ t ∈ tasks, s.task? t.id = none := by
  unfold refusal
  -- The cases follow the order of the checks: each is reached when those before it have passed.
  by_cases hempty : tasks = []
  · simp [hempty]
  · rw [if_neg (by simpa using hempty)]
    by_cases hlist : tasks.map Task.id = e.tasks
    · rw [if_neg (by simpa using hlist)]
      by_cases howner : ∀ t ∈ tasks, t.owner = e.id
      · rw [if_neg (by simpa using howner)]
        cases hvalid : Batch.validate tasks with
        | error fault => simp
        | ok _ =>
          by_cases hnew : s.expression? e.id = none
          · have hcontains : s.expressions.contains e.id = false :=
              Registry.contains_eq_false_iff.mpr hnew
            simp only [hcontains, Bool.false_eq_true, if_false, Option.map_eq_none_iff,
              List.find?_eq_none, Bool.not_eq_true, Registry.contains_eq_false_iff]
            exact ⟨fun h => ⟨hempty, hlist, howner, trivial, hnew, h⟩, fun h => h.2.2.2.2.2⟩
          · have hcontains : s.expressions.contains e.id = true := by
              rw [← Bool.not_eq_false, Registry.contains_eq_false_iff]
              exact hnew
            simp [hcontains, hnew]
      · rw [if_pos (by simpa using howner)]
        simp [howner]
    · rw [if_pos (by simpa using hlist)]
      simp [hlist]

section Accepted

variable {s : Store} {e : Expression} {tasks : List Task}

/-- The identities of an accepted batch differ. -/
theorem nodup_of_refusal_eq_none (h : s.refusal e tasks = none) : (tasks.map Task.id).Nodup := by
  obtain ⟨-, -, howner, hvalid, -⟩ := refusal_eq_none_iff.mp h
  exact ((Batch.validate_eq_ok_iff howner).mp hvalid).2

theorem task?_accept_of_stored {id : TaskId} {t : Task} (h : s.task? id = some t) :
    (s.accept e tasks).task? id = some t := by
  rw [task?_accept, h, Option.some_or]

theorem expression?_accept_of_stored {x : ExpressionId} {f : Expression}
    (h : s.expression? x = some f) : (s.accept e tasks).expression? x = some f := by
  rw [expression?_accept, h, Option.some_or]

/-- Every task of an accepted batch is stored as it came. -/
theorem task?_accept_of_mem (hr : s.refusal e tasks = none) {t : Task} (ht : t ∈ tasks) :
    (s.accept e tasks).task? t.id = some t := by
  obtain ⟨-, -, -, -, -, hfresh⟩ := refusal_eq_none_iff.mp hr
  rw [task?_accept, hfresh t ht, Option.none_or, Batch.task?_of_mem (nodup_of_refusal_eq_none hr) ht]

/-- The tasks of an accepted batch are found one by one. -/
theorem filterMap_task?_accept (hr : s.refusal e tasks = none) :
    (tasks.map Task.id).filterMap (s.accept e tasks).task? = tasks := by
  have hall : ∀ l : List Task, (∀ t ∈ l, t ∈ tasks) →
      (l.map Task.id).filterMap (s.accept e tasks).task? = l := by
    intro l hl
    induction l with
    | nil => rfl
    | cons t rest ih =>
      rw [List.map_cons, List.filterMap_cons, task?_accept_of_mem hr (hl t List.mem_cons_self),
        ih fun u hu => hl u (List.mem_cons_of_mem t hu)]
  exact hall tasks fun t ht => ht

/-- An accepted expression is stored as it came. -/
theorem expression?_accept_self (hr : s.refusal e tasks = none) :
    (s.accept e tasks).expression? e.id = some e := by
  obtain ⟨-, -, -, -, hnew, -⟩ := refusal_eq_none_iff.mp hr
  rw [expression?_accept, hnew, Option.none_or, if_pos rfl]

theorem task?_accept_cases {id : TaskId} {t : Task} (h : (s.accept e tasks).task? id = some t) :
    s.task? id = some t ∨ (t ∈ tasks ∧ t.id = id) := by
  rw [task?_accept] at h
  rcases Option.or_eq_some_iff.mp h with h | ⟨-, h⟩
  · exact Or.inl h
  · exact Or.inr (Batch.mem_of_task? h)

theorem expression?_accept_cases {x : ExpressionId} {f : Expression}
    (h : (s.accept e tasks).expression? x = some f) : s.expression? x = some f ∨ (x = e.id ∧ f = e) := by
  rw [expression?_accept] at h
  rcases Option.or_eq_some_iff.mp h with h | ⟨-, h⟩
  · exact Or.inl h
  · split at h
    · rename_i hx
      exact Or.inr ⟨hx, (Option.some.inj h).symm⟩
    · exact absurd h (by simp)

end Accepted

/-! ## The tables of a store -/

/-- The tables of a store agree with each other. -/
structure Sound (s : Store) : Prop where
  expressions : s.expressions.Keyed ExpressionOf.id
  tasks : s.tasks.Keyed Task.id
  /-- The pool holds stored tasks, each at most once and in the order of creation. -/
  pool : s.pool.Sublist s.tasks.keys
  /-- The tasks that an expression lists are stored and belong to it. -/
  owned : ∀ {x e}, s.expression? x = some e → ∀ id ∈ e.tasks, ∃ t, s.task? id = some t ∧ t.owner = x
  /-- Every stored task is listed by the expression that it belongs to. -/
  listed : ∀ {id t}, s.task? id = some t → ∃ e, s.expression? t.owner = some e ∧ id ∈ e.tasks
  nonempty : ∀ {x e}, s.expression? x = some e → e.tasks ≠ []

namespace Sound

variable {s : Store}

theorem empty : Sound .empty where
  expressions := .empty _
  tasks := .empty _
  pool := .slnil
  owned h := absurd h (by simp [expression?, Store.empty])
  listed h := absurd h (by simp [task?, Store.empty])
  nonempty h := absurd h (by simp [expression?, Store.empty])

theorem task_id (h : Sound s) {id : TaskId} {t : Task} (ht : s.task? id = some t) : t.id = id :=
  h.tasks.key_of_get? ht

theorem expression_id (h : Sound s) {x : ExpressionId} {e : Expression}
    (he : s.expression? x = some e) : e.id = x :=
  h.expressions.key_of_get? he

/-- A candidate is stored under its own identity. -/
theorem task?_of_mem_candidates (h : Sound s) {t : Task} (ht : t ∈ s.candidates) :
    s.task? t.id = some t := by
  obtain ⟨id, -, hid, -⟩ := mem_candidates ht
  rw [h.task_id hid]
  exact hid

theorem accept (h : Sound s) {e : Expression} {tasks : List Task} (hr : s.refusal e tasks = none) :
    Sound (s.accept e tasks) := by
  obtain ⟨hne, hlist, howner, -, hnew, hfresh⟩ := refusal_eq_none_iff.mp hr
  refine ⟨h.expressions.push hnew, h.tasks.append (nodup_of_refusal_eq_none hr) hfresh, ?_, ?_, ?_, ?_⟩
  · rw [keys_accept]
    exact h.pool.append (List.Sublist.refl _)
  · intro x f hf id hid
    rcases expression?_accept_cases hf with hf | ⟨rfl, rfl⟩
    · obtain ⟨t, ht, hto⟩ := h.owned hf id hid
      exact ⟨t, task?_accept_of_stored ht, hto⟩
    · rw [← hlist] at hid
      obtain ⟨t, ht, rfl⟩ := List.mem_map.mp hid
      exact ⟨t, task?_accept_of_mem hr ht, howner t ht⟩
  · intro id t ht
    rcases task?_accept_cases ht with ht | ⟨hmem, rfl⟩
    · obtain ⟨f, hf, hid⟩ := h.listed ht
      exact ⟨f, expression?_accept_of_stored hf, hid⟩
    · rw [howner t hmem]
      exact ⟨e, expression?_accept_self hr, hlist ▸ List.mem_map_of_mem hmem⟩
  · intro x f hf
    rcases expression?_accept_cases hf with hf | ⟨rfl, rfl⟩
    · exact h.nonempty hf
    · rw [← hlist]
      simpa using hne

theorem setTask (h : Sound s) {t u : Task} (hu : s.task? t.id = some u) (ho : t.owner = u.owner) :
    Sound (s.setTask t) := by
  refine ⟨h.expressions, h.tasks.set t, ?_, ?_, ?_, h.nonempty⟩
  · show s.pool.Sublist (s.tasks.set t.id t).keys
    rw [Registry.keys_set]
    exact h.pool
  · intro x e he id hid
    obtain ⟨v, hv, hvo⟩ := h.owned he id hid
    rw [task?_setTask hu]
    by_cases hidt : id = t.id
    · rw [hidt, hu, Option.some_inj] at hv
      exact ⟨t, by rw [if_pos hidt], by rw [ho, hv, hvo]⟩
    · exact ⟨v, by rw [if_neg hidt, hv], hvo⟩
  · intro id v hv
    rw [task?_setTask hu] at hv
    split at hv
    · rename_i hidt
      rw [Option.some_inj] at hv
      subst hv
      rw [ho, hidt]
      exact h.listed hu
    · exact h.listed hv

theorem close (h : Sound s) (ids : List TaskId) : Sound (s.close ids) :=
  ⟨h.expressions, h.tasks, List.filter_sublist.trans h.pool, h.owned, h.listed, h.nonempty⟩

theorem setExpression (h : Sound s) {e f : Expression} (hf : s.expression? e.id = some f)
    (ht : e.tasks = f.tasks) : Sound (s.setExpression e) := by
  refine ⟨h.expressions.set e, h.tasks, h.pool, ?_, ?_, ?_⟩
  · intro x g hg id hid
    rw [expression?_setExpression hf] at hg
    split at hg
    · rename_i hx
      rw [Option.some_inj] at hg
      subst hg
      rw [hx]
      exact h.owned hf id (ht ▸ hid)
    · exact h.owned hg id hid
  · intro id t hid
    obtain ⟨g, hg, hmem⟩ := h.listed hid
    rw [expression?_setExpression hf]
    by_cases hx : t.owner = e.id
    · rw [hx, hf, Option.some_inj] at hg
      exact ⟨e, by rw [if_pos hx], by rw [ht, hg]; exact hmem⟩
    · exact ⟨g, by rw [if_neg hx, hg], hmem⟩
  · intro x g hg
    rw [expression?_setExpression hf] at hg
    split at hg
    · rw [Option.some_inj] at hg
      subst hg
      rw [ht]
      exact h.nonempty hf
    · exact h.nonempty hg

end Sound

/-! ## Settling a task that has ended -/

/-- Nothing of an expression moves but its status, its result and the time of the last change. -/
theorem reconcile_keeps (e : Expression) (known : TaskId → Option Task) (t : Task) (now : Instant) :
    (e.reconcile known t now).id = e.id ∧ (e.reconcile known t now).text = e.text ∧
      (e.reconcile known t now).tasks = e.tasks := by
  unfold Expression.reconcile
  split <;> exact ⟨rfl, rfl, rfl⟩

@[simp]
theorem close_nil (s : Store) : s.close [] = s := by
  have hp : s.pool.filter (fun id => decide (id ∉ ([] : List TaskId))) = s.pool :=
    List.filter_eq_self.mpr fun _ _ => by simp
  rw [close, hp]

/-- The tasks that leave the pool when an expression moves: all of them when it fails. -/
def closing (e moved : Expression) : List TaskId :=
  if moved.status = .failed ∧ e.status ≠ .failed then e.tasks else []

theorem mem_closing_iff {e moved : Expression} {id : TaskId} :
    id ∈ closing e moved ↔ moved.status = .failed ∧ e.status ≠ .failed ∧ id ∈ e.tasks := by
  unfold closing
  split
  · rename_i h
    exact ⟨fun hid => ⟨h.1, h.2, hid⟩, fun hid => hid.2.2⟩
  · rename_i h
    exact ⟨fun hid => absurd hid List.not_mem_nil, fun hid => absurd ⟨hid.1, hid.2.1⟩ h⟩

theorem settle_eq {s : Store} {t : Task} {e : Expression} (now : Instant)
    (he : s.expression? t.owner = some e) :
    s.settle t now = (.ok (e.reconcile s.task? t now).status,
      (s.setExpression (e.reconcile s.task? t now)).close (closing e (e.reconcile s.task? t now))) := by
  unfold settle closing
  rw [he]
  dsimp only
  split
  · rfl
  · rw [close_nil]

/-- What is found behind a settled task. -/
theorem settle_spec {s : Store} (h : Sound s) {t : Task} {e : Expression} (now : Instant)
    (he : s.expression? t.owner = some e) :
    (s.settle t now).1 = .ok (e.reconcile s.task? t now).status ∧ Sound (s.settle t now).2 ∧
      (∀ id, (s.settle t now).2.task? id = s.task? id) ∧
      ∀ x, (s.settle t now).2.expression? x
        = if x = t.owner then some (e.reconcile s.task? t now) else s.expression? x := by
  have hsettle := settle_eq now he
  obtain ⟨hid, -, htasks⟩ := reconcile_keeps e s.task? t now
  have hname : (e.reconcile s.task? t now).id = t.owner := hid.trans (h.expression_id he)
  rw [← hname] at he
  rw [hsettle]
  refine ⟨rfl, (h.setExpression he htasks).close _, fun _ => rfl, ?_⟩
  intro x
  rw [← hname]
  exact expression?_setExpression he x

/-! ## Steps -/

/-- A step of a store. -/
inductive Change where
  /-- A batch is accepted. -/
  | accept (e : Expression) (tasks : List Task)
  /-- A candidate is handed out. -/
  | dispatch (t : Task) (deadline : Instant)
  /-- A lapsed lease is taken back. -/
  | release (t : Task) (now : Instant)
  /-- A task ends, and its expression moves. -/
  | finish (t : Task) (o : Outcome) (now : Instant)

namespace Change

/-- Whether a step can happen. -/
def Enabled (s : Store) : Change → Prop
  | accept e tasks => s.refusal e tasks = none
  | dispatch t _ => t ∈ s.candidates
  | release t now => t.id ∈ s.pool ∧ s.task? t.id = some t ∧ t.isLapsed now = true
  | finish t _ _ => s.task? t.id = some t ∧ t.status.isTerminal = false

/-- The store behind a step. -/
def apply (s : Store) : Change → Store
  | accept e tasks => s.accept e tasks
  | dispatch t deadline => s.setTask { t with status := .dispatched, lease := some deadline }
  | release t _ => s.setTask (Store.release t)
  | finish t o now => (((s.setTask (t.ended o)).close [t.id]).settle (t.ended o) now).2

end Change

theorem ended_keeps (t : Task) (o : Outcome) :
    (t.ended o).plain = t.plain ∧ (t.ended o).id = t.id ∧ (t.ended o).owner = t.owner ∧
      (t.ended o).status = o.status := by
  cases o <;> exact ⟨rfl, rfl, rfl, rfl⟩

/-- A lapsed task is dispatched. -/
theorem status_of_isLapsed {t : Task} {now : Instant} (h : t.isLapsed now = true) :
    t.status = .dispatched := by
  rw [Task.isLapsed, Bool.and_eq_true, decide_eq_true_eq] at h
  exact h.1

/-- What is found behind a finished task. -/
theorem finish_spec {s : Store} (h : Sound s) {t : Task} (o : Outcome) (now : Instant)
    (ht : s.task? t.id = some t) :
    ∃ e, s.expression? t.owner = some e ∧ t.id ∈ e.tasks ∧
      let s' := (Change.finish t o now).apply s
      let moved := e.reconcile s'.task? (t.ended o) now
      (((s.setTask (t.ended o)).close [t.id]).settle (t.ended o) now).1 = .ok moved.status ∧
        Sound s' ∧ (∀ id, s'.task? id = if id = t.id then some (t.ended o) else s.task? id) ∧
        ∀ x, s'.expression? x = if x = t.owner then some moved else s.expression? x := by
  obtain ⟨e, he, hmem⟩ := h.listed ht
  obtain ⟨-, hid, howner, -⟩ := ended_keeps t o
  rw [← hid] at ht
  have hsound : Sound ((s.setTask (t.ended o)).close [t.id]) := (h.setTask ht howner).close _
  have he' : ((s.setTask (t.ended o)).close [t.id]).expression? (t.ended o).owner = some e := by
    rw [howner]
    exact he
  obtain ⟨hanswer, hsound', htask, hexpr⟩ := settle_spec hsound now he'
  -- The expression is moved by the table in which the task has ended already.
  have hfound : ((Change.finish t o now).apply s).task?
      = ((s.setTask (t.ended o)).close [t.id]).task? := funext htask
  refine ⟨e, he, hmem, ?_, hsound', ?_, ?_⟩
  · rw [hfound]
    exact hanswer
  · intro id
    rw [hfound, ← hid]
    exact task?_setTask ht id
  · intro x
    rw [hfound, ← howner]
    exact hexpr x

/-- The store behind a finished task, table by table. -/
theorem finish_eq {s : Store} {t : Task} (o : Outcome) (now : Instant) {e : Expression}
    (he : s.expression? t.owner = some e) :
    (Change.finish t o now).apply s =
      let moved := e.reconcile ((Change.finish t o now).apply s).task? (t.ended o) now
      (((s.setTask (t.ended o)).close [t.id]).setExpression moved).close (closing e moved) := by
  obtain ⟨-, -, howner, -⟩ := ended_keeps t o
  have he' : ((s.setTask (t.ended o)).close [t.id]).expression? (t.ended o).owner = some e := by
    rw [howner]
    exact he
  have hfound : ((Change.finish t o now).apply s).task?
      = ((s.setTask (t.ended o)).close [t.id]).task? := by
    rw [Change.apply, settle_eq now he']
    rfl
  rw [hfound, Change.apply, settle_eq now he']

/-- The pool behind a finished task. -/
theorem mem_pool_finish {s : Store} {t : Task} (o : Outcome) (now : Instant) {e : Expression}
    (he : s.expression? t.owner = some e) (id : TaskId) :
    id ∈ ((Change.finish t o now).apply s).pool ↔ id ∈ s.pool ∧ id ≠ t.id ∧
      id ∉ closing e (e.reconcile ((Change.finish t o now).apply s).task? (t.ended o) now) := by
  have hpool := congrArg Store.pool (finish_eq o now he)
  rw [hpool]
  show id ∈ List.filter _ (List.filter _ s.pool) ↔ _
  simp only [List.mem_filter, decide_eq_true_eq, List.mem_singleton, and_assoc]

/-- Every step keeps the tables in agreement. -/
theorem Sound.apply {s : Store} (h : Sound s) {c : Change} (hc : c.Enabled s) : Sound (c.apply s) := by
  cases c with
  | accept e tasks => exact h.accept hc
  | dispatch t deadline =>
    have ht : s.task? t.id = some t := h.task?_of_mem_candidates hc
    exact h.setTask ht rfl
  | release t now => exact h.setTask hc.2.1 rfl
  | finish t o now =>
    obtain ⟨e, -, -, -, hsound, -⟩ := finish_spec h o now hc.1
    exact hsound

/-! ## What a step does to a task -/

/-- What can become of a task in one step. -/
inductive Moves : Change → Task → Task → Prop
  | stays (c : Change) (t : Task) : Moves c t t
  | dispatched {t : Task} (deadline : Instant) : t.status = .pending →
      Moves (.dispatch t deadline) t { t with status := .dispatched, lease := some deadline }
  | released {t : Task} (now : Instant) : t.status = .dispatched →
      Moves (.release t now) t (release t)
  | ended {t : Task} (o : Outcome) (now : Instant) : t.status.isTerminal = false →
      Moves (.finish t o now) t (t.ended o)

theorem Moves.plain {c : Change} {t t' : Task} (h : Moves c t t') : t'.plain = t.plain := by
  cases h with
  | ended o _ _ => exact (ended_keeps t o).1
  | _ => rfl

/-- A task that has ended moves no more. -/
theorem Moves.eq_of_isTerminal {c : Change} {t t' : Task} (h : Moves c t t')
    (hterm : t.status.isTerminal = true) : t' = t := by
  cases h with
  | stays => rfl
  | dispatched _ hs => simp [hs, TaskStatus.isTerminal] at hterm
  | released _ hs => simp [hs, TaskStatus.isTerminal] at hterm
  | ended _ _ hs => simp [hs] at hterm

namespace Change

variable {s : Store} {c : Change}

/-- A step accepts a batch, writes a task again that has not ended and does not end, or ends a task. -/
theorem step_cases (h : Sound s) (hc : c.Enabled s) :
    (∃ e tasks, c = .accept e tasks) ∨
      (∃ t t', c.apply s = s.setTask t' ∧ s.task? t.id = some t ∧ Moves c t t' ∧
        t.status.isTerminal = false ∧ t'.status.isTerminal = false) ∨
      ∃ t o now, c = .finish t o now := by
  cases c with
  | accept e tasks => exact Or.inl ⟨e, tasks, rfl⟩
  | dispatch t deadline =>
    obtain ⟨_, -, -, hpending, -⟩ := mem_candidates hc
    refine Or.inr (Or.inl ⟨t, _, rfl, h.task?_of_mem_candidates hc, .dispatched deadline hpending, ?_, rfl⟩)
    rw [hpending]
    rfl
  | release t now =>
    obtain ⟨-, ht, hlapsed⟩ := hc
    have hd := status_of_isLapsed hlapsed
    refine Or.inr (Or.inl ⟨t, _, rfl, ht, .released now hd, ?_, rfl⟩)
    rw [hd]
    rfl
  | finish t o now => exact Or.inr (Or.inr ⟨t, o, now, rfl⟩)

/-- A stored task stays stored. -/
theorem moves (h : Sound s) (hc : c.Enabled s) {id : TaskId} {t : Task} (ht : s.task? id = some t) :
    ∃ t', (c.apply s).task? id = some t' ∧ Moves c t t' := by
  rcases step_cases h hc with ⟨e, tasks, rfl⟩ | ⟨u, u', hwrite, hu, hm, -⟩ | ⟨u, o, now, rfl⟩
  · exact ⟨t, task?_accept_of_stored ht, .stays _ t⟩
  · obtain ⟨hid', -⟩ := Task.work_eq_of_plain_eq hm.plain
    rw [hwrite, task?_setTask (hid' ▸ hu), hid']
    by_cases hid : id = u.id
    · rw [hid, hu, Option.some_inj] at ht
      exact ⟨u', if_pos hid, ht ▸ hm⟩
    · exact ⟨t, (if_neg hid).trans ht, .stays _ t⟩
  · obtain ⟨e, -, -, -, -, htask, -⟩ := finish_spec h o now hc.1
    rw [htask]
    by_cases hid : id = u.id
    · rw [hid, hc.1, Option.some_inj] at ht
      subst ht
      exact ⟨_, if_pos hid, .ended o now hc.2⟩
    · exact ⟨t, (if_neg hid).trans ht, .stays _ t⟩

/-- Only a batch brings new tasks and expressions. -/
theorem keys_apply (h : Sound s) (hc : c.Enabled s) (hne : ∀ e tasks, c ≠ .accept e tasks) :
    (c.apply s).tasks.keys = s.tasks.keys ∧ (c.apply s).expressions.keys = s.expressions.keys := by
  rcases step_cases h hc with ⟨e, tasks, rfl⟩ | ⟨u, u', hwrite, -⟩ | ⟨u, o, now, rfl⟩
  · exact absurd rfl (hne e tasks)
  · rw [hwrite]
    exact ⟨Registry.keys_set _ _ _, rfl⟩
  · obtain ⟨e, he, -⟩ := h.listed hc.1
    rw [finish_eq o now he]
    exact ⟨Registry.keys_set _ _ _, Registry.keys_set _ _ _⟩

/-- A task that is found behind a step was there before, or came with the batch. -/
theorem moves_or_mem (h : Sound s) (hc : c.Enabled s) {id : TaskId} {t' : Task}
    (ht : (c.apply s).task? id = some t') :
    (∃ t, s.task? id = some t ∧ Moves c t t') ∨
      ∃ e tasks, c = .accept e tasks ∧ t' ∈ tasks ∧ t'.id = id := by
  cases hs : s.task? id with
  | some t =>
    obtain ⟨u, hu, hmoves⟩ := moves h hc hs
    rw [ht, Option.some_inj] at hu
    exact Or.inl ⟨t, rfl, hu ▸ hmoves⟩
  | none =>
    by_cases hbatch : ∃ e tasks, c = .accept e tasks
    · obtain ⟨e, tasks, rfl⟩ := hbatch
      rcases task?_accept_cases ht with ht | hmem
      · exact absurd ht (by simp [hs])
      · exact Or.inr ⟨e, tasks, rfl, hmem⟩
    -- Without a batch the table keeps its keys, and nothing new can be found in it.
    · have hkeys := (keys_apply h hc fun e tasks he => hbatch ⟨e, tasks, he⟩).1
      rw [task?, Registry.get?_eq_none_iff, ← hkeys, ← Registry.get?_eq_none_iff] at hs
      exact absurd ht (by simp [task?, hs])

/-! ## What a step does to an expression -/

/-- A stored expression stays stored. -/
theorem keeps_expression (h : Sound s) (hc : c.Enabled s) {x : ExpressionId} {e : Expression}
    (he : s.expression? x = some e) :
    ∃ e', (c.apply s).expression? x = some e' ∧ e'.text = e.text ∧ e'.tasks = e.tasks := by
  cases c with
  | accept f tasks => exact ⟨e, expression?_accept_of_stored he, rfl, rfl⟩
  | dispatch t deadline => exact ⟨e, he, rfl, rfl⟩
  | release t now => exact ⟨e, he, rfl, rfl⟩
  | finish t o now =>
    obtain ⟨f, hf, -, -, -, -, hexpr⟩ := finish_spec h o now hc.1
    by_cases hx : x = t.owner
    · rw [hx, hf, Option.some_inj] at he
      subst he
      obtain ⟨-, htext, htasks⟩ := reconcile_keeps f ((finish t o now).apply s).task? (t.ended o) now
      exact ⟨_, (hexpr x).trans (if_pos hx), htext, htasks⟩
    · exact ⟨e, ((hexpr x).trans (if_neg hx)).trans he, rfl, rfl⟩

/-- An expression that is found behind a step was there before, perhaps with another status, or came with
the step. -/
theorem expression_cases (h : Sound s) (hc : c.Enabled s) {x : ExpressionId} {e' : Expression}
    (he : (c.apply s).expression? x = some e') :
    (∃ e, s.expression? x = some e ∧ e'.text = e.text ∧ e'.tasks = e.tasks) ∨
      ∃ tasks, c = .accept e' tasks ∧ x = e'.id := by
  cases hs : s.expression? x with
  | some e =>
    obtain ⟨f, hf, hkept⟩ := keeps_expression h hc hs
    rw [he, Option.some_inj] at hf
    exact Or.inl ⟨e, rfl, hf ▸ hkept⟩
  | none =>
    by_cases hbatch : ∃ e tasks, c = .accept e tasks
    · obtain ⟨e, tasks, rfl⟩ := hbatch
      rcases expression?_accept_cases he with he | ⟨hx, rfl⟩
      · exact absurd he (by simp [hs])
      · exact Or.inr ⟨tasks, rfl, hx⟩
    · have hkeys := (keys_apply h hc fun e tasks he => hbatch ⟨e, tasks, he⟩).2
      rw [expression?, Registry.get?_eq_none_iff, ← hkeys, ← Registry.get?_eq_none_iff] at hs
      exact absurd he (by simp [expression?, hs])

end Change

end Piecework.Store
