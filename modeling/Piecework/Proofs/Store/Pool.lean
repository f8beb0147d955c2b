/-
# Piecework.Proofs.Store.Pool — which tasks wait in the pool, and in what order.

A task is open as long as it has not ended and its expression has not failed.  The pool of a reachable
store holds exactly the open tasks (`Reachable.mem_pool_iff`), in the order of creation, so it is what is
left of the table of tasks when the others are taken out (`Reachable.pool_eq`).
-/
import Mathlib.Data.List.Perm.Subperm
import Piecework.Proofs.Store.Reachable

namespace Piecework.Store

variable {s : Store}

/-- Whether a task is stored, has not ended, and belongs to an expression that has not failed. -/
def IsOpen (s : Store) (id : TaskId) : Prop :=
  ∃ t e, s.task? id = some t ∧ t.status.isTerminal = false ∧ s.expression? t.owner = some e ∧
    e.status ≠ .failed

instance (s : Store) (id : TaskId) : Decidable (s.IsOpen id) :=
  decidable_of_iff
    ((s.task? id).any (fun t => !t.status.isTerminal &&
      (s.expression? t.owner).any fun e => e.status ≠ .failed) = true)
    (by
      simp only [Option.any_eq_true, Bool.and_eq_true, Bool.not_eq_true', decide_eq_true_eq]
      constructor
      · rintro ⟨t, ht, hopen, e, he, hok⟩
        exact ⟨t, e, ht, hopen, he, hok⟩
      · rintro ⟨t, e, ht, hopen, he, hok⟩
        exact ⟨t, ht, hopen, e, he, hok⟩)

/-- The pool holds the open tasks. -/
def Pooled (s : Store) : Prop := ∀ id, id ∈ s.pool ↔ s.IsOpen id

namespace Pooled

theorem empty : Pooled .empty := by
  intro id
  constructor
  · exact fun h => absurd h List.not_mem_nil
  · rintro ⟨t, -, ht, -⟩
    exact absurd ht (by simp [task?, Store.empty])

theorem accept (hp : Pooled s) (h : Sound s) {e : Expression} {tasks : List Task}
    (hr : s.refusal e tasks = none) (he : e.IsFresh) (ht : ∀ t ∈ tasks, t.IsFresh) :
    Pooled (s.accept e tasks) := by
  obtain ⟨-, -, howner, -⟩ := refusal_eq_none_iff.mp hr
  intro id
  show id ∈ s.pool ++ tasks.map Task.id ↔ _
  rw [List.mem_append, hp id, List.mem_map]
  constructor
  · rintro (⟨t, f, hstored, hopen, hf, hok⟩ | ⟨t, hmem, rfl⟩)
    · exact ⟨t, f, task?_accept_of_stored hstored, hopen, expression?_accept_of_stored hf, hok⟩
    · refine ⟨t, e, task?_accept_of_mem hr hmem, by rw [← ht t hmem]; rfl, ?_,
        by rw [he]; exact ExpressionStatus.noConfusion⟩
      rw [howner t hmem]
      exact expression?_accept_self hr
  · rintro ⟨t, f, hstored, hopen, hf, hok⟩
    rcases task?_accept_cases hstored with hstored | hmem
    · obtain ⟨g, hg, -⟩ := h.listed hstored
      rw [expression?_accept_of_stored hg, Option.some_inj] at hf
      exact Or.inl ⟨t, g, hstored, hopen, hg, hf ▸ hok⟩
    · exact Or.inr ⟨t, hmem⟩

theorem setTask (hp : Pooled s) {c : Change} {t t' : Task} (ht : s.task? t.id = some t)
    (hm : Moves c t t') (hopen : t.status.isTerminal = false) (hopen' : t'.status.isTerminal = false) :
    Pooled (s.setTask t') := by
  obtain ⟨hid, howner, -⟩ := Task.work_eq_of_plain_eq hm.plain
  have hstored : s.task? t'.id = some t := hid ▸ ht
  intro id
  refine (hp id).trans ?_
  unfold IsOpen
  rw [task?_setTask hstored]
  by_cases hx : id = t'.id
  · rw [if_pos hx, hx, hstored]
    constructor
    · rintro ⟨u, e, hu, -, he, hok⟩
      rw [← Option.some.inj hu] at he
      exact ⟨t', e, rfl, hopen', howner ▸ he, hok⟩
    · rintro ⟨u, e, hu, -, he, hok⟩
      rw [← Option.some.inj hu] at he
      exact ⟨t, e, rfl, hopen, howner ▸ he, hok⟩
  · rw [if_neg hx]
    rfl

/-- A failed expression stays failed. -/
theorem reconcile_of_failed {e : Expression} (known : TaskId → Option Task) (t : Task) (now : Instant)
    (h : e.status = .failed) : e.reconcile known t now = e := by
  unfold Expression.reconcile
  rw [h, if_pos (by rfl)]

/-- The end of a task takes this task out, and all tasks of its expression if that fails. -/
theorem finish (hp : Pooled s) (h : Sound s) {t : Task} (o : Outcome) (now : Instant)
    (ht : s.task? t.id = some t) : Pooled ((Change.finish t o now).apply s) := by
  obtain ⟨e, he, -, -, -, htask, hexpr⟩ := finish_spec h o now ht
  obtain ⟨-, -, -, hended⟩ := ended_keeps t o
  intro id
  rw [mem_pool_finish o now he, hp id]
  unfold IsOpen
  rw [htask]
  by_cases hid : id = t.id
  · rw [if_pos hid]
    constructor
    · exact fun hc => absurd hid hc.2.1
    · rintro ⟨u, -, hu, hopen, -⟩
      rw [← Option.some.inj hu, hended] at hopen
      cases o <;> simp [Outcome.status, TaskStatus.isTerminal] at hopen
  · rw [if_neg hid]
    constructor
    -- A task of the same expression is in the pool only if the expression does not fail now.
    · rintro ⟨⟨u, f, hu, hopen, hf, hok⟩, -, hstays⟩
      by_cases ho : u.owner = t.owner
      · rw [ho, he, Option.some_inj] at hf
        subst hf
        obtain ⟨g, hg, hmem⟩ := h.listed hu
        rw [ho, he, Option.some_inj] at hg
        subst hg
        refine ⟨u, _, hu, hopen, (hexpr _).trans (if_pos ho), ?_⟩
        intro hfailed
        exact hstays (mem_closing_iff.mpr ⟨hfailed, hok, hmem⟩)
      · exact ⟨u, f, hu, hopen, (hexpr _).trans ((if_neg ho).trans hf), hok⟩
    -- An expression that has not failed now had not failed before, so its open tasks were open.
    · rintro ⟨u, f, hu, hopen, hf, hok⟩
      rw [hexpr] at hf
      by_cases ho : u.owner = t.owner
      · rw [if_pos ho, Option.some_inj] at hf
        rw [← hf] at hok
        refine ⟨⟨u, e, hu, hopen, ho ▸ he, ?_⟩, hid, ?_⟩
        · intro hfailed
          rw [reconcile_of_failed _ _ _ hfailed] at hok
          exact hok hfailed
        · intro hmem
          exact hok (mem_closing_iff.mp hmem).1
      · rw [if_neg ho] at hf
        refine ⟨⟨u, f, hu, hopen, hf, hok⟩, hid, ?_⟩
        intro hmem
        obtain ⟨v, hv, hown⟩ := h.owned he id (mem_closing_iff.mp hmem).2.2
        rw [hu, Option.some_inj] at hv
        exact ho (hv ▸ hown)

theorem apply (hp : Pooled s) (h : Sound s) {c : Change} (hc : c.Enabled s) (hf : c.IsFresh s) :
    Pooled (c.apply s) := by
  rcases Change.step_cases h hc with
    ⟨e, tasks, rfl⟩ | ⟨t, t', hwrite, ht, hm, hopen, hopen'⟩ | ⟨t, o, now, rfl⟩
  · exact hp.accept h hc hf.1 hf.2
  · rw [hwrite]
    exact hp.setTask ht hm hopen hopen'
  · exact hp.finish h o now hc.1

end Pooled

/-- The pool of a reachable store holds the open tasks. -/
theorem Reachable.mem_pool_iff (h : Reachable s) : Pooled s :=
  h.induct .empty fun _ _ hs hc hf hp => hp.apply hs hc hf

/-- The pool of a reachable store is in the order of creation. -/
theorem Reachable.pool_eq (h : Reachable s) :
    s.pool = s.tasks.keys.filter (s.IsOpen ·) := by
  have hs := h.sound
  have hsub : s.pool.Sublist (s.tasks.keys.filter (s.IsOpen ·)) := by
    have hself : s.pool.filter ((s.IsOpen ·)) = s.pool :=
      List.filter_eq_self.mpr fun id hid => decide_eq_true ((h.mem_pool_iff id).mp hid)
    rw [← hself]
    exact hs.pool.filter _
  -- It is a part of that list, and it lacks none of its members.
  refine hsub.eq_of_length_le (List.Nodup.subperm (hs.tasks.nodup.filter _) ?_).length_le
  intro id hid
  exact (h.mem_pool_iff id).mpr (of_decide_eq_true (List.mem_filter.mp hid).2)

/-- Identities that are left out of a walk are tasks left out of what is found. -/
theorem filterMap_task?_filter {ids : List TaskId} {keeps : TaskId → Bool} {holds : Task → Bool}
    (h : ∀ id t, s.task? id = some t → keeps id = holds t) :
    (ids.filter keeps).filterMap s.task? = (ids.filterMap s.task?).filter holds := by
  rw [List.filterMap_filter, List.filter_filterMap]
  refine List.filterMap_congr fun id _ => ?_
  cases ht : s.task? id with
  | none => simp
  | some t => simp [h id t ht, Option.filter_some]

end Piecework.Store
