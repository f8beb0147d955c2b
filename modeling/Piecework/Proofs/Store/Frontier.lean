/-
# Piecework.Proofs.Store.Frontier — a store in which one plan is half done.

When a single plan is worked off by a worker who always takes the oldest task, the store looks the same at
every stop: the tasks in front are completed, and the others have not been touched (`Frontier`).  Then the
oldest candidate is the first of the others, because all that it depends on stands in front of it; its
operands are known; and its completion leads to the next stop, while its failure leaves no candidate at all.
-/
import Piecework.Proofs.Machine
import Piecework.Proofs.Store.Pool
import Piecework.Proofs.Store.Status

namespace Piecework.Store

variable {s : Store} {x : ExpressionId} {t : Task} {todo : List Task}

/-- The results so far. -/
def results (s : Store) (id : TaskId) : Option Float := (s.task? id).bind Task.result

/-- An operand is read as the number that it stands for by the results so far. -/
theorem operand_eq_ok_iff {a : Argument} {v : Float} :
    s.operand a = .ok v ↔ a.value? s.results = some v := by
  cases a with
  | literal value => simp [operand, Argument.value?]
  | output id =>
    rw [Store.operand, Argument.value?, results]
    cases (s.task? id).bind Task.result <;> simp

/-- Any report on a task that was handed out is accepted, and ends this task and no other. -/
theorem report_dispatched (hs : s.Sound) {deadline : Instant}
    (hen : (Change.dispatch t deadline).Enabled s) (hstored : s.task? t.id = some t) (o : Outcome)
    (now : Instant) :
    ∃ status later, ((Change.dispatch t deadline).apply s).report t.id o now = (.ok status, later) ∧
      later.tasks.keys = s.tasks.keys ∧
      ∀ id, later.task? id = if id = t.id then some (t.ended o) else s.task? id := by
  have hhanded := hs.apply hen
  have htask := task?_setTask (t := { t with status := .dispatched, lease := some deadline }) hstored
  obtain ⟨hen', e, hreport, -⟩ := report_of_open hhanded o now ((htask t.id).trans (if_pos rfl)) rfl
  have hkeys := (Change.keys_apply hs hen fun _ _ => Change.noConfusion).1
  have hkeys' := (Change.keys_apply hhanded hen' fun _ _ => Change.noConfusion).1
  obtain ⟨-, -, -, -, -, hlater, -⟩ := finish_spec hhanded o now hen'.1
  refine ⟨_, _, hreport, hkeys'.trans hkeys, ?_⟩
  intro id
  rw [hlater]
  by_cases hid : id = t.id
  · rw [if_pos hid, if_pos hid]
    cases o <;> rfl
  · rw [if_neg hid, if_neg hid]
    exact (htask id).trans (if_neg hid)

/-- The tasks of one expression are completed up to some place, and untouched from there on. -/
structure Frontier (s : Store) (x : ExpressionId) (todo : List Task) : Prop where
  reachable : Reachable s
  waiting : ∀ t ∈ todo, s.task? t.id = some t ∧ t.IsFresh ∧ t.owner = x
  behind : ∀ {id t}, s.task? id = some t → t ∈ todo ∨ t.status = .completed
  keys : ∃ front, s.tasks.keys = front ++ todo.map Task.id ∧ Batch.Ordered front todo

namespace Frontier

theorem status_of_mem (h : Frontier s x todo) (ht : t ∈ todo) : t.status = .pending := by
  rw [← (h.waiting t ht).2.1]
  rfl

/-- Whatever stands in front is completed. -/
theorem completed_of_mem (h : Frontier s x todo) {front : List TaskId}
    (hkeys : s.tasks.keys = front ++ todo.map Task.id) {id : TaskId} (hid : id ∈ front) :
    ∃ u, s.task? id = some u ∧ u.status = .completed := by
  have hnodup := h.reachable.sound.tasks.nodup
  have hstored : s.task? id ≠ none := by
    rw [Ne, task?, Registry.get?_eq_none_iff, not_not, hkeys]
    exact List.mem_append_left _ hid
  obtain ⟨u, hu⟩ := Option.ne_none_iff_exists'.mp hstored
  refine ⟨u, hu, (h.behind hu).resolve_left ?_⟩
  intro hmem
  rw [hkeys, List.nodup_append] at hnodup
  have hid' := h.reachable.sound.task_id hu
  exact hnodup.2.2 id hid id (hid' ▸ List.mem_map_of_mem hmem) rfl

theorem nodup (h : Frontier s x todo) : (todo.map Task.id).Nodup := by
  obtain ⟨front, hkeys, -⟩ := h.keys
  have hnodup := h.reachable.sound.tasks.nodup
  rw [hkeys, List.nodup_append] at hnodup
  exact hnodup.2.1

/-- The untouched tasks are open, and nothing else is. -/
theorem isOpen_iff (h : Frontier s x todo) {id : TaskId} {t : Task} (ht : s.task? id = some t) :
    s.IsOpen id ↔ t ∈ todo := by
  constructor
  · rintro ⟨u, e, hu, hopen, -⟩
    obtain rfl : t = u := Option.some.inj (ht.symm.trans hu)
    refine (h.behind ht).resolve_right ?_
    intro hdone
    simp [hdone, TaskStatus.isTerminal] at hopen
  · intro hmem
    obtain ⟨e, he, -⟩ := h.reachable.sound.listed ht
    refine ⟨t, e, ht, by rw [h.status_of_mem hmem]; rfl, he, ?_⟩
    intro hfailed
    obtain ⟨id', -, hstatus⟩ := (h.reachable.settled.expressions he).failed_iff.mp hfailed
    obtain ⟨u, hu, hstatus⟩ := Option.map_eq_some_iff.mp hstatus
    rcases h.behind hu with hmem' | hdone
    · rw [h.status_of_mem hmem'] at hstatus
      exact absurd hstatus (by simp)
    · rw [hdone] at hstatus
      exact absurd hstatus (by simp)

/-- The untouched tasks are the pool. -/
theorem pool_eq (h : Frontier s x todo) : s.pool = todo.map Task.id := by
  obtain ⟨front, hkeys, -⟩ := h.keys
  have hnodup := h.reachable.sound.tasks.nodup
  rw [h.reachable.pool_eq, hkeys, List.filter_append]
  have hfront : front.filter (s.IsOpen ·) = [] := by
    refine List.filter_eq_nil_iff.mpr ?_
    intro id hid hopen
    obtain ⟨u, hu, hdone⟩ := h.completed_of_mem hkeys hid
    have hmem := (h.isOpen_iff hu).mp (of_decide_eq_true hopen)
    rw [h.status_of_mem hmem] at hdone
    exact absurd hdone (by simp)
  have hrest : (todo.map Task.id).filter (s.IsOpen ·) = todo.map Task.id := by
    refine List.filter_eq_self.mpr fun id hid => decide_eq_true ?_
    obtain ⟨t, ht, rfl⟩ := List.mem_map.mp hid
    exact (h.isOpen_iff (h.waiting t ht).1).mpr ht
  rw [hfront, hrest, List.nil_append]

/-- The first stop: an empty store that has just taken a plan in. -/
theorem of_empty {e : Expression} {tasks : List Task} (hr : empty.refusal e tasks = none)
    (he : e.IsFresh) (hfresh : ∀ t ∈ tasks, t.IsFresh) :
    Frontier (empty.accept e tasks) e.id tasks := by
  obtain ⟨-, -, howner, hvalid, -⟩ := refusal_eq_none_iff.mp hr
  obtain ⟨hordered, -⟩ := (Batch.validate_eq_ok_iff howner).mp hvalid
  have hreach : Reachable (empty.put e tasks).2 := .put .refl he hfresh
  rw [put, hr] at hreach
  refine ⟨hreach, fun t ht => ⟨task?_accept_of_mem hr ht, hfresh t ht, howner t ht⟩, fun ht => ?_,
    [], keys_accept _ _ _, hordered⟩
  rcases task?_accept_cases ht with ht | ⟨ht, -⟩
  · exact absurd ht (by simp [task?, empty])
  · exact Or.inl ht

/-- At the first stop there are no results. -/
theorem results_of_empty {e : Expression} {tasks : List Task} (hfresh : ∀ t ∈ tasks, t.IsFresh) :
    (empty.accept e tasks).results = fun _ => none := by
  funext id
  rw [results]
  cases ht : (empty.accept e tasks).task? id with
  | none => rfl
  | some t =>
    rcases task?_accept_cases ht with ht | ⟨ht, -⟩
    · exact absurd ht (by simp [task?, empty])
    · rw [Option.bind_some, ← hfresh t ht]
      rfl

/-! ## The next task -/

theorem candidates_eq (h : Frontier s x todo) : s.candidates = todo.filter s.isReady := by
  have hstored : ∀ l : List Task, (∀ t ∈ l, t ∈ todo) → (l.map Task.id).filterMap s.task? = l := by
    intro l hl
    induction l with
    | nil => rfl
    | cons t rest ih =>
      rw [List.map_cons, List.filterMap_cons, (h.waiting t (hl t List.mem_cons_self)).1,
        ih fun u hu => hl u (List.mem_cons_of_mem t hu)]
  rw [candidates, h.pool_eq, hstored todo fun _ ht => ht]

/-- What the first untouched task depends on is completed. -/
theorem completed_of_mem_dependencies (h : Frontier s x (t :: todo)) {id : TaskId}
    (hid : id ∈ t.dependencies) : ∃ u, s.task? id = some u ∧ u.status = .completed := by
  obtain ⟨front, hkeys, hordered⟩ := h.keys
  exact h.completed_of_mem hkeys (hordered.1 id hid)

/-- The first untouched task is the oldest candidate. -/
theorem next?_eq (h : Frontier s x (t :: todo)) : s.next? .oldest = some t := by
  have hready : s.isReady t = true := by
    rw [isReady, Bool.and_eq_true, decide_eq_true_eq, decide_eq_true_eq]
    refine ⟨h.status_of_mem List.mem_cons_self, Task.resolution_eq_ready_iff.mpr ?_⟩
    intro id hid
    obtain ⟨u, hu, hdone⟩ := h.completed_of_mem_dependencies hid
    rw [hu, Option.map_some, hdone]
  rw [next?, Selector.oldest, h.candidates_eq, List.filter_cons_of_pos hready, List.head?_cons]

/-- The operands of the first untouched task are known. -/
theorem operand (h : Frontier s x (t :: todo)) {a : Argument} (ha : a = t.left ∨ a = t.right) :
    ∃ v, a.value? s.results = some v := by
  cases a with
  | literal value => exact ⟨value, rfl⟩
  | output id =>
    have hdeps : t.dependencies = t.left.dependencies t.right := by
      rw [← (h.waiting t List.mem_cons_self).2.1]
      rfl
    have hid : id ∈ t.dependencies := by
      rw [hdeps, Argument.mem_dependencies_iff]
      rcases ha with ha | ha
      · exact Or.inl (by rw [← ha]; rfl)
      · exact Or.inr (by rw [← ha]; rfl)
    obtain ⟨u, hu, hdone⟩ := h.completed_of_mem_dependencies hid
    obtain ⟨v, hv⟩ := Option.isSome_iff_exists.mp ((h.reachable.settled.tasks hu).result.mp hdone)
    refine ⟨v, ?_⟩
    rw [Argument.value?, results, hu, Option.bind_some, hv]

/-! ## One task after the other -/

/-- The first untouched task is handed out with its operands. -/
theorem claim (h : Frontier s x (t :: todo)) {policy : LeasePolicy} {now : Instant}
    (hd : (policy.deadline? now t.duration).isSome) :
    ∃ a b deadline, t.left.value? s.results = some a ∧ t.right.value? s.results = some b ∧
      (Change.dispatch t deadline).Enabled s ∧
      s.claim .oldest policy now
        = (.ok (some ⟨t.id, t.owner, t.operation, a, b, t.duration⟩),
          (Change.dispatch t deadline).apply s) := by
  obtain ⟨a, ha⟩ := h.operand (Or.inl rfl)
  obtain ⟨b, hb⟩ := h.operand (Or.inr rfl)
  obtain ⟨deadline, hdeadline⟩ := Option.isSome_iff_exists.mp hd
  have hassigned : s.assignment t = .ok ⟨t.id, t.owner, t.operation, a, b, t.duration⟩ := by
    rw [assignment, operand_eq_ok_iff.mpr ha, operand_eq_ok_iff.mpr hb]
  refine ⟨a, b, deadline, ha, hb, List.mem_of_head? h.next?_eq, ?_⟩
  rw [Store.claim, h.next?_eq]
  simp only [hassigned, hdeadline]
  rfl

/-- One round: the first untouched task is handed out, and its outcome is recorded. -/
theorem work (h : Frontier s x (t :: todo)) {policy : LeasePolicy} {fetched : Instant}
    (hd : (policy.deadline? fetched t.duration).isSome) :
    ∃ a b handed, t.left.value? s.results = some a ∧ t.right.value? s.results = some b ∧
      s.claim .oldest policy fetched
        = (.ok (some ⟨t.id, t.owner, t.operation, a, b, t.duration⟩), handed) ∧
      ∀ o reported, ∃ status later, handed.report t.id o reported = (.ok status, later) ∧
        Leads s later ∧ later.tasks.keys = s.tasks.keys ∧
        ∀ id, later.task? id = if id = t.id then some (t.ended o) else s.task? id := by
  obtain ⟨a, b, deadline, ha, hb, hen, hclaim⟩ := h.claim hd
  refine ⟨a, b, _, ha, hb, hclaim, ?_⟩
  intro o reported
  obtain ⟨status, later, hreport, hkeys, htask⟩ :=
    report_dispatched h.reachable.sound hen (h.waiting t List.mem_cons_self).1 o reported
  have hleads : Leads s (s.claim .oldest policy fetched).2 :=
    .claim policy fetched .refl Selector.lawful_oldest
  have hleads' := hleads.report t.id o reported
  rw [hclaim, hreport] at hleads'
  exact ⟨status, later, hreport, hleads', hkeys, htask⟩

/-- A completed task leads to the next stop. -/
theorem completed (h : Frontier s x (t :: todo)) {later : Store} {v : Float} (hl : Leads s later)
    (hkeys : later.tasks.keys = s.tasks.keys)
    (htask : ∀ id, later.task? id = if id = t.id then some (t.ended (.completed v)) else s.task? id) :
    Frontier later x todo ∧ later.results = noting s.results t.id v := by
  have hnodup := h.nodup
  rw [List.map_cons, List.nodup_cons] at hnodup
  refine ⟨⟨Leads.trans h.reachable hl, ?_, ?_, ?_⟩, ?_⟩
  · intro u hu
    have hne : u.id ≠ t.id := fun he => hnodup.1 (he ▸ List.mem_map_of_mem hu)
    obtain ⟨hstored, hfresh, howner⟩ := h.waiting u (List.mem_cons_of_mem t hu)
    exact ⟨by rw [htask, if_neg hne, hstored], hfresh, howner⟩
  · intro id u hu
    rw [htask] at hu
    split at hu
    · rw [← Option.some.inj hu]
      exact Or.inr rfl
    · rename_i hne
      rcases h.behind hu with hmem | hdone
      · rcases List.mem_cons.mp hmem with rfl | hmem
        · exact absurd (h.reachable.sound.task_id hu).symm hne
        · exact Or.inl hmem
      · exact Or.inr hdone
  · obtain ⟨front, hfront, -, hordered⟩ := h.keys
    refine ⟨front ++ [t.id], ?_, hordered.mono ?_⟩
    -- The front grows by the task that was just completed.
    · rw [hkeys, hfront, List.map_cons, List.append_assoc, List.singleton_append]
    · intro id hid
      rw [List.mem_append, List.mem_singleton]
      exact (List.mem_cons.mp hid).symm
  · funext id
    rw [results, htask]
    by_cases hid : id = t.id
    · rw [if_pos hid, noting, if_pos hid]
      rfl
    · rw [if_neg hid, noting, if_neg hid]
      rfl

/-- A failed task leaves nothing that could be handed out. -/
theorem failed (h : Frontier s x (t :: todo)) {later : Store} {reason : String} (hl : Leads s later)
    (htask : ∀ id, later.task? id = if id = t.id then some (t.ended (.failed reason)) else s.task? id) :
    later.candidates = [] := by
  have hreach : Reachable later := Leads.trans h.reachable hl
  have howner := (h.waiting t List.mem_cons_self).2.2
  have hpool : later.pool = [] := by
    refine List.eq_nil_iff_forall_not_mem.mpr ?_
    intro id hid
    obtain ⟨u, e, hu, hopen, he, hok⟩ := (hreach.mem_pool_iff id).mp hid
    have ht : later.task? t.id = some (t.ended (.failed reason)) := by rw [htask, if_pos rfl]
    have hu' : u.owner = x := by
      rw [htask] at hu
      split at hu
      · rw [← Option.some.inj hu]
        exact howner
      · rcases h.behind hu with hmem | hdone
        · exact (h.waiting u hmem).2.2
        · simp [hdone, TaskStatus.isTerminal] at hopen
    -- Whatever is open belongs to the same expression, and this one has failed with its task.
    obtain ⟨f, hf, hmem⟩ := hreach.sound.listed ht
    rw [hu'] at he
    obtain rfl : e = f := Option.some.inj (he.symm.trans (howner ▸ hf))
    refine hok ((hreach.settled.expressions he).failed_iff.mpr ⟨t.id, hmem, ?_⟩)
    rw [ht]
    rfl
  rw [candidates, hpool]
  rfl

end Frontier

end Piecework.Store
