/-
# Piecework.Proofs.Store.Isolation — no expression touches another.

All expressions share one table of tasks, one list of open tasks and one count of what has been created, and a
failure takes many tasks out of that list at once.  They stay apart because every task that an expression
lists is its own, and because the operands of a task refer to tasks of its own batch only.

An operation that has to do with one expression is described by what it leaves alone (`Confined`): the records
and the tasks of all others, and the pool as it is without its own tasks.  Whether a task of another expression
could be handed out depends on nothing else, so the candidates of all others keep their order as well
(`Confined.candidates`).
-/
import Piecework.Proofs.Store.Progress
import Piecework.Proofs.Store.Tables

namespace Piecework.Store

variable {s later : Store} {x : ExpressionId}

/-! ## What is left alone -/

/-- Whether a task belongs to another expression. -/
def isForeign (s : Store) (x : ExpressionId) (id : TaskId) : Bool :=
  (s.task? id).any fun t => t.owner ≠ x

theorem isForeign_eq_true_iff {id : TaskId} :
    s.isForeign x id = true ↔ ∃ t, s.task? id = some t ∧ t.owner ≠ x := by
  simp [isForeign, Option.any_eq_true]

/-- Whatever happened has to do with one expression: all others keep their records and their tasks, and the
pool without the tasks of that expression is as it was.  New tasks stand behind all others. -/
structure Confined (x : ExpressionId) (s later : Store) : Prop where
  expressions : ∀ y, y ≠ x → later.expression? y = s.expression? y
  tasks : ∀ id t, t.owner ≠ x → (later.task? id = some t ↔ s.task? id = some t)
  pool : later.pool.filter (s.isForeign x) = s.pool.filter (s.isForeign x)
  keys : s.tasks.keys <+: later.tasks.keys

namespace Confined

theorem refl (x : ExpressionId) (s : Store) : Confined x s s :=
  ⟨fun _ _ => rfl, fun _ _ _ => Iff.rfl, rfl, List.prefix_rfl⟩

theorem isForeign_eq (h : Confined x s later) : later.isForeign x = s.isForeign x := by
  funext id
  rw [Bool.eq_iff_iff, isForeign_eq_true_iff, isForeign_eq_true_iff]
  exact exists_congr fun t => and_congr_left fun ht => h.tasks id t ht

theorem mem_pool_iff (h : Confined x s later) {id : TaskId} (hid : s.isForeign x id = true) :
    id ∈ later.pool ↔ id ∈ s.pool := by
  have hmem : id ∈ later.pool.filter (s.isForeign x) ↔ id ∈ s.pool.filter (s.isForeign x) := by
    rw [h.pool]
  simpa only [List.mem_filter, hid, and_true] using hmem

end Confined

/-! ## Candidates of the others -/

/-- The candidates of the others come from the pool without the tasks of the expression. -/
theorem filter_candidates (s : Store) (x : ExpressionId) :
    s.candidates.filter (fun t => t.owner ≠ x)
      = ((s.pool.filter (s.isForeign x)).filterMap s.task?).filter s.isReady := by
  have hforeign : ∀ id t, s.task? id = some t → s.isForeign x id = decide (t.owner ≠ x) := by
    intro id t ht
    rw [isForeign, ht, Option.any_some]
  rw [filterMap_task?_filter hforeign, candidates, List.filter_filter, List.filter_filter]
  exact List.filter_congr fun t _ => Bool.and_comm _ _

/-- The candidates of the others stay the same, in the same order.  What they depend on is theirs, so it has
not changed either. -/
theorem Confined.candidates (h : Confined x s later) (hr : Reachable s) :
    later.candidates.filter (fun t => t.owner ≠ x) = s.candidates.filter (fun t => t.owner ≠ x) := by
  have hfound : ∀ id t, s.task? id = some t → t.owner ≠ x → later.task? id = some t :=
    fun id t ht ho => (h.tasks id t ho).mpr ht
  rw [filter_candidates, filter_candidates, h.isForeign_eq, h.pool]
  have hwalk : (s.pool.filter (s.isForeign x)).filterMap later.task?
      = (s.pool.filter (s.isForeign x)).filterMap s.task? := by
    refine List.filterMap_congr fun id hid => ?_
    obtain ⟨t, ht, ho⟩ := isForeign_eq_true_iff.mp (List.mem_filter.mp hid).2
    rw [ht, hfound id t ht ho]
  rw [hwalk]
  refine List.filter_congr fun t ht => ?_
  obtain ⟨id, hid, hstored⟩ := List.mem_filterMap.mp ht
  obtain ⟨u, hu, ho⟩ := isForeign_eq_true_iff.mp (List.mem_filter.mp hid).2
  obtain rfl : t = u := Option.some.inj (hstored.symm.trans hu)
  refine isReady_congr fun d hd => ?_
  obtain ⟨v, hv, hvo⟩ := hr.owner_of_mem_dependencies hstored hd
  rw [hv, hfound d v hv (hvo ▸ ho)]

/-! ## One operation -/

/-- A batch brings its own expression and that one's tasks. -/
theorem confined_put (s : Store) (e : Expression) (tasks : List Task) :
    Confined e.id s (s.put e tasks).2 := by
  rcases put_cases s e tasks with ⟨fault, hput⟩ | ⟨hr, hput⟩
  · rw [hput]
    exact .refl e.id s
  · obtain ⟨-, -, howner, -, -, hfresh⟩ := refusal_eq_none_iff.mp hr
    rw [hput]
    show Confined e.id s (s.accept e tasks)
    refine ⟨?_, ?_, ?_, ?_⟩
    · intro y hy
      rw [expression?_accept, if_neg hy, Option.or_none]
    · intro id t ht
      constructor
      · intro hstored
        refine (task?_accept_cases hstored).resolve_right ?_
        rintro ⟨hmem, -⟩
        exact ht (howner t hmem)
      · exact task?_accept_of_stored
    · show (s.pool ++ tasks.map Task.id).filter (s.isForeign e.id) = _
      rw [List.filter_append, List.append_right_eq_self]
      refine List.filter_eq_nil_iff.mpr fun id hid => ?_
      obtain ⟨t, ht, rfl⟩ := List.mem_map.mp hid
      rw [isForeign, hfresh t ht]
      exact Bool.false_ne_true
    · rw [keys_accept]
      exact List.prefix_append _ _

/-- Where one task is written again, the tasks of all but its owner are found as before. -/
theorem task?_iff_of_foreign {id : TaskId} {t t' : Task} (ht : s.task? id = some t)
    (ho : t'.owner = t.owner)
    (hlater : ∀ j, later.task? j = if j = id then some t' else s.task? j) (j : TaskId) (u : Task)
    (hu : u.owner ≠ t.owner) : later.task? j = some u ↔ s.task? j = some u := by
  rw [hlater]
  by_cases hj : j = id
  -- The owner's own task is none of the others', neither as it was nor as it is now.
  · rw [if_pos hj, hj, ht, Option.some_inj, Option.some_inj]
    constructor
    · rintro rfl
      exact absurd ho hu
    · rintro rfl
      exact absurd rfl hu
  · rw [if_neg hj]

theorem confined_setTask {t t' : Task} (ht : s.task? t'.id = some t) (ho : t'.owner = t.owner) :
    Confined t.owner s (s.setTask t') :=
  ⟨fun _ _ => rfl, task?_iff_of_foreign ht ho (task?_setTask ht), rfl,
    (Registry.keys_set s.tasks t'.id t').symm ▸ List.prefix_rfl⟩

/-- A task that ends moves its owner, and takes no tasks out of the pool but the owner's. -/
theorem confined_finish (h : Sound s) {t : Task} (o : Outcome) (now : Instant)
    (ht : s.task? t.id = some t) : Confined t.owner s ((Change.finish t o now).apply s) := by
  obtain ⟨e, he, -, -, -, htask, hexpr⟩ := finish_spec h o now ht
  obtain ⟨-, -, howner, -⟩ := ended_keeps t o
  have hends := finish_eq o now he
  refine ⟨?_, task?_iff_of_foreign ht howner htask, ?_, ?_⟩
  · intro y hy
    rw [hexpr, if_neg hy]
  · rw [congrArg Store.pool hends]
    show List.filter _ (List.filter _ (List.filter _ s.pool)) = _
    rw [List.filter_filter, List.filter_filter]
    refine List.filter_congr fun id _ => ?_
    cases hforeign : s.isForeign t.owner id with
    | false => rfl
    | true =>
      obtain ⟨u, hu, ho⟩ := isForeign_eq_true_iff.mp hforeign
      have hne : id ≠ t.id := by
        rintro rfl
        exact ho (congrArg Task.owner (Option.some.inj (hu.symm.trans ht)))
      -- Whatever a failure closes is listed by the expression that fails.
      have hout : ∀ moved, id ∉ closing e moved := by
        intro moved hmem
        obtain ⟨-, -, hlisted⟩ := mem_closing_iff.mp hmem
        obtain ⟨v, hv, hvo⟩ := h.owned he id hlisted
        exact ho (Option.some.inj (hu.symm.trans hv) ▸ hvo)
      simp [hne, hout]
  · rw [congrArg (fun s => Registry.keys (Store.tasks s)) hends]
    exact (Registry.keys_set s.tasks (t.ended o).id (t.ended o)).symm ▸ List.prefix_rfl

theorem confined_report (h : Sound s) {id : TaskId} {t : Task} (ht : s.task? id = some t) (o : Outcome)
    (now : Instant) : Confined t.owner s (s.report id o now).2 := by
  rcases report_cases h id o now with ⟨fault, hreport⟩ | ⟨u, status, hu, hen, hreport⟩
  · rw [hreport]
    exact .refl t.owner s
  · obtain rfl : t = u := Option.some.inj (ht.symm.trans hu)
    rw [hreport]
    exact confined_finish h o now hen.1

/-- When a report makes an expression fail, or finds it failed, none of its tasks is a candidate any more; the
others are candidates as they were, in the same order. -/
theorem candidates_of_failed (h : Reachable s) {id : TaskId} {t : Task} (ht : s.task? id = some t)
    {o : Outcome} {now : Instant} (hf : (s.report id o now).1 = .ok .failed) :
    (s.report id o now).2.candidates = s.candidates.filter fun u => u.owner ≠ t.owner := by
  rw [← (confined_report h.sound ht o now).candidates h]
  refine (List.filter_eq_self.mpr fun u hu => ?_).symm
  obtain ⟨id', hpool, hu', -⟩ := mem_candidates hu
  have hlater : Reachable (s.report id o now).2 := .report id o now h
  obtain ⟨v, e, hv, -, he, hok⟩ := (hlater.mem_pool_iff id').mp hpool
  obtain rfl : u = v := Option.some.inj (hu'.symm.trans hv)
  refine decide_eq_true fun ho => hok ?_
  rcases report_cases h.sound id o now with ⟨fault, hreport⟩ | ⟨w, status, hw, hen, hreport⟩
  · simp [hreport] at hf
  · obtain ⟨-, f, hanswer, hfound⟩ := report_of_open h.sound o now ht
      (Option.some.inj (ht.symm.trans hw) ▸ hen.2)
    rw [hanswer] at hf he
    rw [ho, hfound, Option.some_inj] at he
    exact he ▸ Except.ok.inj hf

/-! ## Tables -/

/-- An expression is spared: its record and its tasks are as they were, and so are their numbers, their places
among the open tasks, what is read of it, and which of its tasks could be handed out, in which order. -/
structure Tables.Spares (b later : Tables) (y : ExpressionId) : Prop where
  expression : later.expressions y = b.expressions y
  tasks : ∀ id t, t.owner = y → (later.tasks id = some t ↔ b.tasks id = some t)
  number : ∀ id t, b.tasks id = some t → t.owner = y → later.number id = b.number id
  opened : ∀ (n : Nat) id t, b.tasks id = some t → t.owner = y →
    (later.opened[n]? = some id ↔ b.opened[n]? = some id)
  view : later.view? y = b.view? y
  candidates : later.candidates.filter (fun t => t.owner = y)
    = b.candidates.filter (fun t => t.owner = y)

theorem Tables.Spares.refl (b : Tables) (y : ExpressionId) : b.Spares b y :=
  ⟨rfl, fun _ _ _ => Iff.rfl, fun _ _ _ _ => rfl, fun _ _ _ _ _ => Iff.rfl, rfl, rfl⟩

/-- A task that was there before keeps its number. -/
theorem Represents.number_eq {b b' : Tables} (h : Represents b s) (h' : Represents b' later)
    (hkeys : s.tasks.keys <+: later.tasks.keys) {id : TaskId} {t : Task} (ht : s.task? id = some t) :
    b'.number id = b.number id := by
  obtain ⟨n, hn⟩ := List.mem_iff_getElem?.mp (Registry.mem_keys_iff.mpr ⟨t, ht⟩)
  have hlater : later.tasks.keys[n]? = some id := by
    obtain ⟨new, hnew⟩ := hkeys
    rw [← hnew, List.getElem?_append_left (List.getElem?_eq_some_iff.mp hn).1, hn]
  rw [(h.number id n).mpr hn, (h'.number id n).mpr hlater]

/-- Whatever has to do with one expression spares the others. -/
theorem Represents.spares {b b' : Tables} (h : Represents b s) (h' : Represents b' later)
    (hc : Confined x s later) (hr : Reachable s) (hs' : Sound later) {y : ExpressionId} (hy : y ≠ x) :
    b.Spares b' y := by
  have htasks : ∀ id t, t.owner = y → (b'.tasks id = some t ↔ b.tasks id = some t) := by
    intro id t ht
    rw [h.tasks, h'.tasks]
    exact hc.tasks id t (ht ▸ hy)
  have hexpression : b'.expressions y = b.expressions y := by
    rw [h.expressions, h'.expressions, hc.expressions y hy]
  refine ⟨hexpression, htasks, ?_, ?_, ?_, ?_⟩
  · intro id t ht _
    exact h.number_eq h' hc.keys (h.tasks ▸ ht)
  · intro n id t ht ho
    rw [h.tasks] at ht
    rw [h.opened, h'.opened, h.number_eq h' hc.keys ht,
      hc.mem_pool_iff (isForeign_eq_true_iff.mpr ⟨t, ht, ho ▸ hy⟩)]
  · rw [Tables.view?, Tables.view?, hexpression]
    refine Option.map_congr fun e he => ?_
    rw [h.expressions] at he
    have hread : b'.tasksIn e = b.tasksIn e := by
      refine List.filterMap_congr fun id hid => ?_
      obtain ⟨t, ht, ho⟩ := hr.sound.owned he id hid
      rw [← h.tasks] at ht
      rw [ht, (htasks id t ho).mpr ht]
    rw [hread]
  · have hown : ∀ tasks : List Task, tasks.filter (fun t => t.owner = y)
        = (tasks.filter fun t => t.owner ≠ x).filter fun t => t.owner = y := by
      intro tasks
      rw [List.filter_filter]
      refine List.filter_congr fun t _ => ?_
      by_cases ht : t.owner = y <;> simp [ht, hy]
    rw [h.candidates hr.sound, h'.candidates hs', hown later.candidates, hc.candidates hr,
      ← hown s.candidates]

/-- Whoever hands a task out has found it among the candidates, and writes it down as dispatched. -/
theorem Tables.claim_eq_some {b : Tables} {select : Selector} {policy : LeasePolicy} {now : Instant}
    {a : Assignment} (h : (b.claim select policy now).1 = .ok (some a)) :
    ∃ t deadline, select b.candidates = some t ∧ b.assignment t = .ok a ∧
      (b.claim select policy now).2
        = b.modify a.id fun t => { t with status := .dispatched, lease := some deadline } := by
  unfold claim at h ⊢
  cases hselect : select b.candidates with
  | none => simp [hselect] at h
  | some t =>
    simp only [hselect] at h ⊢
    cases hassigned : b.assignment t with
    | error fault => simp [hassigned] at h
    | ok a' =>
      simp only [hassigned] at h ⊢
      cases hdeadline : policy.deadline? now t.duration with
      | none => simp [hdeadline] at h
      | some deadline =>
        simp only [hdeadline] at h ⊢
        obtain rfl : a' = a := Option.some.inj (Except.ok.inj h)
        exact ⟨t, deadline, rfl, hassigned, rfl⟩

/-- **Expressions are isolated from each other.**  After any run, a batch spares every expression that is
stored, whether it is accepted or not.  A report spares all expressions but the owner of the task, whatever it
says; and when the owner fails by it, what could be handed out of all others could be handed out before, in the
same order.  A claim writes the status and the lease of the task that it hands out and nothing else, and
spares all expressions but the owner. -/
theorem Tables.isolated_after (run : List Command) :
    let b := Tables.empty.after run
    (∀ e tasks y f, b.expressions y = some f → b.Spares (b.put e tasks).2 y) ∧
      (∀ id t o now, b.tasks id = some t →
        (∀ y, y ≠ t.owner → b.Spares (b.report id o now).2 y) ∧
          ((b.report id o now).1 = .ok .failed →
            (b.report id o now).2.candidates = b.candidates.filter fun u => u.owner ≠ t.owner)) ∧
      ∀ select policy now a, select.Lawful → (b.claim select policy now).1 = .ok (some a) →
        ∃ t deadline, b.tasks a.id = some t ∧ t.owner = a.owner ∧ t.status = .pending ∧
          (b.claim select policy now).2
            = b.modify a.id (fun t => { t with status := .dispatched, lease := some deadline }) ∧
          ∀ y, y ≠ a.owner → b.Spares (b.claim select policy now).2 y := by
  intro b
  have h : Represents b (Store.empty.after run) := Represents.empty.after .empty run
  have hr : Reachable (Store.empty.after run) := reachable_after run
  generalize Store.empty.after run = s at h hr
  have hs := hr.sound
  refine ⟨?_, ?_, ?_⟩
  · intro e tasks y f hf
    obtain ⟨-, hlater⟩ := h.put hs e tasks
    by_cases hy : y = e.id
    -- An expression that comes again is refused.
    · rw [Tables.put, h.refusal]
      cases hrefused : s.refusal e tasks with
      | some fault => exact .refl b y
      | none =>
        obtain ⟨-, -, -, -, hnew, -⟩ := refusal_eq_none_iff.mp hrefused
        rw [h.expressions, hy, hnew] at hf
        exact absurd hf (by simp)
    · exact h.spares hlater (confined_put s e tasks) hr ((put_path s e tasks).sound hs) hy
  · intro id t o now ht
    rw [h.tasks] at ht
    obtain ⟨hanswer, hlater⟩ := h.report hs id o now
    have hs' : Sound (s.report id o now).2 := (report_path hs id o now).sound hs
    refine ⟨fun y hy => h.spares hlater (confined_report hs ht o now) hr hs' hy, fun hf => ?_⟩
    rw [hlater.candidates hs', h.candidates hs]
    exact candidates_of_failed hr ht (hanswer ▸ hf)
  · intro select policy now a hl hok
    obtain ⟨t, deadline, hselect, hassigned, hwritten⟩ := Tables.claim_eq_some hok
    rw [h.candidates hs] at hselect
    rw [h.assignment] at hassigned
    have hmem : t ∈ s.candidates := hl _ _ hselect
    have ht := hs.task?_of_mem_candidates hmem
    obtain ⟨_, -, -, hpending, -⟩ := mem_candidates hmem
    obtain ⟨left, right, -, -, rfl⟩ := assignment_eq_ok_iff.mp hassigned
    rw [hwritten, h.tasks]
    refine ⟨t, deadline, ht, rfl, hpending, rfl, fun y hy => ?_⟩
    have hc : (Change.dispatch t deadline).Enabled s := hmem
    have hconfined : Confined t.owner s ((Change.dispatch t deadline).apply s) := confined_setTask ht rfl
    exact h.spares
      (h.modify (f := fun t => { t with status := .dispatched, lease := some deadline }) ht rfl)
      hconfined hr (hs.apply hc) hy

/-- Two expressions wait.  The first task of the older one is handed out; when it fails, both tasks of its
expression are gone, and the task of the younger expression is what can be handed out. -/
theorem Tables.isolated_after_failed :
    let first : Task := .fresh ⟨1⟩ ⟨0⟩ .multiply (.literal 7) (.literal 3) (.ofMillis 1) .epoch
    let second : Task := .fresh ⟨2⟩ ⟨0⟩ .subtract (.output ⟨1⟩) (.literal 2) (.ofMillis 1) .epoch
    let other : Task := .fresh ⟨4⟩ ⟨3⟩ .add (.literal 4) (.literal 5) (.ofMillis 1) .epoch
    let b := Tables.empty.after [.put (.fresh ⟨0⟩ "7*3-2" [⟨1⟩, ⟨2⟩] .epoch) [first, second],
      .put (.fresh ⟨3⟩ "4+5" [⟨4⟩] .epoch) [other]]
    b.candidates = [first, other] ∧
      b.Spares (b.put (.fresh ⟨0⟩ "7*3-2" [⟨1⟩, ⟨2⟩] .epoch) [first, second]).2 ⟨3⟩ ∧
      b.Spares (b.claim .oldest .standard .epoch).2 ⟨3⟩ ∧
      b.Spares (b.report ⟨1⟩ (.failed "lost") .epoch).2 ⟨3⟩ ∧
      (b.report ⟨1⟩ (.failed "lost") .epoch).2.candidates = [other] := by
  intro first second other b
  obtain ⟨hput, hreport, hclaim⟩ := isolated_after
    [.put (.fresh ⟨0⟩ "7*3-2" [⟨1⟩, ⟨2⟩] .epoch) [first, second],
      .put (.fresh ⟨3⟩ "4+5" [⟨4⟩] .epoch) [other]]
  have hcandidates : b.candidates = [first, other] := by decide +kernel
  have hhanded : (b.claim .oldest .standard .epoch).1
      = .ok (some ⟨⟨1⟩, ⟨0⟩, .multiply, 7, 3, .ofMillis 1⟩) := by decide +kernel
  obtain ⟨_, _, -, -, -, -, hclaimed⟩ := hclaim .oldest .standard .epoch _ Selector.lawful_oldest hhanded
  obtain ⟨hspared, hfailed⟩ := hreport ⟨1⟩ first (.failed "lost") .epoch (by decide +kernel)
  have hleft : (b.report ⟨1⟩ (.failed "lost") .epoch).2.candidates
      = b.candidates.filter fun u => u.owner ≠ first.owner := hfailed (by decide +kernel)
  refine ⟨hcandidates, hput _ _ ⟨3⟩ (.fresh ⟨3⟩ "4+5" [⟨4⟩] .epoch) (by decide +kernel),
    hclaimed ⟨3⟩ (by decide), hspared ⟨3⟩ (by decide), ?_⟩
  rw [hleft, hcandidates]
  rfl

end Piecework.Store
