/-
# Piecework.Proofs.Store.Progress — as long as an expression waits, somebody can go on with it.

The tasks of an expression depend only on tasks that its list names before them, and no step changes that
(`Layered`).  So the first task of a waiting expression that is not completed depends on completed tasks
only: it is in the hands of a worker, or it is among the candidates.  A candidate can always be handed out,
because completed tasks have results and its operands refer to nothing else.  Hence a store that hands nothing
out while nobody works has nothing left to do (`Reachable.progress`).
-/
import Piecework.Proofs.Store.Pool
import Piecework.Proofs.Store.Status

namespace Piecework

/-- A selector that takes a candidate if there is any. -/
def Selector.Eager (select : Selector) : Prop := ∀ tasks, select tasks = none → tasks = []

theorem Selector.eager_oldest : Selector.Eager .oldest :=
  fun _ h => List.head?_eq_none_iff.mp h

namespace Store

variable {s : Store}

/-! ## What a task depends on -/

theorem Moves.dependencies {c : Change} {t t' : Task} (h : Moves c t t') :
    t'.dependencies = t.dependencies := by
  cases h with
  | ended o _ _ => cases o <;> rfl
  | _ => rfl

/-- A task depends on what its operands refer to. -/
theorem Reachable.dependencies_eq (h : Reachable s) {id : TaskId} {t : Task}
    (ht : s.task? id = some t) : t.dependencies = t.left.dependencies t.right := by
  refine h.of_moves (P := fun t => t.dependencies = t.left.dependencies t.right) ?_ ?_ ht
  · intro t hfresh
    rw [← hfresh]
    rfl
  · intro c t t' hm hp
    obtain ⟨-, -, -, hleft, hright, -⟩ := Task.work_eq_of_plain_eq hm.plain
    rw [hm.dependencies, hp, hleft, hright]

/-- The tasks of an expression depend on tasks that its list names before them. -/
def Layered (s : Store) : Prop :=
  ∀ x e, s.expression? x = some e → ∀ front id rest, e.tasks = front ++ id :: rest →
    ∀ t, s.task? id = some t → ∀ d ∈ t.dependencies, d ∈ front

/-- An accepted batch is in an order in which it can run. -/
theorem ordered_of_refusal_eq_none {e : Expression} {tasks : List Task}
    (h : s.refusal e tasks = none) : Batch.Ordered [] tasks := by
  obtain ⟨-, -, howner, hvalid, -⟩ := refusal_eq_none_iff.mp h
  exact ((Batch.validate_eq_ok_iff howner).mp hvalid).1

theorem Layered.apply (hl : Layered s) (h : Sound s) {c : Change} (hc : c.Enabled s) :
    Layered (c.apply s) := by
  intro x e' he' front id rest hlist t' ht' d hd
  rcases Change.expression_cases h hc he' with ⟨e, he, -, htasks⟩ | ⟨tasks, rfl, -⟩
  -- A task of an expression that was there before was there before, with the same dependencies.
  · rw [htasks] at hlist
    obtain ⟨t, ht, -⟩ := h.owned he id (by rw [hlist]; simp)
    obtain ⟨u, hu, hm⟩ := Change.moves h hc ht
    obtain rfl : t' = u := Option.some.inj (ht'.symm.trans hu)
    exact hl x e he front id rest hlist t ht d (hm.dependencies ▸ hd)
  · obtain ⟨-, hids, -⟩ := refusal_eq_none_iff.mp hc
    rw [← hids] at hlist
    obtain ⟨before, behind, rfl, hfront, hbehind⟩ := List.map_eq_append_iff.mp hlist
    obtain ⟨t, more, rfl, rfl, -⟩ := List.map_eq_cons_iff.mp hbehind
    have hstored : ((Change.accept e' (before ++ t :: more)).apply s).task? t.id = some t :=
      task?_accept_of_mem hc (List.mem_append_right _ List.mem_cons_self)
    obtain rfl : t' = t := Option.some.inj (ht'.symm.trans hstored)
    rw [← hfront]
    exact ((ordered_of_refusal_eq_none hc).mem_of_mem_dependencies hd).resolve_right List.not_mem_nil

theorem Reachable.layered (h : Reachable s) : Layered s := by
  refine h.induct ?_ fun _ _ hs hc _ hp => hp.apply hs hc
  intro x e he
  exact absurd he (by simp [expression?, empty])

/-- A task depends on tasks of its own expression. -/
theorem Reachable.owner_of_mem_dependencies (h : Reachable s) {id d : TaskId} {t : Task}
    (ht : s.task? id = some t) (hd : d ∈ t.dependencies) :
    ∃ u, s.task? d = some u ∧ u.owner = t.owner := by
  obtain ⟨e, he, hmem⟩ := h.sound.listed ht
  obtain ⟨front, rest, hlist⟩ := List.append_of_mem hmem
  have hfront := h.layered t.owner e he front id rest hlist t ht d hd
  exact h.sound.owned he d (hlist ▸ List.mem_append_left _ hfront)

/-! ## Candidates -/

/-- Whether a task can run depends on the task and on what it depends on. -/
theorem isReady_congr {later : Store} {t : Task} (h : ∀ d ∈ t.dependencies, later.task? d = s.task? d) :
    later.isReady t = s.isReady t := by
  unfold isReady
  congr 1
  rw [decide_eq_decide, Task.resolution_eq_ready_iff, Task.resolution_eq_ready_iff]
  exact forall₂_congr fun d hd => by rw [h d hd]

/-- What waits in the pool and depends on completed tasks only is a candidate. -/
theorem mem_candidates_of_completed {id : TaskId} {t : Task} (hpool : id ∈ s.pool)
    (ht : s.task? id = some t) (hpending : t.status = .pending)
    (hdeps : ∀ d ∈ t.dependencies, (s.task? d).map Task.status = some .completed) :
    t ∈ s.candidates := by
  rw [candidates, List.mem_filter, List.mem_filterMap]
  refine ⟨⟨id, hpool, ht⟩, ?_⟩
  rw [isReady, Bool.and_eq_true, decide_eq_true_eq, decide_eq_true_eq]
  exact ⟨hpending, Task.resolution_eq_ready_iff.mpr hdeps⟩

/-- The operands of a candidate can be read. -/
theorem Reachable.assignment_of_mem_candidates (h : Reachable s) {t : Task} (ht : t ∈ s.candidates) :
    ∃ a, s.assignment t = .ok a := by
  obtain ⟨id, -, hstored, -, hready⟩ := mem_candidates ht
  have hdone := Task.resolution_eq_ready_iff.mp hready
  have hread : ∀ a : Argument, (∀ d, a.dependency? = some d → d ∈ t.dependencies) →
      ∃ v, s.operand a = .ok v := by
    intro a hmem
    cases a with
    | literal value => exact ⟨value, rfl⟩
    | output d =>
      obtain ⟨u, hu, hstatus⟩ := Option.map_eq_some_iff.mp (hdone d (hmem d rfl))
      obtain ⟨v, hv⟩ := Option.isSome_iff_exists.mp ((h.settled.tasks hu).result.mp hstatus)
      exact ⟨v, by rw [operand, hu, Option.bind_some, hv]⟩
  have hdeps := h.dependencies_eq hstored
  obtain ⟨left, hl⟩ := hread t.left fun d hd => by
    rw [hdeps, Argument.mem_dependencies_iff]
    exact Or.inl hd
  obtain ⟨right, hr⟩ := hread t.right fun d hd => by
    rw [hdeps, Argument.mem_dependencies_iff]
    exact Or.inr hd
  exact ⟨_, by rw [assignment, hl, hr]⟩

/-- A claim fails for want of a deadline only. -/
theorem Reachable.claim_ok (h : Reachable s) {select : Selector} (hl : select.Lawful)
    {policy : LeasePolicy} {now : Instant}
    (hd : ∀ t ∈ s.candidates, (policy.deadline? now t.duration).isSome) :
    ∃ answer, (s.claim select policy now).1 = .ok answer := by
  unfold claim
  cases hnext : s.next? select with
  | none => exact ⟨none, rfl⟩
  | some t =>
    have hmem : t ∈ s.candidates := hl _ _ hnext
    obtain ⟨a, ha⟩ := h.assignment_of_mem_candidates hmem
    obtain ⟨deadline, hdeadline⟩ := Option.isSome_iff_exists.mp (hd t hmem)
    exact ⟨some a, by simp only [ha, hdeadline]⟩

/-- Whoever hands nothing out has no candidate. -/
theorem candidates_eq_nil_of_claim {select : Selector} (he : select.Eager) {policy : LeasePolicy}
    {now : Instant} (h : (s.claim select policy now).1 = .ok none) : s.candidates = [] := by
  refine he _ ?_
  show s.next? select = none
  unfold claim at h
  cases hnext : s.next? select with
  | none => rfl
  | some t =>
    simp only [hnext] at h
    split at h
    · exact absurd h (by simp)
    · split at h <;> exact absurd h (by simp)

/-! ## The first task that is not completed -/

/-- A waiting expression has a task that a worker has, or that a worker can have. -/
theorem Reachable.exists_moving (h : Reachable s) {x : ExpressionId} {e : Expression}
    (he : s.expression? x = some e) (hpending : e.status = .pending) :
    ∃ id ∈ e.tasks, ∃ t, s.task? id = some t ∧
      (t.status = .dispatched ∨ (t.status = .pending ∧
        (∀ d ∈ t.dependencies, (s.task? d).map Task.status = some .completed) ∧ t ∈ s.candidates)) := by
  obtain ⟨hnone, hsome⟩ := (h.settled.expressions he).pending_iff.mp hpending
  cases hfind : e.tasks.find? fun id => (s.task? id).map Task.status ≠ some .completed with
  | none => exact absurd (fun id hid => by simpa using List.find?_eq_none.mp hfind id hid) hsome
  | some id =>
    obtain ⟨hopen, front, rest, hlist, hfront⟩ := List.find?_eq_some_iff_append.mp hfind
    have hid : id ∈ e.tasks := List.mem_of_find?_eq_some hfind
    obtain ⟨t, ht, howner⟩ := h.sound.owned he id hid
    have hdeps : ∀ d ∈ t.dependencies, (s.task? d).map Task.status = some .completed := fun d hd => by
      simpa using hfront d (h.layered x e he front id rest hlist t ht d hd)
    refine ⟨id, hid, t, ht, ?_⟩
    have hstatus : (s.task? id).map Task.status = some t.status := by rw [ht, Option.map_some]
    cases hs : t.status with
    | dispatched => exact Or.inl rfl
    | completed =>
      rw [hs] at hstatus
      simp [hstatus] at hopen
    | failed => exact absurd ⟨id, hid, hs ▸ hstatus⟩ hnone
    | pending =>
      refine Or.inr ⟨rfl, hdeps, mem_candidates_of_completed ?_ ht hs hdeps⟩
      refine (h.mem_pool_iff id).mpr ⟨t, e, ht, by rw [hs]; rfl, howner ▸ he, ?_⟩
      rw [hpending]
      exact ExpressionStatus.noConfusion

/-! ## Progress -/

/-- **Nothing gets stuck.**  A waiting expression always has a task that is in the hands of a worker, or that
waits for nothing and is among the candidates.  A claim is never refused as long as the calendar has the
deadlines.  When a claim finds nothing, then each waiting expression has a task in the hands of a worker, and
when no worker has a task, all expressions have ended. -/
theorem Reachable.progress (h : Reachable s) :
    (∀ x e, s.expression? x = some e → e.status = .pending →
      ∃ id ∈ e.tasks, ∃ t, s.task? id = some t ∧
        (t.status = .dispatched ∨ (t.status = .pending ∧
          (∀ d ∈ t.dependencies, (s.task? d).map Task.status = some .completed) ∧
            t ∈ s.candidates))) ∧
    (∀ select policy now, select.Lawful →
      (∀ t ∈ s.candidates, (policy.deadline? now t.duration).isSome) →
      ∃ answer, (s.claim select policy now).1 = .ok answer) ∧
    ∀ select policy now, select.Eager → (s.claim select policy now).1 = .ok none →
      (∀ x e, s.expression? x = some e → e.status = .pending →
        ∃ id ∈ e.tasks, ∃ t, s.task? id = some t ∧ t.status = .dispatched) ∧
      ((∀ id t, s.task? id = some t → t.status ≠ .dispatched) →
        ∀ x e, s.expression? x = some e → e.status.isTerminal = true) := by
  refine ⟨fun x e he hpending => h.exists_moving he hpending,
    fun select policy now hl hd => h.claim_ok hl hd, ?_⟩
  intro select policy now heager hclaim
  have hidle := candidates_eq_nil_of_claim heager hclaim
  have hworked : ∀ x e, s.expression? x = some e → e.status = .pending →
      ∃ id ∈ e.tasks, ∃ t, s.task? id = some t ∧ t.status = .dispatched := by
    intro x e he hpending
    obtain ⟨id, hid, t, ht, hout | ⟨-, -, hmem⟩⟩ := h.exists_moving he hpending
    · exact ⟨id, hid, t, ht, hout⟩
    · rw [hidle] at hmem
      exact absurd hmem List.not_mem_nil
  refine ⟨hworked, ?_⟩
  intro hnobody x e he
  cases hs : e.status with
  | pending =>
    obtain ⟨id, -, t, ht, hout⟩ := hworked x e he hs
    exact absurd hout (hnobody id t ht)
  | completed => rfl
  | failed => rfl

/-- A second claim finds nothing while the first task, on which the other depends, is being worked on. -/
theorem Reachable.progress_handed_out :
    let first : Task := .fresh ⟨1⟩ ⟨0⟩ .divide (.literal 6) (.literal 3) (.ofMillis 1) .epoch
    let second : Task := .fresh ⟨2⟩ ⟨0⟩ .add (.output ⟨1⟩) (.literal 1) (.ofMillis 1) .epoch
    let e := Expression.fresh ⟨0⟩ "6/3+1" [⟨1⟩, ⟨2⟩] .epoch
    let accepted := (Store.empty.put e [first, second]).2
    let handed := (accepted.claim .oldest .standard .epoch).2
    Reachable accepted ∧ (∀ t ∈ accepted.candidates,
        (LeasePolicy.standard.deadline? .epoch t.duration).isSome) ∧
      (∃ answer, (accepted.claim .oldest .standard .epoch).1 = .ok answer) ∧
      Reachable handed ∧ (handed.claim .oldest .standard .epoch).1 = .ok none ∧
      ∃ id ∈ e.tasks, ∃ t, handed.task? id = some t ∧ t.status = .dispatched := by
  intro first second e accepted handed
  have haccepted : Reachable accepted := .put .refl rfl (by decide +kernel)
  have hhanded : Reachable handed := .claim .standard .epoch haccepted Selector.lawful_oldest
  have hdeadlines : ∀ t ∈ accepted.candidates,
      (LeasePolicy.standard.deadline? .epoch t.duration).isSome := by decide +kernel
  have hnothing : (handed.claim .oldest .standard .epoch).1 = .ok none := by decide +kernel
  obtain ⟨-, hclaim, -⟩ := haccepted.progress
  obtain ⟨-, -, hidle⟩ := hhanded.progress
  obtain ⟨hworked, -⟩ := hidle .oldest .standard .epoch Selector.eager_oldest hnothing
  exact ⟨haccepted, hdeadlines,
    hclaim .oldest .standard .epoch Selector.lawful_oldest hdeadlines, hhanded, hnothing,
    hworked ⟨0⟩ e (by decide +kernel) rfl⟩

end Store

end Piecework
