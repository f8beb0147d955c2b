/-
# Piecework.Proofs.Store.Reachable — what a store is asked, and which stores come of it.

A store is reachable when it comes from the empty one by accepting fresh batches, handing tasks out,
taking reports and taking leases back, in any order and with any arguments, refused or not.  Each of
these operations is a path of the steps of a store: none or one for the first three, and one for every
lapsed lease for the last.  So what every step keeps holds in every reachable store
(`Reachable.induct`), and nobody has to look into the operations again.
-/
import Piecework.Proofs.Store.Change

namespace Piecework

/-- An expression that no task has been reported for. -/
def ExpressionOf.IsFresh (e : Expression) : Prop := e = .fresh e.id e.text e.tasks e.created

instance (e : Expression) : Decidable e.IsFresh :=
  inferInstanceAs (Decidable (e = .fresh e.id e.text e.tasks e.created))

/-- A task that nobody has worked on. -/
def Task.IsFresh (t : Task) : Prop := t.plain = t

instance (t : Task) : Decidable t.IsFresh := inferInstanceAs (Decidable (t.plain = t))

/-- A selector that takes one of the candidates, if it takes any. -/
def Selector.Lawful (select : Selector) : Prop := ∀ tasks t, select tasks = some t → t ∈ tasks

theorem Selector.lawful_oldest : Selector.Lawful .oldest :=
  fun _ _ h => List.mem_of_head? h

theorem Selector.lawful_youngest : Selector.Lawful .youngest :=
  fun _ _ h => List.mem_of_getLast? h

namespace Store

/-! ## Paths -/

/-- Steps one after the other, each of which can happen and is of an allowed kind. -/
inductive Path (may : Store → Change → Prop) : Store → Store → Prop
  | refl (s : Store) : Path may s s
  | step {s s' : Store} (c : Change) :
      c.Enabled s → may s c → Path may (c.apply s) s' → Path may s s'

namespace Path

variable {may wider : Store → Change → Prop} {s s' s'' : Store}

theorem single {c : Change} (hc : c.Enabled s) (hm : may s c) : Path may s (c.apply s) :=
  .step c hc hm (.refl _)

theorem trans (h : Path may s s') (h' : Path may s' s'') : Path may s s'' := by
  induction h with
  | refl => exact h'
  | step c hc hm _ ih => exact .step c hc hm (ih h')

theorem mono (h : Path may s s') (hw : ∀ s c, may s c → wider s c) : Path wider s s' := by
  induction h with
  | refl => exact .refl _
  | step c hc hm _ ih => exact .step c hc (hw _ c hm) ih

/-- What every allowed step keeps is kept by a path, and so are the tables in agreement. -/
theorem induct {P : Store → Prop}
    (hstep : ∀ s c, Sound s → c.Enabled s → may s c → P s → P (c.apply s))
    (h : Path may s s') (hs : Sound s) (hp : P s) : Sound s' ∧ P s' := by
  induction h with
  | refl => exact ⟨hs, hp⟩
  | step c hc hm _ ih => exact ih (hs.apply hc) (hstep _ c hs hc hm hp)

theorem sound (h : Path may s s') (hs : Sound s) : Sound s' :=
  (h.induct (P := fun _ => True) (fun _ _ _ _ _ _ => trivial) hs trivial).1

/-- What is told of a task by its plain form holds of all tasks behind a path, if it held of all before and
holds of all that the path brings. -/
theorem tasks {P : Task → Prop} (h : Path may s s') (hs : Sound s)
    (hplain : ∀ t t' : Task, t'.plain = t.plain → P t → P t')
    (hmay : ∀ s e tasks, may s (.accept e tasks) → ∀ t ∈ tasks, P t)
    (hp : ∀ id t, s.task? id = some t → P t) : ∀ id t, s'.task? id = some t → P t := by
  refine (h.induct (P := fun s => ∀ id t, s.task? id = some t → P t) ?_ hs hp).2
  intro s c hs hc hm hp id t' ht'
  rcases Change.moves_or_mem hs hc ht' with ⟨t, hstored, hmoves⟩ | ⟨e, tasks, rfl, hmem, -⟩
  · exact hplain t t' hmoves.plain (hp id t hstored)
  · exact hmay s e tasks hm t' hmem

end Path

/-! ## Operations as paths -/

variable {s : Store}

/-- A batch is accepted as a whole or leaves no trace. -/
theorem put_cases (s : Store) (e : Expression) (tasks : List Task) :
    (∃ fault, s.put e tasks = (.error fault, s)) ∨
      (s.refusal e tasks = none ∧ s.put e tasks = (.ok (), (Change.accept e tasks).apply s)) := by
  unfold put
  cases hr : s.refusal e tasks with
  | some fault => exact Or.inl ⟨fault, rfl⟩
  | none => exact Or.inr ⟨rfl, rfl⟩

theorem put_path (s : Store) (e : Expression) (tasks : List Task) :
    Path (fun _ c => c = .accept e tasks) s (s.put e tasks).2 := by
  rcases put_cases s e tasks with ⟨fault, hput⟩ | ⟨hr, hput⟩
  · rw [hput]
    exact .refl s
  · rw [hput]
    exact .single (c := .accept e tasks) hr rfl

/-- A claim hands the selected task out, or leaves no trace. -/
theorem claim_cases (s : Store) (select : Selector) (policy : LeasePolicy) (now : Instant) :
    (∃ answer, s.claim select policy now = (answer, s) ∧ ∀ a, answer ≠ .ok (some a)) ∨
      ∃ t a deadline, s.next? select = some t ∧ s.assignment t = .ok a ∧
        policy.deadline? now t.duration = some deadline ∧
        s.claim select policy now = (.ok (some a), (Change.dispatch t deadline).apply s) := by
  unfold claim
  cases hnext : s.next? select with
  | none => exact Or.inl ⟨_, rfl, by simp⟩
  | some t =>
    dsimp only
    cases hass : s.assignment t with
    | error fault => exact Or.inl ⟨_, rfl, by simp⟩
    | ok a =>
      dsimp only
      cases hdead : policy.deadline? now t.duration with
      | none => exact Or.inl ⟨_, rfl, by simp⟩
      | some deadline => exact Or.inr ⟨t, a, deadline, rfl, hass, hdead, rfl⟩

theorem claim_path (s : Store) {select : Selector} (hl : select.Lawful) (policy : LeasePolicy)
    (now : Instant) :
    Path (fun _ c => ∃ t deadline, c = .dispatch t deadline) s (s.claim select policy now).2 := by
  rcases claim_cases s select policy now with ⟨answer, hclaim, -⟩ | ⟨t, a, deadline, hnext, -, -, hclaim⟩
  · rw [hclaim]
    exact .refl s
  · rw [hclaim]
    exact .single (c := .dispatch t deadline) (hl _ _ hnext) ⟨t, deadline, rfl⟩

/-- A report on a task that has not ended is accepted, whatever it says.  The answer is where the owner
stands afterwards. -/
theorem report_of_open (h : Sound s) {id : TaskId} {t : Task} (o : Outcome) (now : Instant)
    (ht : s.task? id = some t) (hopen : t.status.isTerminal = false) :
    (Change.finish t o now).Enabled s ∧
      ∃ e, s.report id o now = (.ok e.status, (Change.finish t o now).apply s) ∧
        ((Change.finish t o now).apply s).expression? t.owner = some e := by
  have hid := h.task_id ht
  subst hid
  obtain ⟨e, -, -, hanswer, -, -, hexpr⟩ := finish_spec h o now ht
  refine ⟨⟨ht, hopen⟩, _, Prod.ext (Eq.trans ?_ hanswer) ?_, (hexpr t.owner).trans (if_pos rfl)⟩
  · rw [report, ht]
    simp only [Task.record, hopen, Bool.false_eq_true, if_false]
  · rw [report, ht]
    simp only [Task.record, hopen, Bool.false_eq_true, if_false, Change.apply]

/-- A report on a task that is not known, or that has ended, is refused and leaves no trace. -/
theorem report_of_closed {id : TaskId} (o : Outcome) (now : Instant)
    (h : ∀ t, s.task? id = some t → t.status.isTerminal = true) :
    ∃ fault, s.report id o now = (.error fault, s) := by
  unfold report
  cases ht : s.task? id with
  | none => exact ⟨_, rfl⟩
  | some t =>
    simp only [Task.record, h t ht, if_true]
    exact ⟨_, rfl⟩

theorem report_cases (h : Sound s) (id : TaskId) (o : Outcome) (now : Instant) :
    (∃ fault, s.report id o now = (.error fault, s)) ∨
      ∃ t status, s.task? id = some t ∧ (Change.finish t o now).Enabled s ∧
        s.report id o now = (.ok status, (Change.finish t o now).apply s) := by
  by_cases hopen : ∃ t, s.task? id = some t ∧ t.status.isTerminal = false
  · obtain ⟨t, ht, hopen⟩ := hopen
    obtain ⟨hen, e, hreport, -⟩ := report_of_open h o now ht hopen
    exact Or.inr ⟨t, e.status, ht, hen, hreport⟩
  · refine Or.inl (report_of_closed o now ?_)
    intro t ht
    rcases Bool.eq_false_or_eq_true t.status.isTerminal with hterm | hterm
    · exact hterm
    · exact absurd ⟨t, ht, hterm⟩ hopen

theorem report_path (h : Sound s) (id : TaskId) (o : Outcome) (now : Instant) :
    Path (fun _ c => ∃ t, c = .finish t o now) s (s.report id o now).2 := by
  rcases report_cases h id o now with ⟨fault, hreport⟩ | ⟨t, status, -, hen, hreport⟩
  · rw [hreport]
    exact .refl s
  · rw [hreport]
    exact .single hen ⟨t, rfl⟩

/-- The store with the leases on these tasks taken back, one by one. -/
def releaseAll (s : Store) (ids : List TaskId) : Store :=
  ids.foldl (fun s id => match s.task? id with
    | some t => s.setTask (release t)
    | none => s) s

@[simp]
theorem releaseAll_nil (s : Store) : s.releaseAll [] = s := rfl

theorem releaseAll_cons {id : TaskId} {t : Task} (ht : s.task? id = some t) (rest : List TaskId) :
    s.releaseAll (id :: rest) = (s.setTask (release t)).releaseAll rest := by
  rw [releaseAll, List.foldl_cons, ht]
  rfl

/-- Lapsed leases are taken back one by one.  The leases of different tasks do not touch each other, so
those that are still to come stay lapsed. -/
theorem release_path (now : Instant) (ids : List TaskId) (hn : ids.Nodup) :
    ∀ {s : Store}, Sound s →
      (∀ id ∈ ids, id ∈ s.pool ∧ ∃ t, s.task? id = some t ∧ t.isLapsed now = true) →
      Path (fun _ c => ∃ t, c = .release t now) s (s.releaseAll ids) := by
  induction ids with
  | nil => exact fun {s} _ _ => .refl s
  | cons id rest ih =>
    intro s h hlapsed
    rw [List.nodup_cons] at hn
    obtain ⟨hpool, t, ht, hlaps⟩ := hlapsed id List.mem_cons_self
    have hid := h.task_id ht
    subst hid
    have hen : (Change.release t now).Enabled s := ⟨hpool, ht, hlaps⟩
    rw [releaseAll_cons ht]
    refine .step _ hen ⟨t, rfl⟩ (ih hn.2 (h.apply hen) ?_)
    intro id hmem
    -- No identity stands in the pool twice, so a later lease is one of another task.
    obtain ⟨hp, u, hu, hl⟩ := hlapsed id (List.mem_cons_of_mem _ hmem)
    have hne : id ≠ (release t).id := fun he => hn.1 (he ▸ hmem)
    refine ⟨hp, u, ?_, hl⟩
    show (s.setTask (release t)).task? id = some u
    rw [task?_setTask (t := release t) ht, if_neg hne, hu]

theorem reap_path (h : Sound s) (now : Instant) :
    Path (fun _ c => ∃ t, c = .release t now) s (s.reap now).2 := by
  refine release_path now _ ((h.pool.nodup h.tasks.nodup).filter _) h ?_
  intro id hid
  obtain ⟨hpool, hlapsed⟩ := List.mem_filter.mp hid
  exact ⟨hpool, by simpa [hasLapsed, Option.any_eq_true] using hlapsed⟩

/-! ## Reachable stores -/

/-- What any use of a store, refused or not, can make of it. -/
inductive Leads (start : Store) : Store → Prop
  | refl : Leads start start
  | put {s : Store} {e : Expression} {tasks : List Task} :
      Leads start s → e.IsFresh → (∀ t ∈ tasks, t.IsFresh) → Leads start (s.put e tasks).2
  | claim {s : Store} {select : Selector} (policy : LeasePolicy) (now : Instant) :
      Leads start s → select.Lawful → Leads start (s.claim select policy now).2
  | report {s : Store} (id : TaskId) (o : Outcome) (now : Instant) :
      Leads start s → Leads start (s.report id o now).2
  | reap {s : Store} (now : Instant) : Leads start s → Leads start (s.reap now).2

/-- The stores that come of any use of an empty one. -/
def Reachable : Store → Prop := Leads .empty

/-- The steps that uses with fresh batches are made of. -/
def Change.IsFresh (_ : Store) : Change → Prop
  | accept e tasks => e.IsFresh ∧ ∀ t ∈ tasks, t.IsFresh
  | _ => True

/-- Whatever use leads somewhere, a path of steps leads there. -/
theorem Leads.path {start : Store} (h : Leads start s) (hs : Sound start) :
    Path (fun s c => c.IsFresh s) start s := by
  induction h with
  | refl => exact .refl start
  | @put s e tasks _ he ht ih =>
    refine ih.trans ((put_path s e tasks).mono ?_)
    rintro _ _ rfl
    exact ⟨he, ht⟩
  | @claim s select policy now _ hl ih =>
    refine ih.trans ((claim_path s hl policy now).mono ?_)
    rintro _ _ ⟨t, deadline, rfl⟩
    trivial
  | @report s id o now _ ih =>
    refine ih.trans ((report_path (ih.sound hs) id o now).mono ?_)
    rintro _ _ ⟨t, rfl⟩
    trivial
  | @reap s now _ ih =>
    refine ih.trans ((reap_path (ih.sound hs) now).mono ?_)
    rintro _ _ ⟨t, rfl⟩
    trivial

theorem Leads.trans {start later : Store} (h : Leads start s) (h' : Leads s later) :
    Leads start later := by
  induction h' with
  | refl => exact h
  | put _ he ht ih => exact .put ih he ht
  | claim policy now _ hl ih => exact .claim policy now ih hl
  | report id o now _ ih => exact .report id o now ih
  | reap now _ ih => exact .reap now ih

/-- A stored expression keeps its text and its tasks. -/
theorem Leads.keeps_expression {later : Store} (h : Leads s later) (hs : Sound s) {x : ExpressionId}
    {e : Expression} (he : s.expression? x = some e) :
    ∃ e', later.expression? x = some e' ∧ e'.text = e.text ∧ e'.tasks = e.tasks := by
  refine ((h.path hs).induct (P := fun s => ∃ e', s.expression? x = some e' ∧ e'.text = e.text ∧
    e'.tasks = e.tasks) ?_ hs ⟨e, he, rfl, rfl⟩).2
  intro s c hs hc _ hp
  obtain ⟨f, hf, htext, htasks⟩ := hp
  obtain ⟨g, hg, htext', htasks'⟩ := Change.keeps_expression hs hc hf
  exact ⟨g, hg, htext'.trans htext, htasks'.trans htasks⟩

theorem Reachable.sound (h : Reachable s) : Sound s :=
  (Leads.path h .empty).sound .empty

/-- What the empty store has and every step keeps holds in every reachable store. -/
theorem Reachable.induct {P : Store → Prop} (h : Reachable s) (hempty : P .empty)
    (hstep : ∀ (s : Store) (c : Change), Sound s → c.Enabled s → c.IsFresh s → P s → P (c.apply s)) :
    P s :=
  ((Leads.path h .empty).induct hstep .empty hempty).2

/-- What a task has that nobody has worked on, and keeps in every step, every stored task has. -/
theorem Reachable.of_moves {P : Task → Prop} (h : Reachable s) (hfresh : ∀ t : Task, t.IsFresh → P t)
    (hmoves : ∀ c t t', Moves c t t' → P t → P t') {id : TaskId} {t : Task}
    (ht : s.task? id = some t) : P t := by
  refine h.induct (P := fun s => ∀ id t, s.task? id = some t → P t) ?_ ?_ id t ht
  · intro id t ht
    exact absurd ht (by simp [task?, empty])
  · intro s c hs hc hf hp id t' ht'
    rcases Change.moves_or_mem hs hc ht' with ⟨t, ht, hm⟩ | ⟨e, tasks, rfl, hmem, -⟩
    · exact hmoves c t t' hm (hp id t ht)
    · exact hfresh t' (hf.2 t' hmem)

end Store

end Piecework
