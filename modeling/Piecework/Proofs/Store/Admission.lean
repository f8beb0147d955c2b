/-
# Piecework.Proofs.Store.Admission — which batches a store takes.

A store looks at a batch in five places, and the walk over the tasks remembers what it has passed.  What comes of
it can be said without the walk: the tasks are those of the expression, they are told apart by their identities,
each depends on tasks in front of it, and nothing of the batch is there already (`put_eq_ok_iff`).  Where only the
order of the tasks is at fault, the first task that breaks it is named.

Batches need not be fresh, and dependencies are whatever the batch says.  Still no run of a store makes its tasks
wait for each other in a circle: an accepted task depends on tasks that its expression lists before it, and nothing
that happens later changes a list or a dependency (`Layered.acyclic`).
-/
import Mathlib.Logic.Relation
import Piecework.Proofs.Store.Progress
import Piecework.Proofs.Store.Refusal

namespace Piecework

/-! ## Batches -/

namespace Batch

/-- The tasks are those of the expression. -/
structure IsOf (e : Expression) (tasks : List Task) : Prop where
  nonempty : tasks ≠ []
  /-- The expression lists them in the same order. -/
  listed : tasks.map Task.id = e.tasks
  owned : ∀ t ∈ tasks, t.owner = e.id

/-- The tasks can run in this order: their identities differ, and whatever a task depends on is the identity of
one in front of it. -/
structure Sound (tasks : List Task) : Prop where
  distinct : (tasks.map Task.id).Nodup
  earlier : ∀ front t rest, tasks = front ++ t :: rest → ∀ d ∈ t.dependencies, d ∈ front.map Task.id

theorem validate_eq_ok_iff_sound {e : Expression} {tasks : List Task} (h : IsOf e tasks) :
    validate tasks = .ok () ↔ Sound tasks := by
  rw [validate_eq_ok_iff h.owned, ordered_iff]
  simp only [List.not_mem_nil, or_false]
  exact ⟨fun hv => ⟨hv.2, hv.1⟩, fun hs => ⟨hs.earlier, hs.distinct⟩⟩

end Batch

namespace Store

variable {s : Store} {b : Tables} {e : Expression} {tasks : List Task}

/-- Nothing of the batch is stored. -/
structure Lacks (s : Store) (e : Expression) (tasks : List Task) : Prop where
  expression : ∀ x f, s.expression? x = some f → f.id ≠ e.id
  task : ∀ id u, s.task? id = some u → ∀ t ∈ tasks, u.id ≠ t.id

/-- What is stored is found under its own identity, so it is enough to look there. -/
theorem lacks_iff (h : Sound s) :
    s.Lacks e tasks ↔ s.expression? e.id = none ∧ ∀ t ∈ tasks, s.task? t.id = none := by
  constructor
  · intro hl
    refine ⟨Option.eq_none_iff_forall_ne_some.mpr fun f hf => ?_,
      fun t ht => Option.eq_none_iff_forall_ne_some.mpr fun u hu => ?_⟩
    · exact hl.expression e.id f hf (h.expression_id hf)
    · exact hl.task t.id u hu t ht (h.task_id hu)
  · rintro ⟨hexpression, htasks⟩
    refine ⟨fun x f hf heq => ?_, fun id u hu t ht heq => ?_⟩
    · rw [← heq, h.expression_id hf, hf] at hexpression
      exact absurd hexpression (by simp)
    · have hnone := htasks t ht
      rw [← heq, h.task_id hu, hu] at hnone
      exact absurd hnone (by simp)

/-- **A batch is accepted** if it is one of its expression, can run in its order, and is new. -/
theorem put_eq_ok_iff (h : Sound s) :
    (s.put e tasks).1 = .ok () ↔ Batch.IsOf e tasks ∧ Batch.Sound tasks ∧ s.Lacks e tasks := by
  have hput : (s.put e tasks).1 = .ok () ↔ s.refusal e tasks = none := by
    rw [put]
    cases s.refusal e tasks <;> simp
  rw [hput, refusal_eq_none_iff, lacks_iff h]
  constructor
  · rintro ⟨hne, hlisted, howned, hvalid, hnew⟩
    have hof : Batch.IsOf e tasks := ⟨hne, hlisted, howned⟩
    exact ⟨hof, (Batch.validate_eq_ok_iff_sound hof).mp hvalid, hnew⟩
  · rintro ⟨hof, hsound, hnew⟩
    exact ⟨hof.nonempty, hof.listed, hof.owned, (Batch.validate_eq_ok_iff_sound hof).mpr hsound, hnew⟩

/-- A batch of its expression that is refused for its order is refused for its first break. -/
theorem put_eq_unsound_iff (h : Batch.IsOf e tasks) {fault : GraphFault} :
    (s.put e tasks).1 = .error (.unsound fault) ↔ Batch.FirstBreak tasks fault := by
  rw [← Batch.validate_eq_error_iff h.owned, put, refusal, if_neg (by simpa using h.nonempty),
    if_neg (by simpa using h.listed), if_neg (by simpa using h.owned)]
  cases Batch.validate tasks with
  | error other => simp
  | ok _ =>
    dsimp only
    -- What is refused behind the check of the batch is refused for what is stored.
    split_ifs
    · simp
    · cases tasks.find? fun t => s.tasks.contains t.id <;> simp

/-! ## Dependencies between stored tasks -/

/-- One stored task depends on another. -/
def DependsOn (s : Store) (id d : TaskId) : Prop :=
  ∃ t u, s.task? id = some t ∧ s.task? d = some u ∧ d ∈ t.dependencies

/-- No stored task depends on itself, however many tasks lie between. -/
def Acyclic (s : Store) : Prop := ∀ id, ¬Relation.TransGen s.DependsOn id id

/-- Where a task stands in the list of its expression. -/
def place (s : Store) (id : TaskId) : ℕ :=
  ((s.task? id).bind fun t => s.expression? t.owner).elim 0 fun e => e.tasks.idxOf id

/-- What a task depends on stands before it, in the same list. -/
theorem Layered.place_lt (hl : Layered s) (h : Sound s) {id d : TaskId} (hd : s.DependsOn id d) :
    s.place d < s.place id := by
  obtain ⟨t, u, ht, hu, hmem⟩ := hd
  obtain ⟨e, he, hid⟩ := h.listed ht
  obtain ⟨front, rest, hlist, hnot⟩ := List.eq_append_cons_of_mem hid
  have hfront : d ∈ front := hl t.owner e he front id rest hlist t ht d hmem
  have howner : u.owner = t.owner := by
    obtain ⟨v, hv, hvo⟩ := h.owned he d (hlist ▸ List.mem_append_left _ hfront)
    rwa [Option.some.inj (hu.symm.trans hv)]
  have hplace : s.place id = front.length := by
    rw [place, ht, Option.bind_some, he, Option.elim_some, hlist, List.idxOf_append_of_notMem hnot,
      List.idxOf_cons_self, Nat.add_zero]
  have hplace' : s.place d = front.idxOf d := by
    rw [place, hu, Option.bind_some, howner, he, Option.elim_some, hlist, List.idxOf_append_of_mem hfront]
  rw [hplace, hplace']
  exact List.idxOf_lt_length_of_mem hfront

theorem Layered.acyclic (hl : Layered s) (h : Sound s) : s.Acyclic := by
  intro id hcycle
  have hdown : ∀ d, Relation.TransGen s.DependsOn id d → s.place d < s.place id := by
    intro d hd
    induction hd with
    | single hd => exact hl.place_lt h hd
    | tail _ hd ih => exact Nat.lt_trans (hl.place_lt h hd) ih
  exact Nat.lt_irrefl _ (hdown id hcycle)

/-! ## Any use -/

namespace Arises

/-- What the empty store has and every step keeps holds after any use. -/
theorem induct {P : Store → Prop} (h : Arises s b) (hempty : P .empty)
    (hstep : ∀ (s : Store) (c : Change), Sound s → c.Enabled s → P s → P (c.apply s)) : P s := by
  have hpath : ∀ {may : Store → Change → Prop} {s later : Store}, Path may s later → Sound s → P s → P later :=
    fun hp hs hold => (hp.induct (fun s c hs hc _ => hstep s c hs hc) hs hold).2
  induction h with
  | empty => exact hempty
  | put e tasks h ih => exact hpath (put_path _ e tasks) h.represents.1 ih
  | claim policy now h hl ih => exact hpath (claim_path _ hl policy now) h.represents.1 ih
  | report id o now h ih => exact hpath (report_path h.represents.1 id o now) h.represents.1 ih
  | reap now h ih => exact hpath (reap_path h.represents.1 now) h.represents.1 ih

theorem layered (h : Arises s b) : Layered s := by
  refine h.induct ?_ fun _ _ hs hc hl => hl.apply hs hc
  intro x e he
  exact absurd he (by simp [expression?, Store.empty])

theorem acyclic (h : Arises s b) : s.Acyclic := h.layered.acyclic h.represents.1

end Arises

/-- **A store takes exactly the sound new batches.**  After any use, and whatever expression and tasks are
brought: they are accepted if and only if the tasks are those of the expression, can run in their order, and are
new.  If they cannot run in their order, the answer names the first task that breaks it.  If they are accepted,
they are found as they came.  Whatever the answer, no stored task depends on itself, and the six tables give the
same answer and hold the same. -/
theorem admission (h : Arises s b) (e : Expression) (tasks : List Task) :
    ((s.put e tasks).1 = .ok () ↔ Batch.IsOf e tasks ∧ Batch.Sound tasks ∧ s.Lacks e tasks) ∧
      (Batch.IsOf e tasks → ¬Batch.Sound tasks →
        ∃ fault, (s.put e tasks).1 = .error (.unsound fault) ∧
          ∀ other, Batch.FirstBreak tasks other ↔ other = fault) ∧
      ((s.put e tasks).1 = .ok () →
        (s.put e tasks).2.expression? e.id = some e ∧ (s.put e tasks).2.tasksOf? e.id = some tasks ∧
          ∀ t ∈ tasks, (s.put e tasks).2.task? t.id = some t) ∧
      (s.Acyclic ∧ (s.put e tasks).2.Acyclic) ∧
      (b.put e tasks).1 = (s.put e tasks).1 ∧ Represents (b.put e tasks).2 (s.put e tasks).2 := by
  obtain ⟨hs, hb⟩ := h.represents
  refine ⟨put_eq_ok_iff hs, fun hof hunsound => ?_, fun hok => ?_,
    ⟨h.acyclic, (h.put e tasks).acyclic⟩, hb.put hs e tasks⟩
  · cases hvalid : Batch.validate tasks with
    | ok _ => exact absurd ((Batch.validate_eq_ok_iff_sound hof).mp hvalid) hunsound
    | error fault =>
      have hfirst := (Batch.validate_eq_error_iff hof.owned).mp hvalid
      refine ⟨fault, (put_eq_unsound_iff hof).mpr hfirst, fun other => ⟨fun hother => ?_, ?_⟩⟩
      · rw [← Batch.validate_eq_error_iff hof.owned, hvalid] at hother
        exact (Except.error.inj hother).symm
      · rintro rfl
        exact hfirst
  · rcases put_cases s e tasks with ⟨fault, hput⟩ | ⟨hr, hput⟩
    · rw [hput] at hok
      exact absurd hok (by simp)
    · obtain ⟨-, hlisted, -⟩ := refusal_eq_none_iff.mp hr
      rw [hput]
      refine ⟨expression?_accept_self hr, ?_, fun t ht => task?_accept_of_mem hr ht⟩
      show (s.accept e tasks).tasksOf? e.id = some tasks
      rw [tasksOf?, expression?_accept_self hr, Option.map_some, tasksIn, ← hlisted,
        filterMap_task?_accept hr]

/-- A task that depends on a stored one is refused for it: the other is no task of its own batch. -/
theorem admission_stored_dependency :
    let first : Task := .fresh ⟨1⟩ ⟨0⟩ .divide (.literal 6) (.literal 3) (.ofMillis 1) .epoch
    let second : Task := .fresh ⟨2⟩ ⟨7⟩ .subtract (.output ⟨1⟩) (.literal 1) (.ofMillis 1) .epoch
    let s := (empty.put (.fresh ⟨0⟩ "6/3" [⟨1⟩] .epoch) [first]).2
    s.tasksOf? ⟨0⟩ = some [first] ∧
      (s.put (.fresh ⟨7⟩ "6/3-1" [⟨2⟩] .epoch) [second]).1
        = .error (.unsound (.unknownDependency ⟨2⟩ ⟨1⟩)) := by
  intro first second s
  let e : Expression := .fresh ⟨0⟩ "6/3" [⟨1⟩] .epoch
  let later : Expression := .fresh ⟨7⟩ "6/3-1" [⟨2⟩] .epoch
  obtain ⟨-, -, hfound, -⟩ := admission Arises.empty e [first]
  obtain ⟨-, hnamed, -⟩ := admission (Arises.empty.put e [first]) later [second]
  have hof : Batch.IsOf later [second] := ⟨by simp, rfl, by simp [second, later, Task.fresh, Expression.fresh]⟩
  obtain ⟨fault, hput, hfirst⟩ := hnamed hof fun hsound =>
    absurd (hsound.earlier [] second [] rfl ⟨1⟩ (by decide)) List.not_mem_nil
  have hbreak : Batch.FirstBreak [second] (.unknownDependency ⟨2⟩ ⟨1⟩) :=
    ⟨[], second, [], rfl, trivial, List.nodup_nil,
      .dependency (show second.dependencies = [] ++ [⟨1⟩] from rfl) (by simp) List.not_mem_nil⟩
  rw [← (hfirst _).mp hbreak] at hput
  exact ⟨(hfound (by decide +kernel)).2.1, hput⟩

end Store

end Piecework
