/-
# Piecework.Proofs.Submission — what a service takes in.

Two parts have to go together when an expression is taken in.  The compiler makes tasks of the text, and the
store looks at them before it accepts them: that there are some, that the list names them, that they have one
owner, that no identity stands twice, and that every operand refers to a task before.  A plan passes all of
this by the way it is made, so only the compiler refuses, and what it refuses does not reach the store
(`Service.Reachable.submission`).

The states in question are those that come of any calls (`Service.Reachable`).  Their stores are reachable, so
all that holds of such stores holds of what a service has stored.
-/
import Piecework.Proofs.Deadline
import Piecework.Proofs.Store.Progress

namespace Piecework

/-! ## Which texts compile -/

namespace Plan

open Postfix (Item)

/-- Whether a sequence is refused, and why, depends on how many operands there are, and not on what they are
or on what the tasks are called. -/
theorem build_eq_error_iff (s r : Setting) {fault : CompileFault} (sequence : List Item) :
    ∀ {m n : Nat} {u v : List Argument}, u.length = v.length → (0 < m ↔ 0 < n) →
      (build s m u sequence = .error fault ↔ build r n v sequence = .error fault) := by
  induction sequence with
  | nil =>
    intro m n u v hlength hplace
    simp only [build_nil, hlength, hplace]
  | cons item rest ih =>
    intro m n u v hlength hplace
    cases item with
    | number value =>
      exact ih (by rw [List.length_cons, List.length_cons, hlength]) hplace
    | operator operation =>
      rcases u with _ | ⟨a, _ | ⟨b, u⟩⟩
      · obtain rfl := List.eq_nil_of_length_eq_zero hlength.symm
        rfl
      · obtain ⟨c, rfl⟩ := List.length_eq_one_iff.mp hlength.symm
        rfl
      · obtain ⟨c, v, rfl⟩ := List.exists_cons_of_length_eq_add_one hlength.symm
        obtain ⟨d, v, rfl⟩ := List.exists_cons_of_length_eq_add_one (Nat.succ.inj hlength.symm)
        have hrest := ih (m := m + 1) (n := n + 1) (u := .output (s.name m) :: u)
          (v := .output (r.name n) :: v) (by simpa using hlength) (by simp)
        rw [build_operator_cons, build_operator_cons]
        cases hs : build s (m + 1) (.output (s.name m) :: u) rest with
        | error f =>
          cases hr : build r (n + 1) (.output (r.name n) :: v) rest with
          | error g => simpa [hs, hr] using hrest
          | ok tasks => simpa [hs, hr] using hrest
        | ok tasks =>
          cases hr : build r (n + 1) (.output (r.name n) :: v) rest with
          | error g => simpa [hs, hr] using hrest
          | ok tasks => simp

/-- Whether a text compiles does not depend on the setting. -/
theorem ofText_eq_error_iff (s r : Setting) {text : String} {fault : CompileFault} :
    ofText s text = .error fault ↔ ofText r text = .error fault := by
  unfold ofText
  cases Postfix.ofText text with
  | error f => rfl
  | ok sequence => exact build_eq_error_iff s r sequence rfl Iff.rfl

/-- The tasks of a text take the names of their places. -/
theorem map_id_of_ofText {s : Setting} {text : String} {tasks : List Task}
    (h : ofText s text = .ok tasks) :
    tasks.map Task.id = (List.range tasks.length).map s.name := by
  obtain ⟨t, -, -, rfl⟩ := ofText_eq_ok_iff.mp h
  rw [map_id_tasksOf, length_tasksOf, List.range_eq_range']

end Plan

/-! ## Candidates behind an accepted batch -/

namespace Store

variable {s : Store} {e : Expression} {tasks : List Task}

/-- A task that was there before can run behind an accepted batch if it could run before. -/
theorem Reachable.isReady_accept (h : Reachable s) {id : TaskId} {t : Task}
    (ht : s.task? id = some t) : (s.accept e tasks).isReady t = s.isReady t := by
  refine isReady_congr fun d hd => ?_
  obtain ⟨u, hu, -⟩ := h.owner_of_mem_dependencies ht hd
  rw [hu]
  exact task?_accept_of_stored hu

/-- A new task can run if it depends on nothing: all that it could depend on is new as well. -/
theorem isReady_accept_of_mem (hr : s.refusal e tasks = none) (hfresh : ∀ t ∈ tasks, t.IsFresh)
    {t : Task} (ht : t ∈ tasks) :
    (s.accept e tasks).isReady t = decide (t.dependencies = []) := by
  have hpending : t.status = .pending := by
    rw [← hfresh t ht]
    rfl
  rw [isReady, hpending, decide_eq_true rfl, Bool.true_and, decide_eq_decide,
    Task.resolution_eq_ready_iff]
  refine ⟨fun hdone => ?_, fun hnone d hd => absurd hd (by simp [hnone])⟩
  by_contra hne
  obtain ⟨d, hd⟩ := List.exists_mem_of_ne_nil _ hne
  obtain ⟨front, rest, hsplit⟩ := List.append_of_mem ht
  have hordered := ordered_of_refusal_eq_none hr
  rw [hsplit] at hordered
  obtain ⟨u, hu, rfl⟩ := List.mem_map.mp
    ((hordered.mem_of_mem_dependencies hd).resolve_right List.not_mem_nil)
  have hmem : u ∈ tasks := hsplit ▸ List.mem_append_left _ hu
  have hstatus := hdone u.id hd
  rw [task?_accept_of_mem hr hmem, Option.map_some, ← hfresh u hmem] at hstatus
  exact absurd hstatus (by simp [Task.plain, Task.fresh])

/-- An accepted expression is seen with its tasks. -/
theorem view?_accept_self (hr : s.refusal e tasks = none) :
    (s.accept e tasks).view? e.id = some (e.withTasks tasks) := by
  obtain ⟨-, hlist, -⟩ := refusal_eq_none_iff.mp hr
  rw [view?, expression?_accept_self hr, Option.map_some, tasksIn, ← hlist, filterMap_task?_accept hr]

/-- The candidates stay where they are, and those of a new batch that depend on nothing stand behind them. -/
theorem Reachable.candidates_accept (h : Reachable s) (hr : s.refusal e tasks = none)
    (hfresh : ∀ t ∈ tasks, t.IsFresh) :
    (s.accept e tasks).candidates = s.candidates ++ tasks.filter fun t => t.dependencies = [] := by
  have hpool : s.pool.filterMap (s.accept e tasks).task? = s.pool.filterMap s.task? := by
    refine List.filterMap_congr fun id hid => ?_
    obtain ⟨t, ht⟩ := Registry.mem_keys_iff.mp (h.sound.pool.subset hid)
    exact (task?_accept_of_stored ht).trans ht.symm
  have hold : (s.pool.filterMap s.task?).filter (s.accept e tasks).isReady = s.candidates := by
    refine List.filter_congr fun t ht => ?_
    obtain ⟨id, -, hid⟩ := List.mem_filterMap.mp ht
    exact h.isReady_accept hid
  have hnew : tasks.filter (s.accept e tasks).isReady = tasks.filter fun t => t.dependencies = [] :=
    List.filter_congr fun t ht => isReady_accept_of_mem hr hfresh ht
  show ((s.pool ++ tasks.map Task.id).filterMap _).filter _ = _
  rw [List.filterMap_append, List.filter_append, hpool, hold, filterMap_task?_accept hr, hnew]

end Store

/-! ## Services that come of calls -/

namespace Service

variable {s : Service}

/-- What any calls make of a service without expressions. -/
inductive Reachable : Service → Prop
  | start (times : OperationTimes) (policy : LeasePolicy) : Reachable (start times policy)
  | carry {s : Service} (c : Call) : Reachable s → Reachable (s.carry c).2

/-- What a text compiles to is put into the store. -/
theorem store_add_of_ofText {mint : Mint} {now : Instant} {text : String} {tasks : List Task}
    (h : Plan.ofText (s.setting mint now) text = .ok tasks) :
    (s.add mint now text).state.store
      = (s.store.put (.fresh mint.expression text (tasks.map Task.id) now) tasks).2 := by
  simp only [add, h]
  rcases s.store.put (.fresh mint.expression text (tasks.map Task.id) now) tasks with ⟨fault | ⟨⟩, store⟩ <;> rfl

/-- Taking an expression in is at most one use of the store, with a batch that nobody has worked on. -/
theorem leads_add (s : Service) (mint : Mint) (now : Instant) (text : String) :
    Store.Leads s.store (s.add mint now text).state.store := by
  cases htext : Plan.ofText (s.setting mint now) text with
  | error fault =>
    simp only [add, htext]
    exact .refl
  | ok tasks =>
    rw [store_add_of_ofText htext]
    exact .put .refl rfl fun t ht => (Plan.plain_of_mem_ofText htext ht).1

theorem leads_report (s : Service) (now : Instant) (r : Report) :
    Store.Leads s.store (s.report now r).state.store := by
  unfold report
  cases r.outcome with
  | error fault => exact .refl
  | ok outcome => exact .report r.task outcome now .refl

/-- A call is at most one use of the store. -/
theorem leads_carry (s : Service) (c : Call) : Store.Leads s.store (s.carry c).2.store := by
  cases c with
  | add mint now text => exact s.leads_add mint now text
  | view id => exact .refl
  | list => exact .refl
  | next now => exact .claim s.policy now .refl Selector.lawful_oldest
  | report now r => exact s.leads_report now r
  | reap now => exact .reap now .refl

/-- The store of a service is a reachable one. -/
theorem Reachable.store (h : Reachable s) : Store.Reachable s.store := by
  induction h with
  | start times policy => exact .refl
  | @carry s c _ ih => exact Store.Leads.trans ih (s.leads_carry c)

end Service

/-! ## Submission -/

/-- Nothing that is stored has the identities that the mint gives to an expression and to so many tasks, and
no two of these tasks have the same. -/
structure Mint.IsNew (mint : Mint) (s : Store) (count : Nat) : Prop where
  expression : s.expression? mint.expression = none
  tasks : ∀ i < count, s.task? (mint.task i) = none
  nodup : ((List.range count).map mint.task).Nodup

namespace Service

variable {s : Service} {mint : Mint} {now : Instant} {text : String} {tasks : List Task}

/-- A text that does not compile leaves no trace. -/
theorem add_of_error {fault : CompileFault}
    (h : Plan.ofText (s.setting mint now) text = .error fault) :
    (s.add mint now text).answer = .error (.compile fault) ∧ (s.add mint now text).state = s := by
  simp only [add, h, and_self]

/-- With new identities, nothing that compiles is refused: the text becomes an expression with these tasks. -/
theorem add_of_isNew (htext : Plan.ofText (s.setting mint now) text = .ok tasks)
    (hnew : mint.IsNew s.store tasks.length) :
    let e := Expression.fresh mint.expression text ((List.range tasks.length).map mint.task) now
    tasks.map Task.id = e.tasks ∧ s.store.refusal e tasks = none ∧
      (s.add mint now text).answer = .ok e.id ∧
      (s.add mint now text).state = { s with store := s.store.accept e tasks } := by
  intro e
  have hids : tasks.map Task.id = (List.range tasks.length).map mint.task :=
    Plan.map_id_of_ofText htext
  have hr : s.store.refusal e tasks = none := by
    rw [show e = .fresh mint.expression text (tasks.map Task.id) now from hids ▸ rfl]
    refine refusal_of_ofText htext (hids ▸ hnew.nodup) s.store hnew.expression ?_
    intro t ht
    have hmem : t.id ∈ (List.range tasks.length).map mint.task := hids ▸ List.mem_map_of_mem ht
    obtain ⟨i, hi, hname⟩ := List.mem_map.mp hmem
    rw [← hname]
    exact hnew.tasks i (List.mem_range.mp hi)
  have hadded := add_of_refusal_eq_none htext (hids ▸ hr)
  rw [hids] at hadded
  exact ⟨hids, hr, hadded⟩

/-- **All or nothing.**  A service refuses a text if and only if the text does not compile, in whatever
setting, with the fault of the compiler, and is then as it was.  Any other text becomes an expression: it
stands behind all others, pending, with its text as it was given and its tasks in the order of compilation;
the tasks stand behind all others, pending as well, in the pool and among the candidates too; and all that was
stored before is found as it was. -/
theorem Reachable.submission (h : Reachable s) (mint : Mint) (now : Instant) (text : String)
    (hnew : ∀ tasks, Plan.ofText (s.setting mint now) text = .ok tasks →
      mint.IsNew s.store tasks.length) :
    let turn := s.add mint now text
    (∀ f, turn.answer = .error f ↔
        ∃ fault, f = .compile fault ∧ ∀ setting, Plan.ofText setting text = .error fault) ∧
      (∀ f, turn.answer = .error f → turn.state = s) ∧
      ∀ tasks, Plan.ofText (s.setting mint now) text = .ok tasks →
        let ids := (List.range tasks.length).map mint.task
        let e := Expression.fresh mint.expression text ids now
        let later := turn.state.store
        tasks.map Task.id = ids ∧ (∀ t ∈ tasks, t.owner = e.id ∧ t.IsFresh) ∧
          turn.answer = .ok e.id ∧ turn.state = { s with store := later } ∧
          later.expressions.entries = s.store.expressions.entries ++ [(e.id, e)] ∧
          later.tasks.entries = s.store.tasks.entries ++ tasks.map (fun t => (t.id, t)) ∧
          later.pool = s.store.pool ++ ids ∧
          later.candidates = s.store.candidates ++ tasks.filter (fun t => t.dependencies = []) ∧
          turn.state.view e.id = .ok (e.withTasks tasks) ∧
          (∀ x f, s.store.expression? x = some f → later.expression? x = some f) ∧
          ∀ id t, s.store.task? id = some t → later.task? id = some t := by
  intro turn
  cases htext : Plan.ofText (s.setting mint now) text with
  | error fault =>
    obtain ⟨hanswer, hstate⟩ := add_of_error htext
    refine ⟨fun f => ?_, fun _ _ => hstate, fun tasks htasks => absurd htasks (by simp)⟩
    show turn.answer = _ ↔ _
    rw [hanswer, Except.error.injEq]
    constructor
    · rintro rfl
      exact ⟨fault, rfl, fun setting => (Plan.ofText_eq_error_iff _ setting).mp htext⟩
    · rintro ⟨other, rfl, hother⟩
      rw [hother] at htext
      rw [Except.error.inj htext]
  | ok tasks =>
    obtain ⟨hids, hr, hanswer, hstate⟩ := add_of_isNew htext (hnew tasks htext)
    refine ⟨fun f => ?_, fun f hf => absurd (hanswer.symm.trans hf) (by simp), ?_⟩
    · show turn.answer = _ ↔ _
      rw [hanswer]
      refine ⟨fun hf => absurd hf (by simp), ?_⟩
      rintro ⟨fault, -, hfault⟩
      exact absurd (htext.symm.trans (hfault _)) (by simp)
    · intro tasks' htasks
      obtain rfl := Except.ok.inj htasks
      intro ids e later
      have hplain : ∀ t ∈ tasks, t.owner = e.id ∧ t.IsFresh := fun t ht =>
        ⟨(Plan.plain_of_mem_ofText htext ht).2, (Plan.plain_of_mem_ofText htext ht).1⟩
      have hlater : later = s.store.accept e tasks := congrArg Service.store hstate
      have hview : (s.store.accept e tasks).view? e.id = some (e.withTasks tasks) :=
        Store.view?_accept_self hr
      have hstate' : turn.state = { s with store := later } := by
        rw [hlater]
        exact hstate
      rw [hstate', hlater, view, hview]
      exact ⟨hids, hplain, hanswer, rfl, rfl, rfl, congrArg (s.store.pool ++ ·) hids,
        h.store.candidates_accept hr fun t ht => (hplain t ht).2, rfl,
        fun x f hf => Store.expression?_accept_of_stored hf,
        fun id t ht => Store.task?_accept_of_stored ht⟩

/-- A second text goes behind the first one, where its product can run at once and its sum cannot; and a text
that ends too early changes nothing. -/
theorem submission_second :
    let first : Mint := ⟨⟨0⟩, fun n => ⟨.ofNat 128 (n + 1)⟩⟩
    let second : Mint := ⟨⟨8⟩, fun n => ⟨.ofNat 128 (n + 9)⟩⟩
    let s := ((start .standard .standard).carry (.add first .epoch "1+1")).2
    (s.add second .epoch "2+3*4").answer = .ok ⟨8⟩ ∧
      (s.add second .epoch "2+3*4").state.store.pool = [⟨1⟩, ⟨9⟩, ⟨10⟩] ∧
      (s.add second .epoch "2+3*4").state.store.candidates.map Task.id = [⟨1⟩, ⟨9⟩] ∧
      (s.add second .epoch "2+").state = s := by
  intro first second s
  have hs : Reachable s := .carry (.add first .epoch "1+1") (.start .standard .standard)
  have hplan : (Plan.ofText (s.setting second .epoch) "2+3*4").map List.length = .ok 2 := by
    decide +kernel
  have hnew : second.IsNew s.store 2 := ⟨by decide +kernel, by decide +kernel, by decide +kernel⟩
  cases htext : Plan.ofText (s.setting second .epoch) "2+3*4" with
  | error fault => exact absurd (htext ▸ hplan) (by simp [Except.map])
  | ok tasks =>
    have hlength : tasks.length = 2 := Except.ok.inj (htext ▸ hplan)
    obtain ⟨-, -, htaken⟩ := hs.submission second .epoch "2+3*4" fun other hother => by
      obtain rfl := Except.ok.inj (htext.symm.trans hother)
      exact hlength ▸ hnew
    have hfault : Plan.ofText (s.setting second .epoch) "2+" = .error .values := by decide +kernel
    obtain ⟨-, huntouched, -⟩ := hs.submission second .epoch "2+" fun other hother =>
      absurd (hfault.symm.trans hother) (by simp)
    obtain ⟨-, -, hanswer, -, -, -, hpool, -⟩ := htaken tasks htext
    refine ⟨hanswer, hpool.trans ?_, by decide +kernel, huntouched _ (add_of_error hfault).1⟩
    rw [hlength]
    decide +kernel

end Service

end Piecework
