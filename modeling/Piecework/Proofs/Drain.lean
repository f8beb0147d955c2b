/-
# Piecework.Proofs.Drain — working an expression off in place is evaluating its postfix sequence.

One worker fetches the oldest task that can run, applies its operation and reports, until there is none.
Fetching goes through candidates, leases, operands and propagation; what comes of it is what a machine with
a stack of values makes of the postfix sequence, operation by operation, up to the first failure
(`Service.drain_evaluates_postfix`).  The clock may be read anew at every fetch and every report, as long
as the leases lie within the calendar.
-/
import Piecework.Evaluation
import Piecework.Proofs.Compilation
import Piecework.Proofs.Store.Frontier

namespace Piecework

/-! ## What a trace leaves of a plan -/

/-- How many operations were tried. -/
def Trace.attempts {ε : Type} (trace : Trace ε) : Nat :=
  match trace.outcome with
  | some (.error _) => trace.results.length + 1
  | _ => trace.results.length

/-- The task at place `i` once the work has come as far as the trace says. -/
def Trace.leaves (trace : Trace ArithmeticFault) (i : Nat) (t : Task) : Task :=
  match trace.results[i]?, trace.outcome with
  | some v, _ => t.ended (.completed v)
  | none, some (.error fault) =>
    if i = trace.results.length then t.ended (.failed fault.message) else t
  | none, _ => t

@[simp]
theorem Trace.attempts_cons {ε : Type} (v : Float) (trace : Trace ε) :
    (trace.cons v).attempts = trace.attempts + 1 := by
  unfold attempts cons
  dsimp only
  split <;> rfl

@[simp]
theorem Trace.leaves_cons_zero (v : Float) (trace : Trace ArithmeticFault) (t : Task) :
    (trace.cons v).leaves 0 t = t.ended (.completed v) := rfl

@[simp]
theorem Trace.leaves_cons_succ (v : Float) (trace : Trace ArithmeticFault) (i : Nat) (t : Task) :
    (trace.cons v).leaves (i + 1) t = trace.leaves i t := by
  unfold leaves cons
  simp only [List.getElem?_cons_succ, List.length_cons, Nat.add_right_cancel_iff]

namespace Service

/-! ## The loop with a clock -/

/-- Works tasks off one after the other, at most so many, and tells which.  The clock is read at every
fetch and at every report; `n` counts the readings. -/
def workOff (fetched reported : Nat → Instant) :
    Nat → Nat → Service → Except ServiceFault (List Assignment) × Service
  | 0, _, s => (.ok [], s)
  | limit + 1, n, s =>
    let turn := s.next (fetched n)
    match turn.answer with
    | .error fault => (.error fault, turn.state)
    | .ok none => (.ok [], turn.state)
    | .ok (some a) =>
      let told := turn.state.report (reported n) (.ofOutcome a.id a.outcome)
      match told.answer with
      | .error fault => (.error fault, told.state)
      | .ok _ =>
        let rest := workOff fetched reported limit (n + 1) told.state
        (rest.1.map (a :: ·), rest.2)

/-- Draining is working off with a clock that stands still. -/
theorem drain_eq_workOff (now : Instant) (limit n : Nat) (s : Service) :
    (drain now limit s).answer
        = (workOff (fun _ => now) (fun _ => now) limit n s).1.map List.length ∧
      (drain now limit s).state = (workOff (fun _ => now) (fun _ => now) limit n s).2 := by
  induction limit generalizing n s with
  | zero => exact ⟨rfl, rfl⟩
  | succ limit ih =>
    rw [drain, workOff]
    dsimp only
    cases (s.next now).answer with
    | error fault => exact ⟨rfl, rfl⟩
    | ok fetched =>
      cases fetched with
      | none => exact ⟨rfl, rfl⟩
      | some a =>
        dsimp only
        obtain ⟨hanswer, hstate⟩ := ih (n + 1)
          ((s.next now).state.report now (.ofOutcome a.id a.outcome)).state
        cases ((s.next now).state.report now (.ofOutcome a.id a.outcome)).answer with
        | error fault => exact ⟨rfl, rfl⟩
        | ok status =>
          refine ⟨?_, hstate⟩
          show Except.map (· + 1) _ = Except.map List.length (Except.map (a :: ·) _)
          rw [hanswer]
          cases (workOff (fun _ => now) (fun _ => now) limit (n + 1)
            ((s.next now).state.report now (.ofOutcome a.id a.outcome)).state).1 <;> rfl

/-- Where there is no candidate, nothing is handed out and nothing changes. -/
theorem next_of_idle {s : Service} (h : s.store.candidates = []) (now : Instant) :
    (s.next now).answer = .ok none ∧ (s.next now).state = s := by
  have hclaim : s.store.claim .oldest s.policy now = (.ok none, s.store) := by
    rw [Store.claim, Store.next?, Selector.oldest, h]
    rfl
  unfold next
  rw [hclaim]
  exact ⟨rfl, rfl⟩

theorem workOff_idle (fetched reported : Nat → Instant) {s : Service} (h : s.store.candidates = [])
    (limit n : Nat) : workOff fetched reported limit n s = (.ok [], s) := by
  cases limit with
  | zero => rfl
  | succ limit =>
    obtain ⟨hanswer, hstate⟩ := next_of_idle h (fetched n)
    rw [workOff]
    dsimp only
    rw [hanswer, hstate]

theorem workOff_step {fetched reported : Nat → Instant} {s : Service} {n : Nat} {a : Assignment}
    {status : ExpressionStatus} {handed later : Store} (limit : Nat)
    (hclaim : s.store.claim .oldest s.policy (fetched n) = (.ok (some a), handed))
    (hreport : handed.report a.id a.outcome (reported n) = (.ok status, later)) :
    workOff fetched reported (limit + 1) n s =
      let rest := workOff fetched reported limit (n + 1) { s with store := later }
      (rest.1.map (a :: ·), rest.2) := by
  rw [workOff, next, hclaim]
  dsimp only [Except.mapError]
  rw [report, Report.outcome_ofOutcome]
  dsimp only
  have htask : (Report.ofOutcome a.id a.outcome).task = a.id := by cases a.outcome <;> rfl
  rw [htask, hreport]
  rfl

/-! ## The loop over a plan -/

/-- What the loop has done to a store when it stops: which tasks it has worked on, in which order, and how
it leaves each of them. -/
structure WorkedOff (start : Store) (todo : List Task) (trace : Trace ArithmeticFault)
    (executed : List Assignment) (later : Store) : Prop where
  leads : Store.Leads start later
  idle : later.candidates = []
  order : executed.map Assignment.id = (todo.map Task.id).take executed.length
  count : executed.length = trace.attempts
  tasks : ∀ i t, todo[i]? = some t → later.task? t.id = some (trace.leaves i t)

namespace WorkedOff

variable {start next later : Store} {x : ExpressionId} {t : Task} {rest : List Task} {a : Assignment}
  {executed : List Assignment} {trace : Trace ArithmeticFault}

/-- Nothing is left to do in a store where nothing is left of the plan. -/
theorem nil (h : start.Frontier x []) (latest : Option Float) :
    WorkedOff start [] (Plan.evaluate Operation.apply start.results latest []) [] start := by
  refine ⟨.refl, ?_, rfl, ?_, fun i t ht => absurd ht (by simp)⟩
  · rw [h.candidates_eq]
    rfl
  · cases latest <;> rfl

/-- The loop stops at a task whose operation fails. -/
theorem of_failed (h : start.Frontier x (t :: rest)) (ha : a.id = t.id) {fault : ArithmeticFault}
    (hleads : Store.Leads start later)
    (htask : ∀ id, later.task? id
      = if id = t.id then some (t.ended (.failed fault.message)) else start.task? id) :
    WorkedOff start (t :: rest) ⟨[], some (.error fault)⟩ [a] later := by
  refine ⟨hleads, h.failed hleads htask, congrArg ([·]) ha, rfl, ?_⟩
  intro i u hu
  cases i with
  | zero =>
    obtain rfl : t = u := Option.some.inj hu
    exact (htask t.id).trans (if_pos rfl)
  | succ i =>
    have hmem : u ∈ rest := List.mem_of_getElem? hu
    have hnodup := h.nodup
    rw [List.map_cons, List.nodup_cons] at hnodup
    have hne : u.id ≠ t.id := fun he => hnodup.1 (he ▸ List.mem_map_of_mem hmem)
    exact (htask u.id).trans ((if_neg hne).trans (h.waiting u (List.mem_cons_of_mem t hmem)).1)

/-- A completed task stays as it is while the loop goes on. -/
theorem cons {v : Float} (hleads : Store.Leads start next) (hsound : next.Sound) (ha : a.id = t.id)
    (htask : next.task? t.id = some (t.ended (.completed v)))
    (h : WorkedOff next rest trace executed later) :
    WorkedOff start (t :: rest) (trace.cons v) (a :: executed) later := by
  refine ⟨hleads.trans h.leads, h.idle, ?_, ?_, ?_⟩
  · rw [List.map_cons, h.order, ha, List.length_cons, List.map_cons, List.take_succ_cons]
  · rw [List.length_cons, h.count, Trace.attempts_cons]
  · intro i u hu
    cases i with
    | zero =>
      obtain rfl : t = u := Option.some.inj hu
      exact h.leads.keeps_ended hsound htask rfl
    | succ i =>
      rw [Trace.leaves_cons_succ]
      exact h.tasks i u hu

end WorkedOff

/-- From every stop the loop goes to the end of the plan or to the first failure, in as many rounds as there
are tasks left at most. -/
theorem workOff_frontier (fetched reported : Nat → Instant) {x : ExpressionId} {todo : List Task} :
    ∀ {n limit : Nat} {s : Service} (latest : Option Float), s.store.Frontier x todo →
      todo.length ≤ limit →
      (∀ i t, todo[i]? = some t → (s.policy.deadline? (fetched (n + i)) t.duration).isSome) →
      ∃ executed later,
        workOff fetched reported limit n s = (.ok executed, { s with store := later }) ∧
          WorkedOff s.store todo (Plan.evaluate Operation.apply s.store.results latest todo)
            executed later := by
  induction todo with
  | nil =>
    intro n limit s latest h _ _
    have hdone := WorkedOff.nil h latest
    exact ⟨[], s.store, workOff_idle fetched reported hdone.idle limit n, hdone⟩
  | cons t rest ih =>
    intro n limit s latest h hlimit hdeadline
    obtain ⟨limit, rfl⟩ : ∃ m, limit = m + 1 := ⟨limit - 1, by rw [List.length_cons] at hlimit; omega⟩
    -- One round: the first task is handed out with its operands, and its outcome is recorded.
    obtain ⟨a, b, handed, ha, hb, hclaim, hwork⟩ := h.work (hdeadline 0 t rfl)
    obtain ⟨status, later, hreport, hleads, hkeys, htask⟩ := hwork
      (⟨t.id, t.owner, t.operation, a, b, t.duration⟩ : Assignment).outcome (reported n)
    have hstep := workOff_step limit hclaim hreport
    rw [Plan.evaluate, ha, hb]
    rw [Assignment.outcome] at htask
    cases happ : t.operation.apply a b with
    | error fault =>
      simp only [happ] at htask ⊢
      have hdone := WorkedOff.of_failed
        (a := ⟨t.id, t.owner, t.operation, a, b, t.duration⟩) h rfl hleads htask
      rw [workOff_idle fetched reported (s := { s with store := later }) hdone.idle] at hstep
      exact ⟨_, later, hstep, hdone⟩
    | ok v =>
      simp only [happ] at htask ⊢
      obtain ⟨hnext, hresults⟩ := h.completed hleads hkeys htask
      have hlimit' : rest.length ≤ limit := by
        rw [List.length_cons] at hlimit
        omega
      obtain ⟨executed, final, hrest, hdone⟩ := ih (n := n + 1) (s := { s with store := later }) (some v)
        hnext hlimit' fun i u hu => by
          rw [Nat.add_assoc, Nat.add_comm 1 i]
          exact hdeadline (i + 1) u hu
      rw [hrest] at hstep
      rw [← hresults]
      exact ⟨_, final, hstep,
        .cons hleads hnext.reachable.sound rfl ((htask t.id).trans (if_pos rfl)) hdone⟩

/-! ## From the text on -/

/-- A store refuses a text that compiles for a clash of identities at most. -/
theorem refusal_of_ofText {s : Plan.Setting} {text : String} {tasks : List Task}
    (htext : Plan.ofText s text = .ok tasks) (hnames : (tasks.map Task.id).Nodup) (store : Store)
    (hexpression : store.expression? s.owner = none) (htasks : ∀ t ∈ tasks, store.task? t.id = none) :
    store.refusal (.fresh s.owner text (tasks.map Task.id) s.now) tasks = none := by
  have howner : ∀ t ∈ tasks, t.owner = s.owner := fun t ht => (Plan.plain_of_mem_ofText htext ht).2
  obtain ⟨tree, -, hsize, rfl⟩ := Plan.ofText_eq_ok_iff.mp htext
  have hne : Plan.tasksOf s 0 tree ≠ [] := by
    rw [← List.length_pos_iff, Plan.length_tasksOf]
    exact hsize
  have hvalid := (Batch.validate_eq_ok_iff howner).mpr ⟨Plan.ordered_tasksOf s 0 tree [], hnames⟩
  exact Store.refusal_eq_none_iff.mpr ⟨hne, rfl, howner, hvalid, hexpression, htasks⟩

/-- A service takes in what its store does not refuse. -/
theorem add_of_refusal_eq_none {s : Service} {mint : Mint} {now : Instant} {text : String}
    {tasks : List Task} (htext : Plan.ofText (s.setting mint now) text = .ok tasks)
    (hr : s.store.refusal (.fresh mint.expression text (tasks.map Task.id) now) tasks = none) :
    (s.add mint now text).answer = .ok mint.expression ∧
      (s.add mint now text).state = { s with
        store := s.store.accept (.fresh mint.expression text (tasks.map Task.id) now) tasks } := by
  have hput : s.store.put (.fresh mint.expression text (tasks.map Task.id) now) tasks
      = (.ok (), s.store.accept (.fresh mint.expression text (tasks.map Task.id) now) tasks) := by
    rw [Store.put, hr]
  constructor
  · simp only [add, htext, hput]
    rfl
  · simp only [add, htext, hput]

/-- A text that compiles is taken in by a service without expressions, and nothing of it is touched yet. -/
theorem add_compiled (times : OperationTimes) (policy : LeasePolicy) (mint : Mint) (now : Instant)
    {text : String} {tasks : List Task}
    (htext : Plan.ofText ((start times policy).setting mint now) text = .ok tasks)
    (hnames : (tasks.map Task.id).Nodup) :
    ∃ store, ((start times policy).add mint now text).answer = .ok mint.expression ∧
      ((start times policy).add mint now text).state = ⟨store, times, policy⟩ ∧
      store.Frontier mint.expression tasks ∧ store.results = (fun _ => none) ∧
      ∃ e, store.expression? mint.expression = some e ∧ e.tasks = tasks.map Task.id := by
  have hfresh : ∀ t ∈ tasks, t.IsFresh := fun t ht => (Plan.plain_of_mem_ofText htext ht).1
  have hr := refusal_of_ofText htext hnames .empty rfl fun _ _ => rfl
  obtain ⟨hanswer, hstate⟩ := add_of_refusal_eq_none htext hr
  exact ⟨_, hanswer, hstate, .of_empty hr rfl hfresh, Store.Frontier.results_of_empty hfresh,
    _, Store.expression?_accept_self hr, rfl⟩

/-! ## Where the expression stands in the end -/

namespace WorkedOff

variable {start later : Store} {tasks : List Task} {trace : Trace ArithmeticFault}
  {executed : List Assignment} {e : Expression}

/-- Work without a failure leaves every task completed with its result. -/
theorem tasks_of_ok (h : WorkedOff start tasks trace executed later)
    (hlength : trace.results.length = tasks.length) {i : Nat} {t : Task} (ht : tasks[i]? = some t) :
    ∃ r, trace.results[i]? = some r ∧ later.task? t.id = some (t.ended (.completed r)) := by
  obtain ⟨hi, -⟩ := List.getElem?_eq_some_iff.mp ht
  rw [← hlength] at hi
  refine ⟨trace.results[i], List.getElem?_eq_getElem hi, ?_⟩
  rw [h.tasks i t ht, Trace.leaves, List.getElem?_eq_getElem hi]

/-- Work that stops at a failure leaves the tasks before it completed, and the ones behind it as they
were. -/
theorem tasks_of_error (h : WorkedOff start tasks trace executed later) {fault : ArithmeticFault}
    (hfault : trace.outcome = some (.error fault)) {i : Nat} {t : Task} (ht : tasks[i]? = some t) :
    (∀ r, trace.results[i]? = some r → later.task? t.id = some (t.ended (.completed r))) ∧
      (i = trace.results.length → later.task? t.id = some (t.ended (.failed fault.message))) ∧
      (trace.results.length < i → later.task? t.id = some t) := by
  have hleft := h.tasks i t ht
  refine ⟨?_, ?_, ?_⟩
  · intro r hr
    rw [hleft, Trace.leaves, hr]
  · intro hi
    rw [hleft, Trace.leaves, List.getElem?_eq_none (Nat.le_of_eq hi.symm), hfault]
    exact congrArg some (if_pos hi)
  · intro hi
    rw [hleft, Trace.leaves, List.getElem?_eq_none (Nat.le_of_lt hi), hfault]
    exact congrArg some (if_neg (Nat.ne_of_gt hi))

/-- An expression all of whose tasks were worked off has the last result. -/
theorem expression_of_ok (h : WorkedOff start tasks trace executed later)
    (hset : e.Settled later.task?) (he : e.tasks = tasks.map Task.id)
    (hlength : trace.results.length = tasks.length) {v : Float}
    (hlast : trace.results.getLast? = some v) : e.status = .completed ∧ e.result = some v := by
  have hdone : e.status = .completed := by
    refine hset.completed_iff.mpr ?_
    intro id hid
    rw [he] at hid
    obtain ⟨t, ht, rfl⟩ := List.mem_map.mp hid
    obtain ⟨i, hi⟩ := List.getElem?_of_mem ht
    obtain ⟨r, -, hstored⟩ := h.tasks_of_ok hlength hi
    rw [hstored]
    rfl
  refine ⟨hdone, ?_⟩
  -- The last result is the one of the last task.
  rw [List.getLast?_eq_getElem?, hlength] at hlast
  cases ht : tasks[tasks.length - 1]? with
  | none =>
    rw [List.getElem?_eq_none_iff] at ht
    rw [List.getElem?_eq_none (hlength ▸ ht)] at hlast
    exact absurd hlast (by simp)
  | some t =>
    obtain ⟨r, hr, hstored⟩ := h.tasks_of_ok hlength ht
    obtain rfl : v = r := Option.some.inj (hlast.symm.trans hr)
    rw [hset.result, if_pos hdone, Expression.finalResult, ExpressionOf.finalTask?, he,
      List.getLast?_map, List.getLast?_eq_getElem?, ht, Option.map_some, Option.bind_some, hstored]
    rfl

/-- An expression with a failed task has failed. -/
theorem expression_of_error (h : WorkedOff start tasks trace executed later)
    (hset : e.Settled later.task?) (he : e.tasks = tasks.map Task.id) {fault : ArithmeticFault}
    (hfault : trace.outcome = some (.error fault)) (hlt : trace.results.length < tasks.length) :
    e.status = .failed ∧ e.result = none := by
  have hfailed : e.status = .failed := by
    have ht := List.getElem?_eq_getElem hlt
    obtain ⟨-, hstored, -⟩ := h.tasks_of_error hfault ht
    refine hset.failed_iff.mpr ⟨_, he ▸ List.mem_map_of_mem (List.getElem_mem hlt), ?_⟩
    rw [hstored rfl]
    rfl
  exact ⟨hfailed, by rw [hset.result, hfailed]; rfl⟩

end WorkedOff

/-- The tasks and the expression stand where a machine has come to: all completed with its results, or
completed up to the operation that failed and untouched behind it. -/
def Agrees (machine : Trace ArithmeticFault) (tasks : List Task) (executed : Nat) (s : Store)
    (e : Expression) : Prop :=
  match machine.outcome with
  | some (.ok v) =>
    machine.results.length = tasks.length ∧ executed = tasks.length ∧
      (∀ (i : Nat) (t : Task), tasks[i]? = some t →
        ∃ r, machine.results[i]? = some r ∧ s.task? t.id = some (t.ended (.completed r))) ∧
      e.status = .completed ∧ e.result = some v
  | some (.error fault) =>
    machine.results.length < tasks.length ∧ executed = machine.results.length + 1 ∧
      (∀ (i : Nat) (t : Task), tasks[i]? = some t →
        (∀ r, machine.results[i]? = some r → s.task? t.id = some (t.ended (.completed r))) ∧
        (i = machine.results.length → s.task? t.id = some (t.ended (.failed fault.message))) ∧
        (machine.results.length < i → s.task? t.id = some t ∧ t.status = .pending)) ∧
      e.status = .failed ∧ e.result = none
  | none => False

/-- Where a plan was cut from the listing of a tree, the loop leaves it as the machine says. -/
theorem WorkedOff.agrees {start later : Store} {x : ExpressionId} {tasks : List Task}
    {executed : List Assignment} {e : Expression} {tree : Tree} (hstart : start.Frontier x tasks)
    (hmachine : Plan.evaluate Operation.apply (fun _ => none) none tasks
      = Postfix.evaluate Operation.apply [] tree.items)
    (h : WorkedOff start tasks (Postfix.evaluate Operation.apply [] tree.items) executed later)
    (he : later.expression? x = some e) (hlist : e.tasks = tasks.map Task.id) :
    Agrees (Postfix.evaluate Operation.apply [] tree.items) tasks executed.length later e := by
  have hreach : Store.Reachable later := Store.Leads.trans hstart.reachable h.leads
  have hset := hreach.settled.expressions he
  have houtcome := Postfix.outcome_evaluate_items Operation.apply tree
  unfold Agrees
  rw [houtcome]
  cases hvalue : tree.eval Operation.apply with
  | ok v =>
    rw [hvalue] at houtcome
    obtain ⟨hlength, hlast⟩ := Plan.results_of_ok Operation.apply (hmachine ▸ houtcome)
    rw [hmachine] at hlength hlast
    rw [Option.or_none] at hlast
    refine ⟨hlength, ?_, fun i t ht => h.tasks_of_ok hlength ht,
      h.expression_of_ok hset hlist hlength hlast⟩
    rw [h.count, Trace.attempts, houtcome]
    exact hlength
  | error fault =>
    rw [hvalue] at houtcome
    have hlt := Plan.length_results_lt_of_error Operation.apply (hmachine ▸ houtcome)
    rw [hmachine] at hlt
    refine ⟨hlt, ?_, ?_, h.expression_of_error hset hlist houtcome hlt⟩
    · rw [h.count, Trace.attempts, houtcome]
    · intro i t ht
      obtain ⟨hbefore, hat, hbehind⟩ := h.tasks_of_error houtcome ht
      exact ⟨hbefore, hat, fun hi =>
        ⟨hbehind hi, hstart.status_of_mem (List.mem_of_getElem? ht)⟩⟩

/-- **Working off is evaluating the postfix sequence.**  A text that compiles is taken in, and whatever the
clock says while its tasks are worked off, the loop comes to an end because no task is handed out any more,
it has worked on the tasks in the order of compilation and on each once, and it leaves tasks and expression
where the machine on the postfix sequence has come to.  A clock that stands still gives draining, for which
the size of the pool is enough of a limit. -/
theorem drain_evaluates_postfix (times : OperationTimes) (policy : LeasePolicy) (mint : Mint)
    (now : Instant) {text : String} {tasks : List Task}
    (htext : Plan.ofText ((start times policy).setting mint now) text = .ok tasks)
    (hnames : (tasks.map Task.id).Nodup) (fetched reported : Nat → Instant)
    (hdeadline : ∀ i t, tasks[i]? = some t → (policy.deadline? (fetched i) t.duration).isSome) :
    ∃ sequence, Postfix.ofText text = .ok sequence ∧
      let added := (start times policy).add mint now text
      added.answer = .ok mint.expression ∧ added.state.store.pool = tasks.map Task.id ∧
      ∀ limit, tasks.length ≤ limit → ∃ executed s e,
        workOff fetched reported limit 0 added.state = (.ok executed, s) ∧
        (∀ later, (s.next later).answer = .ok none) ∧
        executed.map Assignment.id = (tasks.map Task.id).take executed.length ∧
        s.store.expression? mint.expression = some e ∧ e.tasks = tasks.map Task.id ∧
        Agrees (Postfix.evaluate Operation.apply [] sequence) tasks executed.length s.store e ∧
        ∀ still, fetched = (fun _ => still) → reported = (fun _ => still) →
          (drain still limit added.state).answer = .ok executed.length ∧
            (drain still limit added.state).state = s := by
  obtain ⟨tree, hsequence, hsize, hplan⟩ := Plan.ofText_eq_ok_iff.mp htext
  obtain ⟨store, hanswer, hstate, hfrontier, hresults, e, he, hlist⟩ :=
    add_compiled times policy mint now htext hnames
  have hof : Plan.ofPostfix ((start times policy).setting mint now) tree.items = .ok tasks := by
    rw [hplan]
    exact Plan.ofPostfix_items _ hsize
  -- The plan leaves the trace of the postfix sequence, so the loop can be told by either.
  have hmachine := Plan.evaluate_ofPostfix Operation.apply hof hnames
  refine ⟨tree.items, hsequence, hanswer, by rw [hstate, hfrontier.pool_eq], ?_⟩
  intro limit hlimit
  obtain ⟨executed, later, hrun, hdone⟩ := workOff_frontier fetched reported (n := 0)
    (s := ⟨store, times, policy⟩) none hfrontier hlimit
    (fun i t ht => by rw [Nat.zero_add]; exact hdeadline i t ht)
  rw [hresults, hmachine] at hdone
  obtain ⟨e', he', -, hlist'⟩ := hdone.leads.keeps_expression hfrontier.reachable.sound he
  refine ⟨executed, ⟨later, times, policy⟩, e', by rw [hstate, hrun],
    fun later' => (next_of_idle hdone.idle later').1, hdone.order, he', hlist'.trans hlist,
    hdone.agrees hfrontier hmachine he' (hlist'.trans hlist), ?_⟩
  rintro still rfl rfl
  obtain ⟨hcount, hstate'⟩ := drain_eq_workOff still limit 0
    ((start times policy).add mint now text).state
  rw [hstate, hrun] at hcount hstate'
  rw [hstate]
  exact ⟨hcount, hstate'⟩

/-- Work that stops at the second of three operations. -/
theorem drain_evaluates_postfix_stopped :
    let mint : Mint := ⟨⟨0⟩, fun n => ⟨.ofNat 128 (n + 1)⟩⟩
    let fresh := start .standard .standard
    let hour : Instant := { second := 3600, nano := 0 }
    let last : Task := .fresh ⟨3⟩ ⟨0⟩ .subtract (.output ⟨2⟩) (.literal 1) (.ofMillis 1000) .epoch
    let tasks : List Task := [
      .fresh ⟨1⟩ ⟨0⟩ .divide (.literal 4) (.literal 2) (.ofMillis 1000) .epoch,
      .fresh ⟨2⟩ ⟨0⟩ .divide (.output ⟨1⟩) (.literal 0) (.ofMillis 1000) .epoch, last]
    Plan.ofText (fresh.setting mint .epoch) "4/2/0-1" = .ok tasks ∧ (tasks.map Task.id).Nodup ∧
      (∀ (i : Nat) (t : Task), tasks[i]? = some t →
        (LeasePolicy.standard.deadline? .epoch t.duration).isSome) ∧
      ∃ executed s e, workOff (fun _ => .epoch) (fun _ => hour) 9 0
          (fresh.add mint .epoch "4/2/0-1").state = (.ok executed, s) ∧
        executed.map Assignment.id = [⟨1⟩, ⟨2⟩] ∧ s.store.expression? ⟨0⟩ = some e ∧
        e.status = .failed ∧ e.result = none ∧ s.store.task? ⟨3⟩ = some last := by
  intro mint fresh hour last tasks
  have htext : Plan.ofText (fresh.setting mint .epoch) "4/2/0-1" = .ok tasks := by decide +kernel
  have hnames : (tasks.map Task.id).Nodup := by decide
  have hdeadline : ∀ (i : Nat) (t : Task), tasks[i]? = some t →
      (LeasePolicy.standard.deadline? .epoch t.duration).isSome := by
    intro i t ht
    have hmem := List.mem_of_getElem? ht
    have hduration : t.duration = .ofMillis 1000 := by
      simp only [tasks, List.mem_cons, List.not_mem_nil, or_false] at hmem
      rcases hmem with rfl | rfl | rfl <;> rfl
    rw [hduration]
    decide
  obtain ⟨sequence, hsequence, -, -, hloop⟩ := drain_evaluates_postfix .standard .standard mint .epoch
    htext hnames (fun _ => .epoch) (fun _ => hour) hdeadline
  obtain ⟨executed, s, e, hrun, -, horder, he, -, hagrees, -⟩ := hloop 9 (by decide)
  obtain rfl : [.number 4, .number 2, .operator .divide, .number 0, .operator .divide, .number 1,
      .operator .subtract] = sequence := by
    have hlist : Postfix.ofText "4/2/0-1" = .ok [.number 4, .number 2, .operator .divide, .number 0,
        .operator .divide, .number 1, .operator .subtract] := by decide +kernel
    exact Except.ok.inj (hlist.symm.trans hsequence)
  have hlength : (Postfix.evaluate Operation.apply [] [.number 4, .number 2, .operator .divide,
      .number 0, .operator .divide, .number 1, .operator .subtract]).results.length = 1 := by
    decide +kernel
  unfold Agrees at hagrees
  split at hagrees
  · exact absurd (hlength.symm.trans hagrees.1) (by decide)
  · obtain ⟨-, hcount, hstored, hstatus, hresult⟩ := hagrees
    rw [hlength] at hcount
    rw [hcount] at horder
    exact ⟨htext, hnames, hdeadline, executed, s, e, hrun, horder, he, hstatus, hresult,
      ((hstored 2 last rfl).2.2 (by rw [hlength]; decide)).1⟩
  · exact hagrees.elim

end Service

end Piecework
