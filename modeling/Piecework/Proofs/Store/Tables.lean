/-
# Piecework.Proofs.Store.Tables — a store by its indexes.

A store finds its tasks by walking its registries, and what came first is where it stands in them.  Kept by
indexes, the same store is six tables that have to agree: expressions and tasks under their identities, the
order of acceptance, the number of every task in the order of creation, the number of the task that comes
next, and the open tasks under their numbers, so that the walk over them passes the oldest first.  Tables
drop what they do not find, so nothing would be seen of a table that disagrees.

Tables answer every command as the store does that they stand for, and stand for the store behind it
(`Represents.perform`).  So what holds of every reachable store holds of its tables.
-/
import Piecework.Proofs.Store.Run

namespace Piecework.Store

/-- A store by its indexes. -/
structure Tables where
  expressions : ExpressionId → Option Expression
  /-- The expressions in the order of acceptance. -/
  order : List ExpressionId
  tasks : TaskId → Option Task
  /-- The open tasks under their numbers. -/
  opened : Std.TreeMap Nat TaskId
  /-- The numbers of the tasks, in the order of creation.  Nobody holds so many tasks that they run out. -/
  number : TaskId → Option Nat
  /-- The number of the task that comes next. -/
  next : Nat

namespace Tables

/-- Tables without entries. -/
def empty : Tables := ⟨fun _ => none, [], fun _ => none, ∅, fun _ => none, 0⟩

/-! ## Looking -/

/-- All expressions in the order of acceptance. -/
def list (b : Tables) : List Expression := b.order.filterMap b.expressions

/-- The tasks of an expression in the order of compilation. -/
def tasksIn (b : Tables) (e : Expression) : List Task := e.tasks.filterMap b.tasks

/-- The tasks of the expression of an identity. -/
def tasksOf? (b : Tables) (x : ExpressionId) : Option (List Task) := (b.expressions x).map b.tasksIn

/-- An expression together with its tasks. -/
def view? (b : Tables) (x : ExpressionId) : Option View :=
  (b.expressions x).map fun e => e.withTasks (b.tasksIn e)

/-- The open tasks, by their numbers. -/
def openTasks (b : Tables) : List TaskId := b.opened.toList.map Prod.snd

/-- The tasks that could be handed out now, oldest first. -/
def candidates (b : Tables) : List Task :=
  (b.openTasks.filterMap b.tasks).filter fun t =>
    t.status = .pending && t.resolution b.tasks = .ready

/-- The number that an operand stands for. -/
def operand (b : Tables) : Argument → Except StoreFault Float
  | .literal value => .ok value
  | .output id =>
    match (b.tasks id).bind Task.result with
    | some value => .ok value
    | none => .error (.resultMissing id)

/-- What a worker is given for a task. -/
def assignment (b : Tables) (t : Task) : Except StoreFault Assignment :=
  match b.operand t.left with
  | .error fault => .error fault
  | .ok left =>
    match b.operand t.right with
    | .error fault => .error fault
    | .ok right => .ok ⟨t.id, t.owner, t.operation, left, right, t.duration⟩

/-- The first reason not to accept an expression with its tasks. -/
def refusal (b : Tables) (e : Expression) (tasks : List Task) : Option StoreFault :=
  if tasks.isEmpty then some (.noTasks e.id)
  else if tasks.map Task.id ≠ e.tasks then some (.listMismatch e.id)
  else if tasks.any fun t => t.owner ≠ e.id then some (.foreignTasks e.id)
  else
    match Batch.validate tasks with
    | .error fault => some (.unsound fault)
    | .ok () =>
      if (b.expressions e.id).isSome then some (.duplicateExpression e.id)
      else (tasks.find? fun t => (b.tasks t.id).isSome).map fun t => .duplicateTask t.id

/-! ## Writing -/

/-- Enters a task under the next number. -/
def enter (b : Tables) (t : Task) : Tables :=
  { b with
    tasks := Function.update b.tasks t.id (some t)
    opened := b.opened.insert b.next t.id
    number := Function.update b.number t.id (some b.next)
    next := b.next + 1 }

/-- Enters an expression behind all others. -/
def enterExpression (b : Tables) (e : Expression) : Tables :=
  { b with
    expressions := Function.update b.expressions e.id (some e)
    order := b.order ++ [e.id] }

/-- Writes a task again. -/
def modify (b : Tables) (id : TaskId) (f : Task → Task) : Tables :=
  { b with tasks := Function.update b.tasks id ((b.tasks id).map f) }

/-- Writes an expression again. -/
def setExpression (b : Tables) (x : ExpressionId) (e : Expression) : Tables :=
  { b with expressions := Function.update b.expressions x (some e) }

/-- Takes a task out of the open ones. -/
def close (b : Tables) (id : TaskId) : Tables :=
  match b.number id with
  | some n => { b with opened := b.opened.erase n }
  | none => b

/-! ## Operations -/

/-- Accepts an expression with its tasks, or says why not. -/
def put (b : Tables) (e : Expression) (tasks : List Task) : Except StoreFault Unit × Tables :=
  match b.refusal e tasks with
  | some fault => (.error fault, b)
  | none => (.ok (), (tasks.foldl enter b).enterExpression e)

/-- Hands the selected task out under a lease. -/
def claim (b : Tables) (select : Selector) (policy : LeasePolicy) (now : Instant) :
    Except StoreFault (Option Assignment) × Tables :=
  match select b.candidates with
  | none => (.ok none, b)
  | some t =>
    match b.assignment t with
    | .error fault => (.error fault, b)
    | .ok a =>
      match policy.deadline? now t.duration with
      | none => (.error .beyondCalendar, b)
      | some deadline =>
        (.ok (some a), b.modify a.id fun t => { t with status := .dispatched, lease := some deadline })

/-- Moves the owner of a task that has just ended.  A failure closes all tasks of the expression, one by
one. -/
def settle (b : Tables) (t : Task) (now : Instant) : Except StoreFault ExpressionStatus × Tables :=
  match b.expressions t.owner with
  | none => (.error (.unknownExpression t.owner), b)
  | some e =>
    let moved := e.reconcile b.tasks t now
    let b := b.setExpression t.owner moved
    (.ok moved.status,
      if moved.status = .failed ∧ e.status ≠ .failed then moved.tasks.foldl close b else b)

/-- Records the outcome of a task and moves its expression. -/
def report (b : Tables) (id : TaskId) (o : Outcome) (now : Instant) :
    Except StoreFault ExpressionStatus × Tables :=
  match b.tasks id with
  | none => (.error (.unknownTask id), b)
  | some t =>
    match t.record o with
    | .error fault => (.error (.ended fault), b)
    | .ok ended => ((b.modify id fun _ => ended).close id).settle ended now

/-- Takes the lease on a task back if it has lapsed, and writes the task down. -/
def reclaim (now : Instant) (r : List TaskId × Tables) (id : TaskId) : List TaskId × Tables :=
  match r.2.tasks id with
  | some t => if t.isLapsed now then (r.1 ++ [id], r.2.modify id release) else r
  | none => r

/-- Takes lapsed leases back, in one walk over the open tasks. -/
def reap (b : Tables) (now : Instant) : List TaskId × Tables :=
  b.openTasks.foldl (reclaim now) ([], b)

/-- The answer to a command, and the tables behind it. -/
def perform (b : Tables) : Command → Answer × Tables
  | .put e tasks _ => (.put (b.put e tasks).1, (b.put e tasks).2)
  | .claim select _ policy now => (.claim (b.claim select policy now).1, (b.claim select policy now).2)
  | .report id o now => (.report (b.report id o now).1, (b.report id o now).2)
  | .reap now => (.reap (b.reap now).1, (b.reap now).2)

/-- The tables after these commands. -/
def after (b : Tables) (run : List Command) : Tables := run.foldl (fun b c => (b.perform c).2) b

end Tables

/-- The answers to commands one after the other, from whatever performs them. -/
def answers {σ : Type} (perform : σ → Command → Answer × σ) : σ → List Command → List Answer
  | _, [] => []
  | s, c :: rest => (perform s c).1 :: answers perform (perform s c).2 rest

/-! ## The order of creation -/

namespace Tables

/-- The first task has the smaller number. -/
def Precedes (b : Tables) (first second : TaskId) : Prop :=
  ∃ m n, b.number first = some m ∧ b.number second = some n ∧ m < n

theorem Precedes.asymm {b : Tables} {first second : TaskId} (h : b.Precedes first second) :
    ¬b.Precedes second first := by
  rintro ⟨n', m', hn', hm', hlt'⟩
  obtain ⟨m, n, hm, hn, hlt⟩ := h
  rw [hm, Option.some_inj] at hm'
  rw [hn, Option.some_inj] at hn'
  omega

theorem nodup_of_pairwise_precedes {b : Tables} {ids : List TaskId} (h : ids.Pairwise b.Precedes) :
    ids.Nodup :=
  h.imp fun hlt heq => (heq ▸ hlt).asymm (heq ▸ hlt)

theorem mem_openTasks_iff {b : Tables} {id : TaskId} :
    id ∈ b.openTasks ↔ ∃ n : Nat, b.opened[n]? = some id := by
  rw [openTasks, List.mem_map]
  constructor
  · rintro ⟨⟨n, id⟩, hmem, rfl⟩
    exact ⟨n, Std.TreeMap.mem_toList_iff_getElem?_eq_some.mp hmem⟩
  · rintro ⟨n, hn⟩
    exact ⟨(n, id), Std.TreeMap.mem_toList_iff_getElem?_eq_some.mpr hn, rfl⟩

/-- The walk over the open tasks follows the numbers, if every task is open under its own. -/
theorem pairwise_openTasks {b : Tables}
    (h : ∀ n id, b.opened[n]? = some id → b.number id = some n) : b.openTasks.Pairwise b.Precedes := by
  rw [openTasks, List.pairwise_map]
  refine List.Pairwise.imp_of_mem ?_ b.opened.ordered_keys_toList
  rintro ⟨m, first⟩ ⟨n, second⟩ hfirst hsecond hlt
  exact ⟨m, n, h m first (Std.TreeMap.mem_toList_iff_getElem?_eq_some.mp hfirst),
    h n second (Std.TreeMap.mem_toList_iff_getElem?_eq_some.mp hsecond), Nat.compare_eq_lt.mp hlt⟩

end Tables

/-! ## Accepting, entry by entry -/

/-- A new entry is found under its key, and covers no other. -/
theorem get?_push_eq_update {κ α : Type} [DecidableEq κ] {r : Registry κ α} {k : κ}
    (h : r.get? k = none) (a : α) : (r.push k a).get? = Function.update r.get? k (some a) := by
  funext j
  rw [Registry.get?_push, Function.update_apply]
  by_cases hj : j = k
  · rw [hj, h, Option.none_or]
  · rw [if_neg hj, if_neg hj, Option.or_none]

/-- A list that is one longer has the new member behind all others. -/
theorem getElem?_concat_eq_some_iff {α : Type} {l : List α} {a x : α} {n : Nat} :
    (l ++ [a])[n]? = some x ↔ l[n]? = some x ∨ (n = l.length ∧ x = a) := by
  by_cases hn : n = l.length
  · simp [hn, eq_comm]
  · simp only [hn, false_and, or_false]
    by_cases hlt : n < l.length
    · rw [List.getElem?_append_left hlt]
    · rw [List.getElem?_eq_none (by simp; omega), List.getElem?_eq_none (by omega)]

/-- Enters one task behind all others. -/
def enter (s : Store) (t : Task) : Store :=
  { s with tasks := s.tasks.push t.id t, pool := s.pool ++ [t.id] }

/-- Enters an expression behind all others. -/
def enterExpression (s : Store) (e : Expression) : Store :=
  { s with expressions := s.expressions.push e.id e }

theorem foldl_enter (s : Store) (tasks : List Task) :
    tasks.foldl enter s
      = { s with
          tasks := s.tasks.append (tasks.map fun t => (t.id, t))
          pool := s.pool ++ tasks.map Task.id } := by
  induction tasks generalizing s with
  | nil => simp [Registry.append]
  | cons t rest ih => simp [ih, enter, Registry.append, Registry.push]

/-- A batch is accepted task by task, and its expression behind them. -/
theorem accept_eq (s : Store) (e : Expression) (tasks : List Task) :
    s.accept e tasks = (tasks.foldl enter s).enterExpression e := by
  rw [foldl_enter]
  rfl

/-! ## Standing for a store -/

/-- The tables hold what the store holds.  The number of a task is its place in the order of creation. -/
structure Represents (b : Tables) (s : Store) : Prop where
  expressions : b.expressions = s.expression?
  order : b.order = s.expressions.keys
  tasks : b.tasks = s.task?
  opened : ∀ n id, b.opened[n]? = some id ↔ b.number id = some n ∧ id ∈ s.pool
  number : ∀ id n, b.number id = some n ↔ s.tasks.keys[n]? = some id
  next : b.next = s.tasks.keys.length

namespace Represents

variable {b : Tables} {s : Store}

theorem empty : Represents .empty .empty where
  expressions := rfl
  order := rfl
  tasks := rfl
  opened n id := by simp [Tables.empty, Store.empty]
  number id n := by simp [Tables.empty, Store.empty, Registry.empty, Registry.keys]
  next := rfl

theorem pairwise_keys (h : Represents b s) : s.tasks.keys.Pairwise b.Precedes := by
  rw [List.pairwise_iff_getElem]
  intro m n hm hn hlt
  exact ⟨m, n, (h.number _ m).mpr (List.getElem?_eq_getElem hm),
    (h.number _ n).mpr (List.getElem?_eq_getElem hn), hlt⟩

/-- The walk over the open tasks is the walk over the pool. -/
theorem openTasks (h : Represents b s) (hs : Sound s) : b.openTasks = s.pool := by
  have hopen := Tables.pairwise_openTasks fun n id hn => ((h.opened n id).mp hn).1
  have hpool : s.pool.Pairwise b.Precedes := h.pairwise_keys.sublist hs.pool
  -- Both are in the order of the numbers, so it is enough that they have the same members.
  refine List.Perm.eq_of_pairwise (fun _ _ _ _ hab hba => absurd hba hab.asymm) hopen hpool ?_
  rw [List.perm_ext_iff_of_nodup (Tables.nodup_of_pairwise_precedes hopen)
    (Tables.nodup_of_pairwise_precedes hpool)]
  intro id
  rw [Tables.mem_openTasks_iff]
  constructor
  · rintro ⟨n, hn⟩
    exact ((h.opened n id).mp hn).2
  · intro hid
    obtain ⟨n, hn⟩ := List.mem_iff_getElem?.mp (hs.pool.subset hid)
    exact ⟨n, (h.opened n id).mpr ⟨(h.number id n).mpr hn, hid⟩⟩

theorem candidates (h : Represents b s) (hs : Sound s) : b.candidates = s.candidates := by
  rw [Tables.candidates, h.openTasks hs, h.tasks]
  rfl

theorem assignment (h : Represents b s) (t : Task) : b.assignment t = s.assignment t := by
  have hoperand : b.operand = s.operand := by
    funext a
    cases a with
    | literal value => rfl
    | output id =>
      rw [Tables.operand, h.tasks]
      rfl
  rw [Tables.assignment, hoperand]
  rfl

theorem refusal (h : Represents b s) (e : Expression) (tasks : List Task) :
    b.refusal e tasks = s.refusal e tasks := by
  rw [Tables.refusal, h.expressions, h.tasks]
  rfl

/-! ## What is written -/

/-- A task that is written again keeps its number, and stays open if it was. -/
theorem modify (h : Represents b s) {id : TaskId} {t : Task} {f : Task → Task}
    (ht : s.task? id = some t) (hid : (f t).id = id) :
    Represents (b.modify id f) (s.setTask (f t)) where
  expressions := h.expressions
  order := h.order
  tasks := by
    funext j
    subst hid
    simp only [Tables.modify, h.tasks, ht, Option.map_some, Function.update_apply, task?_setTask ht]
  opened := h.opened
  number j n := by
    rw [show (s.setTask (f t)).tasks.keys = s.tasks.keys from Registry.keys_set _ _ _]
    exact h.number j n
  next := by
    rw [show (s.setTask (f t)).tasks.keys = s.tasks.keys from Registry.keys_set _ _ _]
    exact h.next

theorem setExpression (h : Represents b s) {x : ExpressionId} {e f : Expression}
    (he : s.expression? x = some f) (hx : e.id = x) :
    Represents (b.setExpression x e) (s.setExpression e) where
  expressions := by
    funext y
    subst hx
    simp only [Tables.setExpression, h.expressions, Function.update_apply,
      expression?_setExpression he]
  order := h.order.trans (Registry.keys_set _ _ _).symm
  tasks := h.tasks
  opened := h.opened
  number := h.number
  next := h.next

/-- What is closed loses its entry among the open tasks.  No two tasks have the same number, so it is the
only one that does. -/
theorem close (h : Represents b s) (id : TaskId) : Represents (b.close id) (s.close [id]) := by
  have hpool : ∀ j, j ∈ (s.close [id]).pool ↔ j ∈ s.pool ∧ j ≠ id := by
    intro j
    simp [Store.close]
  unfold Tables.close
  cases hn : b.number id with
  | none =>
    refine ⟨h.expressions, h.order, h.tasks, ?_, h.number, h.next⟩
    intro m j
    rw [h.opened, hpool]
    refine and_congr_right fun hm => (and_iff_left ?_).symm
    rintro rfl
    simp [hn] at hm
  | some n =>
    refine ⟨h.expressions, h.order, h.tasks, ?_, h.number, h.next⟩
    intro m j
    rw [Std.TreeMap.getElem?_erase, hpool]
    by_cases hm : n = m
    · subst hm
      rw [if_pos (by simp)]
      simp only [reduceCtorEq, false_iff]
      rintro ⟨hj, -, hne⟩
      rw [h.number] at hj hn
      exact hne (Option.some.inj (hj.symm.trans hn))
    · rw [if_neg (by simpa using hm), h.opened]
      refine and_congr_right fun hj => (and_iff_left ?_).symm
      rintro rfl
      exact hm (Option.some.inj (hn.symm.trans hj))

/-- Closing tasks one by one is closing all of them. -/
theorem closeAll (h : Represents b s) (ids : List TaskId) :
    Represents (ids.foldl Tables.close b) (s.close ids) := by
  induction ids generalizing b s with
  | nil =>
    rw [close_nil]
    exact h
  | cons id rest ih =>
    have hsplit : s.close (id :: rest) = (s.close [id]).close rest := by
      simp only [Store.close, List.filter_filter, List.mem_cons, List.not_mem_nil, or_false, not_or,
        Bool.decide_and, Bool.and_comm]
    rw [hsplit]
    exact ih (h.close id)

/-! ## Accepting -/

/-- A new task takes the next number, and no other task has it. -/
theorem enter (h : Represents b s) {t : Task} (hnew : t.id ∉ s.tasks.keys)
    (hs : s.pool ⊆ s.tasks.keys) : Represents (b.enter t) (s.enter t) where
  expressions := h.expressions
  order := h.order
  tasks := by
    show Function.update b.tasks t.id (some t) = (s.tasks.push t.id t).get?
    rw [get?_push_eq_update (Registry.get?_eq_none_iff.mpr hnew), h.tasks]
    rfl
  opened m j := by
    show (b.opened.insert b.next t.id)[m]? = some j
      ↔ Function.update b.number t.id (some b.next) j = some m ∧ j ∈ s.pool ++ [t.id]
    rw [Std.TreeMap.getElem?_insert, Function.update_apply]
    by_cases hj : j = t.id
    · subst hj
      have hclosed : ¬b.opened[m]? = some t.id := fun hm => hnew (hs ((h.opened m _).mp hm).2)
      by_cases hm : b.next = m <;> simp [hm, hclosed]
    · have hsame : j ∈ s.pool ++ [t.id] ↔ j ∈ s.pool := by simp [hj]
      rw [if_neg hj, hsame, ← h.opened]
      by_cases hm : b.next = m
      -- The next number is nobody's yet.
      · subst hm
        have hfree : ¬b.opened[b.next]? = some j := by
          intro hopen
          have hplace := (h.number j b.next).mp ((h.opened _ j).mp hopen).1
          simp [h.next] at hplace
        simp [Ne.symm hj, hfree]
      · simp [hm]
  number j m := by
    show Function.update b.number t.id (some b.next) j = some m ↔ (s.tasks.push t.id t).keys[m]? = some j
    rw [Registry.keys_push, getElem?_concat_eq_some_iff, Function.update_apply, h.next]
    by_cases hj : j = t.id
    · subst hj
      have hnone : s.tasks.keys[m]? ≠ some t.id := fun hm => hnew (List.mem_of_getElem? hm)
      simp [hnone, eq_comm]
    · simp [hj, h.number]
  next := by
    show b.next + 1 = (s.tasks.push t.id t).keys.length
    rw [Registry.keys_push, List.length_append, h.next]
    rfl

theorem enterAll {tasks : List Task} (h : Represents b s) (hn : (tasks.map Task.id).Nodup)
    (hnew : ∀ t ∈ tasks, t.id ∉ s.tasks.keys) (hs : s.pool ⊆ s.tasks.keys) :
    Represents (tasks.foldl Tables.enter b) (tasks.foldl Store.enter s) := by
  induction tasks generalizing b s with
  | nil => exact h
  | cons t rest ih =>
    rw [List.map_cons, List.nodup_cons] at hn
    have hkeys : (s.enter t).tasks.keys = s.tasks.keys ++ [t.id] := Registry.keys_push _ _ _
    refine ih (h.enter (hnew t List.mem_cons_self) hs) hn.2 ?_ ?_
    · intro u hu
      rw [hkeys, List.mem_append, List.mem_singleton]
      rintro (hmem | heq)
      · exact hnew u (List.mem_cons_of_mem _ hu) hmem
      · exact hn.1 (heq ▸ List.mem_map_of_mem hu)
    · rw [hkeys]
      exact List.append_subset.mpr
        ⟨List.subset_append_of_subset_left _ hs, List.subset_append_right _ _⟩

theorem enterExpression (h : Represents b s) {e : Expression} (hnew : s.expression? e.id = none) :
    Represents (b.enterExpression e) (s.enterExpression e) where
  expressions := by
    show Function.update b.expressions e.id (some e) = (s.expressions.push e.id e).get?
    rw [get?_push_eq_update hnew, h.expressions]
    rfl
  order := by
    show b.order ++ [e.id] = (s.expressions.push e.id e).keys
    rw [Registry.keys_push, h.order]
  tasks := h.tasks
  opened := h.opened
  number := h.number
  next := h.next

theorem accept (h : Represents b s) (hs : Sound s) {e : Expression} {tasks : List Task}
    (hr : s.refusal e tasks = none) :
    Represents ((tasks.foldl Tables.enter b).enterExpression e) (s.accept e tasks) := by
  obtain ⟨-, -, -, -, hnew, hfresh⟩ := refusal_eq_none_iff.mp hr
  have hall := h.enterAll (nodup_of_refusal_eq_none hr)
    (fun t ht => Registry.get?_eq_none_iff.mp (hfresh t ht)) hs.pool.subset
  rw [accept_eq]
  refine hall.enterExpression ?_
  rw [foldl_enter]
  exact hnew

theorem put (h : Represents b s) (hs : Sound s) (e : Expression) (tasks : List Task) :
    (b.put e tasks).1 = (s.put e tasks).1 ∧ Represents (b.put e tasks).2 (s.put e tasks).2 := by
  rw [Tables.put, Store.put, h.refusal]
  cases hr : s.refusal e tasks with
  | some fault => exact ⟨rfl, h⟩
  | none => exact ⟨rfl, h.accept hs hr⟩

/-! ## Handing out, taking reports, and taking leases back -/

theorem claim (h : Represents b s) (hs : Sound s) {select : Selector} (hl : select.Lawful)
    (policy : LeasePolicy) (now : Instant) :
    (b.claim select policy now).1 = (s.claim select policy now).1 ∧
      Represents (b.claim select policy now).2 (s.claim select policy now).2 := by
  rw [Tables.claim, Store.claim, next?, h.candidates hs]
  cases hselect : select s.candidates with
  | none => exact ⟨rfl, h⟩
  | some t =>
    have ht := hs.task?_of_mem_candidates (hl _ _ hselect)
    dsimp only
    rw [h.assignment]
    cases hass : s.assignment t with
    | error fault => exact ⟨rfl, h⟩
    | ok a =>
      obtain ⟨left, right, -, -, rfl⟩ := assignment_eq_ok_iff.mp hass
      dsimp only
      cases policy.deadline? now t.duration with
      | none => exact ⟨rfl, h⟩
      | some deadline =>
        exact ⟨rfl, h.modify (f := fun t => { t with status := .dispatched, lease := some deadline })
          ht rfl⟩

theorem settle (h : Represents b s) (hs : Sound s) (t : Task) (now : Instant) :
    (b.settle t now).1 = (s.settle t now).1 ∧ Represents (b.settle t now).2 (s.settle t now).2 := by
  rw [Tables.settle, Store.settle, h.expressions, h.tasks]
  cases he : s.expression? t.owner with
  | none => exact ⟨rfl, h⟩
  | some e =>
    obtain ⟨hid, -, htasks⟩ := reconcile_keeps e s.task? t now
    have hmoved := h.setExpression he (hid.trans (hs.expression_id he))
    refine ⟨rfl, ?_⟩
    dsimp only
    rw [htasks]
    split
    · exact hmoved.closeAll e.tasks
    · exact hmoved

theorem report (h : Represents b s) (hs : Sound s) (id : TaskId) (o : Outcome) (now : Instant) :
    (b.report id o now).1 = (s.report id o now).1 ∧
      Represents (b.report id o now).2 (s.report id o now).2 := by
  rw [Tables.report, Store.report, h.tasks]
  cases ht : s.task? id with
  | none => exact ⟨rfl, h⟩
  | some t =>
    dsimp only
    cases hterm : t.status.isTerminal with
    | true =>
      simp only [Task.record, hterm, if_true]
      exact ⟨trivial, h⟩
    | false =>
      simp only [Task.record, hterm, Bool.false_eq_true, if_false]
      obtain ⟨-, hid, howner, -⟩ := ended_keeps t o
      have hname : (t.ended o).id = id := hid.trans (hs.task_id ht)
      have hended := h.modify (f := fun _ => t.ended o) ht hname
      have hsound : Sound (s.setTask (t.ended o)) := hs.setTask (hname ▸ ht) howner
      exact (hended.close id).settle (hsound.close [id]) _ now

/-- The walk over the open tasks takes back what had lapsed before it began.  It passes no task twice, and
what is done to one does not touch the others. -/
theorem reclaimAll (now : Instant) (ids : List TaskId) (hn : ids.Nodup) (taken : List TaskId) :
    ∀ {b : Tables} {s : Store}, Represents b s → Sound s →
      (ids.foldl (Tables.reclaim now) (taken, b)).1 = taken ++ ids.filter (s.hasLapsed now) ∧
        Represents (ids.foldl (Tables.reclaim now) (taken, b)).2
          (s.releaseAll (ids.filter (s.hasLapsed now))) := by
  induction ids generalizing taken with
  | nil => exact fun h _ => ⟨by simp, h⟩
  | cons id rest ih =>
    intro b s h hs
    rw [List.nodup_cons] at hn
    rw [List.foldl_cons]
    cases hlapsed : s.hasLapsed now id with
    | false =>
      have hskip : Tables.reclaim now (taken, b) id = (taken, b) := by
        rw [hasLapsed] at hlapsed
        rw [Tables.reclaim, h.tasks]
        cases ht : s.task? id with
        | none => rfl
        | some t =>
          rw [ht, Option.any_some] at hlapsed
          simp only [hlapsed, Bool.false_eq_true, if_false]
      rw [hskip, List.filter_cons_of_neg (by simp [hlapsed])]
      exact ih hn.2 taken h hs
    | true =>
      obtain ⟨t, ht, hl⟩ := (Option.any_eq_true _ _).mp hlapsed
      have hid := hs.task_id ht
      subst hid
      have htake : Tables.reclaim now (taken, b) t.id = (taken ++ [t.id], b.modify t.id release) := by
        simp only [Tables.reclaim, h.tasks, ht, hl, if_true]
      have hrest : rest.filter (s.hasLapsed now) = rest.filter ((s.setTask (release t)).hasLapsed now) := by
        refine List.filter_congr fun id hmem => ?_
        have hne : id ≠ (release t).id := fun he => hn.1 (he ▸ hmem)
        rw [hasLapsed, hasLapsed, task?_setTask (t := release t) ht, if_neg hne]
      rw [htake, List.filter_cons_of_pos hlapsed, releaseAll_cons ht, hrest]
      obtain ⟨htaken, hwalked⟩ := ih hn.2 (taken ++ [t.id]) (h.modify ht rfl)
        (hs.setTask (t := release t) ht rfl)
      exact ⟨htaken.trans (List.append_cons _ _ _).symm, hwalked⟩

theorem reap (h : Represents b s) (hs : Sound s) (now : Instant) :
    (b.reap now).1 = (s.reap now).1 ∧ Represents (b.reap now).2 (s.reap now).2 := by
  rw [Tables.reap, h.openTasks hs]
  exact h.reclaimAll now s.pool (hs.pool.nodup hs.tasks.nodup) [] hs

/-! ## Commands and runs -/

/-- Tables answer a command as the store does that they stand for, and stand for the store behind it. -/
theorem perform (h : Represents b s) (hs : Sound s) (c : Command) :
    (b.perform c).1 = (s.perform c).1 ∧ Represents (b.perform c).2 (s.perform c).2 := by
  cases c with
  | put e tasks fresh => exact (h.put hs e tasks).imp_left (congrArg Answer.put)
  | claim select lawful policy now =>
    exact (h.claim hs lawful policy now).imp_left (congrArg Answer.claim)
  | report id o now => exact (h.report hs id o now).imp_left (congrArg Answer.report)
  | reap now => exact (h.reap hs now).imp_left (congrArg Answer.reap)

theorem after (h : Represents b s) (hs : Sound s) (run : List Command) :
    Represents (b.after run) (s.after run) := by
  induction run generalizing b s with
  | nil => exact h
  | cons c rest ih => exact ih (h.perform hs c).2 (hs.perform c)

theorem answers (h : Represents b s) (hs : Sound s) (run : List Command) :
    Store.answers Tables.perform b run = Store.answers Store.perform s run := by
  induction run generalizing b s with
  | nil => rfl
  | cons c rest ih =>
    obtain ⟨hanswer, hlater⟩ := h.perform hs c
    rw [Store.answers, Store.answers, hanswer, ih hlater (hs.perform c)]

end Represents

end Piecework.Store
