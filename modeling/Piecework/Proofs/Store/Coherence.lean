/-
# Piecework.Proofs.Store.Coherence — the tables of a store agree with each other.

Whatever a store is used for, its tables hold the same expressions and tasks: what one table names is found
in the others, under the same owner and once (`Tables.Coherent`).  So the readers, which pass over what they
do not find, never pass over anything (`Tables.Lossless`).

None of this is shown by walking the tables.  They stand for a reachable store, in which the place of a task
is its number, and the pool is what is open; it is left to say in what order a store creates its tasks, and
which tasks hold a lease.
-/
import Piecework.Proofs.Store.Pool
import Piecework.Proofs.Store.Tables

namespace Piecework.Store

variable {s : Store} {b : Tables}

/-! ## What a reachable store keeps -/

/-- The list of all expressions is what is found under the keys. -/
theorem list_eq_filterMap (h : Sound s) : s.list = s.expressions.keys.filterMap s.expression? := by
  rw [Registry.keys, List.filterMap_map, list, Registry.values, ← List.filterMap_eq_map]
  exact List.filterMap_congr fun p hp => (Registry.get?_of_mem h.expressions.nodup hp).symm

/-- Tasks are created expression by expression, and those of one expression in the order of compilation. -/
theorem Reachable.keys_eq (h : Reachable s) : s.tasks.keys = s.list.flatMap ExpressionOf.tasks := by
  refine h.induct (P := fun s => s.tasks.keys = s.list.flatMap ExpressionOf.tasks) rfl ?_
  intro s c hs hc _ hp
  by_cases hbatch : ∃ e tasks, c = .accept e tasks
  · obtain ⟨e, tasks, rfl⟩ := hbatch
    obtain ⟨-, hlist, -⟩ := refusal_eq_none_iff.mp hc
    have hbehind : (s.accept e tasks).list = s.list ++ [e] := by
      simp [list, accept, Registry.values, Registry.push]
    show (s.accept e tasks).tasks.keys = (s.accept e tasks).list.flatMap ExpressionOf.tasks
    rw [keys_accept, hp, hlist, hbehind, List.flatMap_append, List.flatMap_singleton]
  -- Without a batch the keys of both tables stay, and every expression keeps its tasks.
  · obtain ⟨htasks, hexpressions⟩ := Change.keys_apply hs hc fun e tasks he => hbatch ⟨e, tasks, he⟩
    have hkept : (c.apply s).list.map ExpressionOf.tasks = s.list.map ExpressionOf.tasks := by
      rw [list_eq_filterMap (hs.apply hc), list_eq_filterMap hs, hexpressions, List.map_filterMap,
        List.map_filterMap]
      refine List.filterMap_congr fun x hx => ?_
      obtain ⟨e, he⟩ := Registry.mem_keys_iff.mp hx
      obtain ⟨e', he', -, hsame⟩ := Change.keeps_expression hs hc (x := x) he
      rw [show s.expression? x = some e from he, he', Option.map_some, Option.map_some, hsame]
    rw [htasks, hp, List.flatMap_def, List.flatMap_def, hkept]

theorem Moves.isSome_lease_iff {c : Change} {t t' : Task} (h : Moves c t t')
    (ht : t.lease.isSome ↔ t.status = .dispatched) : t'.lease.isSome ↔ t'.status = .dispatched := by
  cases h with
  | stays => exact ht
  | dispatched deadline _ => simp
  | released now _ => simp [release]
  | ended o now _ => cases o <;> simp [Task.ended]

/-- Just the tasks that are handed out are under a lease. -/
theorem Reachable.isSome_lease_iff (h : Reachable s) {id : TaskId} {t : Task}
    (ht : s.task? id = some t) : t.lease.isSome ↔ t.status = .dispatched := by
  refine h.of_moves (P := fun t => t.lease.isSome ↔ t.status = .dispatched) ?_ ?_ ht
  · intro t hfresh
    rw [← hfresh]
    simp [Task.plain, Task.fresh]
  · intro c t t' hm
    exact hm.isSome_lease_iff

/-! ## Tables that agree -/

namespace Tables

/-- The tables agree with each other. -/
structure Coherent (b : Tables) : Prop where
  /-- The order names every stored expression once. -/
  order_nodup : b.order.Nodup
  mem_order_iff : ∀ x, x ∈ b.order ↔ ∃ e, b.expressions x = some e
  expression_id : ∀ x e, b.expressions x = some e → e.id = x
  task_id : ∀ id t, b.tasks id = some t → t.id = id
  /-- What an expression lists is stored and belongs to it. -/
  owned : ∀ x e, b.expressions x = some e → ∀ id ∈ e.tasks, ∃ t, b.tasks id = some t ∧ t.owner = x
  /-- What is stored is listed by its owner. -/
  listed : ∀ id t, b.tasks id = some t → ∃ e, b.expressions t.owner = some e ∧ id ∈ e.tasks
  /-- No task is listed twice, by one expression or by two. -/
  tasks_nodup : (b.list.flatMap ExpressionOf.tasks).Nodup
  /-- Just the stored tasks have numbers. -/
  numbered : ∀ id, (∃ n, b.number id = some n) ↔ ∃ t, b.tasks id = some t
  number_injective : ∀ id id' n, b.number id = some n → b.number id' = some n → id = id'
  number_lt : ∀ id n, b.number id = some n → n < b.next
  /-- Numbers grow from expression to expression, and along the tasks of each. -/
  ascending : (b.list.flatMap ExpressionOf.tasks).Pairwise b.Precedes
  /-- Under its number is every task that has not ended and whose expression has not failed. -/
  opened : ∀ n id, b.opened[n]? = some id ↔ b.number id = some n ∧
    ∃ t e, b.tasks id = some t ∧ t.status.isTerminal = false ∧ b.expressions t.owner = some e ∧
      e.status ≠ .failed
  lease : ∀ id t, b.tasks id = some t → (t.lease.isSome ↔ t.status = .dispatched)
  result : ∀ id t, b.tasks id = some t → (t.result.isSome ↔ t.status = .completed)
  error : ∀ id t, b.tasks id = some t → (t.error.isSome ↔ t.status = .failed)

/-- Readers find all that they look for. -/
structure Lossless (b : Tables) : Prop where
  /-- The list of all expressions has every one of the order, in its place. -/
  list : b.order.map b.expressions = b.list.map some
  list_id : b.list.map ExpressionOf.id = b.order
  /-- The tasks of an expression are all that it lists, in the order of compilation. -/
  tasksOf : ∀ x e, b.expressions x = some e → ∃ tasks, b.tasksOf? x = some tasks ∧
    e.tasks.map b.tasks = tasks.map some ∧ tasks.map Task.id = e.tasks
  view : ∀ x, b.view? x = (b.expressions x).bind fun e => (b.tasksOf? x).map e.withTasks

/-- A walk that finds something everywhere passes over nothing. -/
theorem map_eq_map_some_filterMap {α β : Type} {f : α → Option β} {l : List α}
    (h : ∀ a ∈ l, ∃ c, f a = some c) : l.map f = (l.filterMap f).map some := by
  induction l with
  | nil => rfl
  | cons a rest ih =>
    obtain ⟨c, hc⟩ := h a List.mem_cons_self
    rw [List.map_cons, List.filterMap_cons_some hc, List.map_cons, hc,
      ih fun a ha => h a (List.mem_cons_of_mem _ ha)]

/-- What is found under its own key leads back to the keys. -/
theorem map_filterMap_eq_self {κ β : Type} {key : β → κ} {f : κ → Option β} {l : List κ}
    (h : ∀ k ∈ l, ∃ c, f k = some c ∧ key c = k) : (l.filterMap f).map key = l := by
  induction l with
  | nil => rfl
  | cons k rest ih =>
    obtain ⟨c, hc, hk⟩ := h k List.mem_cons_self
    rw [List.filterMap_cons_some hc, List.map_cons, hk, ih fun k hk => h k (List.mem_cons_of_mem _ hk)]

theorem Coherent.lossless (h : b.Coherent) : b.Lossless where
  list := map_eq_map_some_filterMap fun x hx => (h.mem_order_iff x).mp hx
  list_id := by
    refine map_filterMap_eq_self fun x hx => ?_
    obtain ⟨e, he⟩ := (h.mem_order_iff x).mp hx
    exact ⟨e, he, h.expression_id x e he⟩
  tasksOf x e he := by
    refine ⟨b.tasksIn e, by rw [tasksOf?, he, Option.map_some], ?_, ?_⟩
    · refine map_eq_map_some_filterMap fun id hid => ?_
      obtain ⟨t, ht, -⟩ := h.owned x e he id hid
      exact ⟨t, ht⟩
    · refine map_filterMap_eq_self fun id hid => ?_
      obtain ⟨t, ht, -⟩ := h.owned x e he id hid
      exact ⟨t, ht, h.task_id id t ht⟩
  view x := by
    rw [view?, tasksOf?]
    cases b.expressions x <;> rfl

end Tables

theorem Represents.list (h : Represents b s) (hs : Sound s) : b.list = s.list := by
  rw [Tables.list, h.order, h.expressions, list_eq_filterMap hs]

/-- Tables that stand for a reachable store agree with each other. -/
theorem Represents.coherent (h : Represents b s) (hr : Reachable s) : b.Coherent := by
  have hs := hr.sound
  have hkeys : b.list.flatMap ExpressionOf.tasks = s.tasks.keys := by
    rw [h.list hs, hr.keys_eq]
  exact {
    order_nodup := h.order ▸ hs.expressions.nodup
    mem_order_iff := fun x => by
      rw [h.order, h.expressions]
      exact Registry.mem_keys_iff
    expression_id := fun x e he => hs.expression_id (h.expressions ▸ he)
    task_id := fun id t ht => hs.task_id (h.tasks ▸ ht)
    owned := fun x e he id hid => by
      rw [h.tasks]
      exact hs.owned (h.expressions ▸ he) id hid
    listed := fun id t ht => by
      rw [h.expressions]
      exact hs.listed (h.tasks ▸ ht)
    tasks_nodup := hkeys ▸ hs.tasks.nodup
    numbered := fun id => by
      simp only [h.number, h.tasks]
      rw [← List.mem_iff_getElem?]
      exact Registry.mem_keys_iff
    number_injective := fun id id' n hn hn' =>
      Option.some.inj (((h.number id n).mp hn).symm.trans ((h.number id' n).mp hn'))
    number_lt := fun id n hn => by
      rw [h.next]
      exact (List.getElem?_eq_some_iff.mp ((h.number id n).mp hn)).1
    ascending := hkeys ▸ h.pairwise_keys
    opened := fun n id => by
      rw [h.opened, h.tasks, h.expressions, hr.mem_pool_iff id]
      rfl
    lease := fun id t ht => hr.isSome_lease_iff (h.tasks ▸ ht)
    result := fun id t ht => (hr.settled.tasks (h.tasks ▸ ht)).result.symm
    error := fun id t ht => (hr.settled.tasks (h.tasks ▸ ht)).error.symm }

/-! ## The order of acceptance -/

/-- The expression that a command has put into a store, by its answer. -/
def admitted : Command × Answer → Option ExpressionId
  | (.put e _ _, .put (.ok ())) => some e.id
  | _ => none

/-- Just the batches that are accepted add to the order, and they add to its end. -/
theorem keys_perform_eq (h : Sound s) (c : Command) :
    (s.perform c).2.expressions.keys
      = s.expressions.keys ++ (admitted (c, (s.perform c).1)).toList := by
  by_cases hbatch : ∃ e tasks fresh, c = .put e tasks fresh
  · obtain ⟨e, tasks, fresh, rfl⟩ := hbatch
    rcases put_cases s e tasks with ⟨fault, hput⟩ | ⟨-, hput⟩
    · simp only [perform, hput, admitted, Option.toList_none, List.append_nil]
    · simp only [perform, hput, admitted, Option.toList_some]
      exact Registry.keys_push _ _ _
  · rcases keys_perform h c with ⟨e, tasks, fresh, rfl, -⟩ | ⟨-, hkeys⟩
    · exact absurd ⟨e, tasks, fresh, rfl⟩ hbatch
    · have hnone : admitted (c, (s.perform c).1) = none := by
        cases c with
        | put e tasks fresh => exact absurd ⟨e, tasks, fresh, rfl⟩ hbatch
        | _ => rfl
      rw [hkeys, hnone, Option.toList_none, List.append_nil]

/-- The expressions of a store are those that the commands have put there, in this order. -/
theorem keys_after (h : Sound s) (run : List Command) :
    (s.after run).expressions.keys
      = s.expressions.keys ++ (run.zip (answers perform s run)).filterMap admitted := by
  induction run generalizing s with
  | nil => simp
  | cons c rest ih =>
    rw [after_cons, ih (h.perform c), keys_perform_eq h c, answers, List.zip_cons_cons,
      List.filterMap_cons, List.append_assoc]
    cases admitted (c, (s.perform c).1) <;> rfl

/-- **The tables agree.**  Whatever is asked of tables, refused or not, the order names the expressions that
were accepted, as they were accepted; every task is listed once, by its owner, and numbered in the order of
the lists; what is open is what has not ended under an owner that has not failed; and a task has a lease, a
result or a reason as its status says.  Readers find all that they look for.  The answers are those of a
store, and the tables stand for the store behind them. -/
theorem Tables.coherent_after (run : List Command) :
    let b := Tables.empty.after run
    let log := answers Tables.perform .empty run
    b.Coherent ∧ b.Lossless ∧ b.order = (run.zip log).filterMap admitted ∧
      log = answers Store.perform .empty run ∧ Represents b (Store.empty.after run) := by
  intro b log
  have h : Represents b (Store.empty.after run) := Represents.empty.after .empty run
  have hlog : log = answers Store.perform .empty run := Represents.empty.answers .empty run
  have hcoherent := h.coherent (reachable_after run)
  refine ⟨hcoherent, hcoherent.lossless, ?_, hlog, h⟩
  rw [h.order, keys_after .empty run, hlog]
  rfl

/-- A batch that comes twice is accepted once.  When its second task fails, the first one stays handed out, and
none is open any more. -/
theorem Tables.coherent_after_failed :
    let first : Task := .fresh ⟨1⟩ ⟨0⟩ .multiply (.literal 2) (.literal 3) (.ofMillis 1) .epoch
    let second : Task := .fresh ⟨2⟩ ⟨0⟩ .subtract (.output ⟨1⟩) (.literal 1) (.ofMillis 1) .epoch
    let put : Command := .put (.fresh ⟨0⟩ "2*3-1" [⟨1⟩, ⟨2⟩] .epoch) [first, second]
    let b := Tables.empty.after [put, put, .claim .oldest Selector.lawful_oldest .standard .epoch,
      .report ⟨2⟩ (.failed "lost") .epoch]
    b.order = [⟨0⟩] ∧ b.openTasks = [] ∧ b.number ⟨1⟩ = some 0 ∧ b.number ⟨2⟩ = some 1 ∧
      ∃ t, b.tasks ⟨1⟩ = some t ∧ t.lease.isSome := by
  intro first second put b
  obtain ⟨hcoherent, -, horder, -, -⟩ := coherent_after [put, put,
    .claim .oldest Selector.lawful_oldest .standard .epoch, .report ⟨2⟩ (.failed "lost") .epoch]
  have hopen : b.openTasks = [] := by decide +kernel
  have hstatus : (b.tasks ⟨1⟩).map Task.status = some .dispatched := by decide +kernel
  obtain ⟨t, ht, hs⟩ := Option.map_eq_some_iff.mp hstatus
  exact ⟨horder.trans (by decide +kernel), hopen, by decide +kernel, by decide +kernel, t, ht,
    (hcoherent.lease ⟨1⟩ t ht).mpr hs⟩

end Piecework.Store
