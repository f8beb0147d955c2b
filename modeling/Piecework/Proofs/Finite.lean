/-
# Piecework.Proofs.Finite — every number in a store is finite.

Numbers come into a store in two ways only.  The operands of tasks are numbers of a text, and the scanner takes no
infinite ones (`Proofs.Literals`).  Results come with reports.  A report that arrives over HTTP has been read, and
what is read is finite (`Wire.finite_of_reads_report`); a worker in place reports what an operation comes to, and a
result that is not finite counts as a failure there (`Assignment.isFinite_outcome`).

Nothing looks at the numbers again behind these doors.  That each stored number is finite is kept by every change
(`Store.Path.isFinite`), so it holds of whatever requests and workers make of a service (`Service.Driven`), and an
assignment, whose operands are stored numbers, can be written and read.
-/
import Piecework.Proofs.Handover
import Piecework.Proofs.Wire.RoundTrip
import Piecework.Service.Source

namespace Piecework

open Number (isFinite)

/-! ## Reports -/

/-- The value, if there is one, is finite. -/
def Outcome.IsFinite : Outcome → Prop
  | .completed value => isFinite value = true
  | .failed _ => True

/-- Whatever the operands are, what an operation comes to is finite or a failure. -/
theorem Assignment.isFinite_outcome (a : Assignment) : a.outcome.IsFinite := by
  unfold Assignment.outcome
  cases happly : a.operation.apply a.left a.right with
  | error fault => exact trivial
  | ok value =>
    unfold Operation.apply at happly
    dsimp only at happly
    split_ifs at happly with _ hfinite
    obtain rfl := Except.ok.inj happly
    exact hfinite

namespace Report

theorem isFinite_ofOutcome (task : TaskId) {o : Outcome} (h : o.IsFinite) : (ofOutcome task o).IsFinite := by
  intro x hx
  cases o with
  | completed value =>
    obtain rfl := Option.some.inj hx
    exact h
  | failed reason => cases hx

/-- A report stands for its result or for a failure. -/
theorem IsFinite.outcome {r : Report} (h : r.IsFinite) {o : Outcome} (ho : r.outcome = .ok o) : o.IsFinite := by
  unfold Report.outcome at ho
  split at ho
  · split at ho
    · rename_i hresult
      obtain rfl := Except.ok.inj ho
      exact h _ hresult
    · cases ho
  · obtain rfl := Except.ok.inj ho
    exact trivial

end Report

/-- Whatever a request has in its body has been read. -/
theorem Http.Request.reads_of_value {r : Http.Request} {c : Json.Codec α} {a : α} (h : r.value c = .ok a) :
    c.Reads a := by
  unfold value at h
  split_ifs at h
  exact Json.Codec.reads_of_decode (Json.eq_ok_of_mapError h)

/-! ## Changes of a store -/

/-- All numbers that the change brings are finite. -/
def Store.Change.IsFinite : Store.Change → Prop
  | accept _ tasks => ∀ t ∈ tasks, t.IsFinite
  | finish _ o _ => o.IsFinite
  | _ => True

/-- All numbers in the tasks of the store are finite. -/
def Store.HasFiniteTasks (s : Store) : Prop := ∀ id t, s.task? id = some t → t.IsFinite

namespace Store

variable {s later : Store}

/-- Nothing moves the operands of a task, and its result is that of the outcome. -/
theorem Moves.isFinite {c : Change} {t t' : Task} (h : Moves c t t') (hc : c.IsFinite) (ht : t.IsFinite) :
    t'.IsFinite := by
  cases h with
  | stays => exact ht
  | dispatched deadline _ => exact ht
  | released now _ => exact ht
  | ended o now _ =>
    cases o with
    | failed reason => exact ⟨ht.1, fun x hx => by cases hx⟩
    | completed value =>
      refine ⟨ht.1, fun x hx => ?_⟩
      obtain rfl := Option.some.inj hx
      exact hc

/-- What is finite stays so as long as nothing but finite numbers comes in. -/
theorem Path.isFinite (h : Path (fun _ c => c.IsFinite) s later) (hs : Sound s) (hfinite : s.HasFiniteTasks) :
    later.HasFiniteTasks := by
  refine (h.induct (P := HasFiniteTasks) ?_ hs hfinite).2
  intro s c hs hc hfine ih id t' ht'
  rcases Change.moves_or_mem hs hc ht' with ⟨t, ht, hmoves⟩ | ⟨e, tasks, rfl, hmem, -⟩
  · exact hmoves.isFinite hfine (ih id t ht)
  · exact hfine t' hmem

/-- What an operand stands for is a number of its task or the result of another one. -/
theorem HasFiniteTasks.operand (h : s.HasFiniteTasks) {a : Argument} (ha : a.IsFinite) {x : Float}
    (hx : s.operand a = .ok x) : Number.isFinite x = true := by
  cases a with
  | literal value =>
    obtain rfl := Except.ok.inj hx
    exact ha
  | output id =>
    simp only [Store.operand] at hx
    split at hx
    · rename_i hresult
      obtain rfl := Except.ok.inj hx
      obtain ⟨t, ht, hresult⟩ := Option.bind_eq_some_iff.mp hresult
      exact (h id t ht).2 _ hresult
    · cases hx

end Store

namespace Service

variable {s : Service}

/-! ## Calls with finite numbers -/

/-- The result in the report, if the call is one and there is any, is finite. -/
def Call.IsFinite : Call → Prop
  | .report _ r => r.IsFinite
  | _ => True

theorem Call.Makes.isFinite {c : Call} {change : Store.Change} (h : c.Makes change) (hc : c.IsFinite) :
    change.IsFinite := by
  cases change with
  | accept e tasks =>
    intro t ht
    obtain ⟨setting, text, htext⟩ := h.exists_ofText
    have hfresh : t.plain = t := (Plan.plain_of_mem_ofText htext ht).1
    refine ⟨Plan.hasFiniteOperands_of_mem_ofText htext ht, fun x hx => ?_⟩
    rw [← hfresh] at hx
    cases hx
  | dispatch t deadline => exact trivial
  | release t now => exact trivial
  | finish t o now =>
    cases c with
    | report _ r => exact hc.outcome h
    | _ => exact False.elim h

/-- A call with finite numbers keeps the numbers finite, and the service among those that come of calls. -/
theorem carry_keeps {c : Call} (hc : c.IsFinite) (h : s.Reachable ∧ s.store.HasFiniteTasks) :
    (s.carry c).2.Reachable ∧ (s.carry c).2.store.HasFiniteTasks := by
  have hs := h.1.store.sound
  have hpath : Store.Path (fun _ change => change.IsFinite) s.store (s.carry c).2.store :=
    (path_carry hs c).mono fun _ _ hmakes => hmakes.isFinite hc
  exact ⟨.carry c h.1, hpath.isFinite hs h.2⟩

/-- A request is one call with finite numbers at most. -/
theorem call_of_serve (s : Service) (mint : Mint) (now : Instant) (r : Http.Request) :
    (Http.serve s mint now r).state = s ∨
      ∃ c : Call, c.IsFinite ∧ (Http.serve s mint now r).state = (s.carry c).2 := by
  have hasks := Http.asks_serve s mint now r
  generalize Http.serve s mint now r = turn at hasks ⊢
  cases hasks with
  | nothing hstate => exact Or.inl hstate
  | text text hstate => exact Or.inr ⟨.add mint now text, trivial, hstate⟩
  | report report hvalue hstate =>
    exact Or.inr ⟨.report now report,
      Wire.finite_of_reads_report (Http.Request.reads_of_value hvalue), hstate⟩
  | task => exact Or.inr ⟨.next now, trivial, Http.state_handOut s now⟩
  | taskWithoutBody => exact Or.inr ⟨.next now, trivial, Http.state_handOut s now⟩

/-! ## Services that are driven -/

/-- What requests, workers in place and the watch over the leases make of a service without expressions.  Workers
fetch and report in any order, and between the two of them anything else can happen. -/
inductive Driven : Service → Prop
  | start (times : OperationTimes) (policy : LeasePolicy) : Driven (start times policy)
  | request {s : Service} (mint : Mint) (now : Instant) (r : Http.Request) :
      Driven s → Driven (Http.serve s mint now r).state
  | add {s : Service} (mint : Mint) (now : Instant) (text : String) :
      Driven s → Driven (s.add mint now text).state
  | fetch {s : Service} (now : Instant) : Driven s → Driven ((source now).fetch s).state
  | finish {s : Service} (now : Instant) (a : Assignment) (clock accepted : Nat) :
      Driven s → Driven (Worker.finish (source now) a ⟨s, clock, accepted⟩).worker.source
  | reap {s : Service} (now : Instant) : Driven s → Driven (s.reap now).state

end Service

namespace Worker

variable {σ ε : Type} {source : TaskSource σ ε} {P : σ → Prop}

/-- What a worker leaves is what the report of its outcome leaves. -/
theorem source_finish (source : TaskSource σ ε) (a : Assignment) (w : Worker σ) :
    (finish source a w).worker.source = (source.report w.source (.ofOutcome a.id a.outcome)).state := by
  unfold finish
  dsimp only
  split <;> rfl

/-- What fetching keeps, and the reports of a worker, is kept by a cycle. -/
theorem keeps_cycle (hfetch : ∀ s, P s → P (source.fetch s).state)
    (hreport : ∀ s (a : Assignment), P s → P (source.report s (.ofOutcome a.id a.outcome)).state)
    (stop : Option Nat) (timer : Timer) (w : Worker σ) (h : P w.source) :
    P (cycle source stop w timer).worker.source := by
  unfold cycle
  dsimp only
  split
  · exact hfetch _ h
  · exact hfetch _ h
  · show P (compute source stop _ _ timer).worker.source
    unfold compute
    dsimp only
    split_ifs
    · exact hfetch _ h
    · rw [source_finish]
      exact hreport _ _ (hfetch _ h)

/-- **A whole shift** keeps what fetching keeps and the reports of a worker. -/
theorem keeps_work (hfetch : ∀ s, P s → P (source.fetch s).state)
    (hreport : ∀ s (a : Assignment), P s → P (source.report s (.ofOutcome a.id a.outcome)).state)
    (shift : Shift) (timer : Timer) (rounds : Nat) (w : Worker σ) (h : P w.source) :
    P (work source shift rounds w timer).worker.source := by
  induction rounds generalizing w with
  | zero => exact h
  | succ rounds ih =>
    unfold work
    split_ifs
    · exact h
    · split
      · exact h
      · refine ih _ ?_
        -- Waiting for the next round does nothing to the source.
        have hcycle := keeps_cycle hfetch hreport shift.stop timer w h
        split_ifs
        · exact hcycle
        · exact hcycle

end Worker

namespace Service

variable {s : Service}

/-- Whatever drives the service, it comes of calls, and all numbers in its tasks are finite. -/
theorem Driven.hasFiniteTasks (h : Driven s) : s.Reachable ∧ s.store.HasFiniteTasks := by
  induction h with
  | start times policy =>
    refine ⟨.start times policy, fun id t ht => ?_⟩
    have hnone : Store.empty.task? id = none := rfl
    exact absurd (hnone.symm.trans ht) (by simp)
  | @request s mint now r _ ih =>
    rcases call_of_serve s mint now r with hstate | ⟨c, hc, hstate⟩ <;> rw [hstate]
    · exact ih
    · exact carry_keeps hc ih
  | add mint now text _ ih => exact carry_keeps (c := .add mint now text) trivial ih
  | fetch now _ ih => exact carry_keeps (c := .next now) trivial ih
  | finish now a clock accepted _ ih =>
    rw [Worker.source_finish]
    exact carry_keeps (c := .report now (.ofOutcome a.id a.outcome))
      (Report.isFinite_ofOutcome a.id a.isFinite_outcome) ih
  | reap now _ ih => exact carry_keeps (c := .reap now) trivial ih

/-- A worker in place drives the service, for as long as its shift is. -/
theorem Driven.shift (h : Driven s) (now : Instant) (shift : Shift) (timer : Timer)
    (rounds clock accepted : Nat) :
    Driven (Worker.run (source now) shift rounds ⟨s, clock, accepted⟩ timer).worker.source := by
  refine Worker.keeps_work (fun s hs => .fetch now hs) (fun s a hs => ?_) shift timer rounds _ h
  have hfinish := Driven.finish now a 0 0 hs
  rwa [Worker.source_finish] at hfinish

/-- Whatever a client sends drives the service at its address. -/
theorem Driven.connection (h : Driven s) (c : Client) (mint : Mint) (now : Instant) (r : Http.Request) :
    Driven (c.connection mint now s r).state := by
  unfold Client.connection Transport.toServer
  split_ifs
  · exact .request mint now _ h
  · exact h

/-- A worker elsewhere drives the service by its requests. -/
theorem Driven.shift_elsewhere (h : Driven s) (c : Client) (mint : Mint) (now : Instant) (shift : Shift)
    (timer : Timer) (rounds clock accepted : Nat) :
    Driven (Worker.run (c.source (c.connection mint now)) shift rounds ⟨s, clock, accepted⟩ timer).worker.source :=
  Worker.keeps_work (fun _ hs => hs.connection c mint now _) (fun _ _ hs => hs.connection c mint now _)
    shift timer rounds _ h

end Service

/-! ## Assignments that are delivered -/

/-- A finite number is not written as `null`. -/
theorem Json.writeFloat_ne_null {x : Float} (h : isFinite x = true) : writeFloat x ≠ "null".toList := by
  intro hnull
  obtain ⟨c, rest, htext, -, hc⟩ := isPresent_writeFloat h
  exact hc (List.cons.inj (htext.symm.trans hnull)).1

/-- The response delivers an assignment of finite operands: neither of them is written as `null`, and every client
reads the assignment. -/
def Http.Response.DeliversFinite (response : Response) : Prop :=
  ∃ a : Assignment, response = .json 200 (Wire.taskResponse.encode a) ∧ a.IsFinite ∧
    Json.writeFloat a.left ≠ "null".toList ∧ Json.writeFloat a.right ≠ "null".toList ∧
      ∀ c : Client, c.nextTask.read response = .ok (some (Wire.carriedAssignment a))

theorem Assignment.IsFinite.delivers {a : Assignment} (h : a.IsFinite) :
    (Http.Response.json 200 (Wire.taskResponse.encode a)).DeliversFinite :=
  ⟨a, rfl, h, Json.writeFloat_ne_null h.1, Json.writeFloat_ne_null h.2, fun c =>
    c.read_nextTask (Wire.carries_single _ _ (Wire.carries_assignment h.1 h.2))⟩

namespace Service

variable {s : Service}

/-- The assignment that a service hands out has finite operands. -/
theorem isFinite_of_next (hs : s.store.Sound) (h : s.store.HasFiniteTasks) {now : Instant} {a : Assignment}
    (ha : (s.next now).answer = .ok (some a)) : a.IsFinite := by
  obtain ⟨t, left, right, _, ht, -, hleft, hright, -, rfl, -⟩ := next_spec hs ha
  obtain ⟨⟨hl, hr⟩, -⟩ := h _ t ht
  exact ⟨h.operand hl hleft, h.operand hr hright⟩

/-- Whoever asks for a task and is answered with 200 is delivered one that can be read. -/
theorem deliversFinite_of_get (hs : s.store.Sound) (h : s.store.HasFiniteTasks) {mint : Mint} {now : Instant}
    {r : Http.Request} {response : Http.Response} (hpath : r.path = "/internal/task".toList)
    (hmethod : r.method = "GET") (hresponse : (Http.serve s mint now r).answer = some response)
    (hstatus : response.status = 200) : response.DeliversFinite := by
  have hroute : Http.Route.ofPath? r.path = some .nextTask := by
    rw [hpath]
    decide
  have hserve : Http.serve s mint now r = Http.handOut s now := Http.serve_of_route s mint now hroute hmethod
  rw [hserve] at hresponse
  rcases Http.answer_handOut s now with ⟨a, ha, hanswer⟩ | ⟨-, hrefused⟩
  · obtain rfl := Option.some.inj (hresponse.symm.trans hanswer)
    exact (isFinite_of_next hs h ha).delivers
  · exact absurd hstatus (hrefused response hresponse)

/-! ## Stored numbers and answers -/

/-- Every number in a task or an expression of the service is finite, whatever is completed has its result, and
whoever asks for a task and is answered with 200 is delivered finite operands. -/
structure AllFinite (s : Service) : Prop where
  tasks : ∀ id t, s.store.task? id = some t →
    t.IsFinite ∧ (t.status = .completed → ∃ x, t.result = some x)
  expressions : ∀ x e, s.store.expression? x = some e →
    e.IsFinite ∧ (e.status = .completed → ∃ r, e.result = some r)
  delivered : ∀ (mint : Mint) (now : Instant) (r : Http.Request) (response : Http.Response),
    r.path = "/internal/task".toList → r.method = "GET" →
      (Http.serve s mint now r).answer = some response → response.status = 200 → response.DeliversFinite

/-- It is enough that the numbers in the tasks are finite: results of expressions are results of tasks. -/
theorem Reachable.allFinite_of_tasks (h : Reachable s) (hfinite : s.store.HasFiniteTasks) : s.AllFinite := by
  have hs := h.store.sound
  have hsettled := h.store.settled
  refine ⟨?tasks, ?expressions, ?delivered⟩
  case tasks =>
    intro id t ht
    refine ⟨hfinite id t ht, fun hdone => ?_⟩
    exact Option.isSome_iff_exists.mp ((hsettled.tasks ht).result.mp hdone)
  case expressions =>
    intro x e he
    have hset := hsettled.expressions he
    refine ⟨fun r hr => ?_, fun hdone => ?_⟩
    · obtain ⟨id, t, -, ht, hresult⟩ := hset.last_of_result hr
      exact (hfinite id t ht).2 r hresult
    · have hsome := (hset.result_isSome_iff (hs.nonempty he) fun ht => hsettled.tasks ht).mpr hdone
      exact Option.isSome_iff_exists.mp hsome
  case delivered =>
    intro mint now r response hpath hmethod hresponse hstatus
    exact deliversFinite_of_get hs hfinite hpath hmethod hresponse hstatus

/-- **No infinite value and no NaN comes into a store.**  Whatever requests of any kind, workers in place and the
watch over the leases make of a service without expressions, every number in it is finite, whatever is completed
has its result, and every assignment that is delivered is one that every client reads.  All this holds just so
behind a whole shift of any worker, in place or elsewhere. -/
theorem Driven.allFinite (h : Driven s) :
    s.AllFinite ∧ ∀ (now : Instant) (shift : Shift) (timer : Timer) (rounds clock accepted : Nat),
      (Worker.run (source now) shift rounds ⟨s, clock, accepted⟩ timer).worker.source.AllFinite ∧
      ∀ (c : Client) (mint : Mint), (Worker.run (c.source (c.connection mint now)) shift rounds
        ⟨s, clock, accepted⟩ timer).worker.source.AllFinite := by
  have hall : ∀ {s : Service}, Driven s → s.AllFinite := fun hs =>
    hs.hasFiniteTasks.1.allFinite_of_tasks hs.hasFiniteTasks.2
  refine ⟨hall h, fun now shift timer rounds clock accepted => ⟨?_, fun c mint => ?_⟩⟩
  · exact hall (h.shift now shift timer rounds clock accepted)
  · exact hall (h.shift_elsewhere c mint now shift timer rounds clock accepted)

/-- A quotient that would be infinite: its operands are delivered, the worker reports a failure, and the task has no
result. -/
theorem allFinite_quotient :
    let mint : Mint := ⟨⟨0⟩, fun n => ⟨.ofNat 128 (n + 1)⟩⟩
    let s := (Http.serve (Service.start .standard .standard) mint .epoch
      (.post "/api/v1/calculate" (Wire.calculateRequest.encode "1/0"))).state
    let later := (Worker.run (source .epoch) ⟨.ofMillis 1, none, none⟩ 1 ⟨s, 0, 0⟩).worker.source
    (∃ response, (Http.serve s mint .epoch (.get "/internal/task")).answer = some response ∧
      response.DeliversFinite) ∧
    later.AllFinite ∧ (later.store.task? ⟨1⟩).map Task.status = some .failed ∧
      (later.store.task? ⟨1⟩).bind Task.result = none := by
  intro mint s later
  have hdriven : Driven s := .request mint .epoch _ (.start .standard .standard)
  obtain ⟨hall, hshifts⟩ := hdriven.allFinite
  have hresponse : (Http.serve s mint .epoch (.get "/internal/task")).answer
      = some (.json 200 (Wire.taskResponse.encode ⟨⟨1⟩, ⟨0⟩, .divide, 1, 0, .ofMillis 1000⟩)) := by
    decide +kernel
  refine ⟨⟨_, hresponse, ?_⟩, ?_, by decide +kernel, by decide +kernel⟩
  · exact hall.delivered mint .epoch (.get "/internal/task") _ rfl rfl hresponse rfl
  · exact (hshifts .epoch ⟨.ofMillis 1, none, none⟩ .millis 1 0 0).1

end Service

end Piecework
