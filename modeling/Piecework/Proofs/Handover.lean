/-
# Piecework.Proofs.Handover — leases, and the responses that carry them.

A task is leased so that somebody works on it, and whoever is to work on it learns of it from the response.
The store grants the lease where the task is handed out; whether the assignment arrives is decided behind
that, by the route and the method of the request.

A request comes to one of five things (`Http.Asks`), and only two of them ask for a task.  One is answered with
the assignment.  The other has the method `HEAD`: it is carried out like the first and answered without the
body, so it leases a task that nobody learns of (`Service.handover_head`).
-/
import Piecework.Proofs.Server

namespace Piecework

/-! ## Requests by what they ask -/

namespace Http

variable {s : Service} {mint : Mint} {now : Instant} {r : Request}

/-- The turn of whoever asks for a task. -/
def handOut (s : Service) (now : Instant) : Turn Service (Option Response) :=
  respond Wire.taskResponse 200 (requireTask (s.next now))

theorem state_handOut (s : Service) (now : Instant) : (handOut s now).state = (s.next now).state :=
  (state_respond _ _ _).trans (state_requireTask _)

/-- What a request comes to: the service is not asked for anything that changes it, it is given a text or the
report in the body, or it is asked for a task; and if it is asked by `HEAD`, the body is left out. -/
inductive Asks (s : Service) (mint : Mint) (now : Instant) (r : Request) :
    Turn Service (Option Response) → Prop
  | nothing {turn : Turn Service (Option Response)} : turn.state = s → Asks s mint now r turn
  | text {turn : Turn Service (Option Response)} (text : String) :
      turn.state = (s.add mint now text).state → Asks s mint now r turn
  | report {turn : Turn Service (Option Response)} (report : Report) :
      r.value Wire.report = .ok report → turn.state = (s.report now report).state →
      Asks s mint now r turn
  | task : r.path = "/internal/task".toList → r.method = "GET" →
      Asks s mint now r (handOut s now)
  | taskWithoutBody : r.path = "/internal/task".toList → r.method = "HEAD" →
      Asks s mint now r ((handOut s now).map (Option.map Response.withoutBody))

/-- Only one path leads to the tasks. -/
theorem Route.path_of_nextTask {path : List Char} (h : ofPath? path = some .nextTask) :
    path = "/internal/task".toList := by
  by_contra hpath
  unfold ofPath? at h
  simp only [if_neg hpath] at h
  split_ifs at h
  all_goals simp [Option.map_eq_some_iff] at h

/-- On all other routes no task is asked for. -/
theorem Route.asks_run {route : Route} (hne : route ≠ .nextTask) {turn : Turn Service (Option Response)}
    (hstate : turn.state = (route.run s mint now r).state) : Asks s mint now r turn := by
  cases route with
  | health => exact .nothing hstate
  | calculate =>
    unfold Route.run withBody at hstate
    cases hvalue : r.value Wire.calculateRequest with
    | error f =>
      rw [hvalue] at hstate
      exact .nothing hstate
    | ok text =>
      rw [hvalue] at hstate
      exact .text text (hstate.trans (state_respond _ _ _))
  | expressions => exact .nothing (hstate.trans (state_respond _ _ _))
  | expression segment =>
    change turn.state = (showExpression s segment).state at hstate
    unfold showExpression at hstate
    cases hsegment : decodeSegment segment with
    | none =>
      rw [hsegment] at hstate
      exact .nothing hstate
    | some text =>
      rw [hsegment] at hstate
      exact .nothing (hstate.trans (state_respond _ _ _))
  | nextTask => exact absurd rfl hne
  | taskResult =>
    unfold Route.run withBody at hstate
    cases hvalue : r.value Wire.report with
    | error f =>
      rw [hvalue] at hstate
      exact .nothing hstate
    | ok report =>
      rw [hvalue] at hstate
      exact .report report hvalue (hstate.trans (state_respond _ _ _))

/-- A request by `HEAD` is carried out on its route, and answered without the body. -/
theorem serve_of_head {route : Route} (hroute : Route.ofPath? r.path = some route)
    (hbody : route.takesBody = false) (hmethod : r.method = "HEAD") :
    serve s mint now r = (route.run s mint now r).map (Option.map Response.withoutBody) := by
  have hserved : r.method ∈ route.methods := by
    rw [hmethod, Route.methods, hbody]
    decide
  have hoptions : r.method ≠ "OPTIONS" := by
    rw [hmethod]
    decide
  simp only [serve, hroute, if_neg hoptions, if_neg (not_not_intro hserved), if_pos hmethod]

/-- Every request comes to one of these. -/
theorem asks_serve (s : Service) (mint : Mint) (now : Instant) (r : Request) :
    Asks s mint now r (serve s mint now r) := by
  rcases serve_cases s mint now r with ⟨answer, hserve⟩ | ⟨route, hmethod, hroute, hserve⟩
  · rw [hserve]
    exact .nothing rfl
  · by_cases htask : route = .nextTask
    · subst htask
      have hpath := Route.path_of_nextTask hroute
      rcases List.mem_pair.mp hmethod with hget | hhead
      · rw [serve_of_route s mint now hroute hget]
        exact .task hpath hget
      · rw [serve_of_head hroute rfl hhead]
        exact .taskWithoutBody hpath hhead
    · refine Route.asks_run htask ?_
      rcases hserve with hserve | hserve <;> rw [hserve]
      rfl

/-! ## Responses with an assignment -/

/-- An assignment is delivered with 200, and nothing else is. -/
theorem answer_handOut (s : Service) (now : Instant) :
    (∃ a, (s.next now).answer = .ok (some a) ∧
        (handOut s now).answer = some (.json 200 (Wire.taskResponse.encode a))) ∨
      (∀ a, (s.next now).answer ≠ .ok (some a)) ∧
        ∀ response, (handOut s now).answer = some response → response.status ≠ 200 := by
  have hrefused : ∀ (f : ServiceFault) (state : Service) (journal : List Line) (response : Response),
      (respond Wire.taskResponse 200 ⟨.error f, state, journal⟩).answer = some response →
        response.status ≠ 200 := by
    intro f state journal response hresponse
    unfold respond at hresponse
    dsimp only at hresponse
    split_ifs at hresponse
    obtain rfl := Option.some.inj hresponse
    show f.status ≠ 200
    cases f <;> simp [ServiceFault.status]
  unfold handOut
  rcases s.next now with ⟨f | _ | a, state, journal⟩
  · exact Or.inr ⟨by simp, hrefused f state journal⟩
  · exact Or.inr ⟨by simp, hrefused .noTask state journal⟩
  · exact Or.inl ⟨a, rfl, rfl⟩

end Http

/-! ## Leases -/

namespace Store

variable {s later : Store} {id : TaskId}

/-- The task waited, and is handed out now. -/
def Leased (s later : Store) (id : TaskId) : Prop :=
  (s.task? id).map Task.status = some .pending ∧ (later.task? id).map Task.status = some .dispatched

instance (s later : Store) (id : TaskId) : Decidable (s.Leased later id) :=
  inferInstanceAs (Decidable (_ ∧ _))

theorem not_leased_self : ¬s.Leased s id := by
  rintro ⟨hpending, hdispatched⟩
  exact absurd (hpending.symm.trans hdispatched) (by decide)

/-- Nothing leases a task but the command that hands it out. -/
theorem hands_of_leased (h : Sound s) {c : Command} (hl : s.Leased (s.perform c).2 id) :
    ∃ a, s.Hands c a ∧ a.id = id := by
  obtain ⟨hpending, hdispatched⟩ := hl
  obtain ⟨t, ht, hstatus⟩ := Option.map_eq_some_iff.mp hpending
  obtain ⟨t', ht', htreats⟩ := treats h c ht
  rw [ht', Option.map_some, Option.some_inj] at hdispatched
  cases htreats with
  | stays => exact absurd (hstatus.symm.trans hdispatched) (by decide)
  | handed deadline hh hid _ => exact ⟨_, hh, hid.trans (h.task_id ht)⟩
  | ended o now _ _ =>
    rw [(ended_keeps t o).2.2.2] at hdispatched
    cases o <;> exact TaskStatus.noConfusion hdispatched
  | released now _ _ => exact TaskStatus.noConfusion hdispatched

end Store

namespace Service

variable {s : Service} {now : Instant} {id : TaskId}

/-- A text leases nothing. -/
theorem not_leased_add (hs : s.store.Sound) (mint : Mint) (now : Instant) (text : String) :
    ¬s.store.Leased (s.add mint now text).state.store id := by
  intro hl
  cases htext : Plan.ofText (s.setting mint now) text with
  | error fault =>
    rw [(add_of_error htext).2] at hl
    exact Store.not_leased_self hl
  | ok tasks =>
    rw [store_add_of_ofText htext] at hl
    have hfresh : (Expression.fresh mint.expression text (tasks.map Task.id) now).IsFresh ∧
        ∀ t ∈ tasks, t.IsFresh := ⟨rfl, fun t ht => (Plan.plain_of_mem_ofText htext ht).1⟩
    obtain ⟨a, hh, -⟩ := Store.hands_of_leased (c := .put _ tasks hfresh) hs hl
    simp [Store.Hands, Store.perform] at hh

/-- A report leases nothing. -/
theorem not_leased_report (hs : s.store.Sound) (now : Instant) (r : Report) :
    ¬s.store.Leased (s.report now r).state.store id := by
  intro hl
  unfold report at hl
  cases houtcome : r.outcome with
  | error fault =>
    rw [houtcome] at hl
    exact Store.not_leased_self hl
  | ok o =>
    rw [houtcome] at hl
    obtain ⟨a, hh, -⟩ := Store.hands_of_leased (c := .report r.task o now) hs hl
    simp [Store.Hands, Store.perform] at hh

/-- Whoever is handed an assignment by the service leases its task: it was waiting, its operands stand for the
numbers in the assignment, and nothing else is written. -/
theorem next_spec (hs : s.store.Sound) {a : Assignment} (ha : (s.next now).answer = .ok (some a)) :
    ∃ t left right deadline, s.store.task? a.id = some t ∧ t.status = .pending ∧
      s.store.operand t.left = .ok left ∧ s.store.operand t.right = .ok right ∧
      s.policy.deadline? now t.duration = some deadline ∧
      a = ⟨t.id, t.owner, t.operation, left, right, t.duration⟩ ∧
      (s.next now).state
        = { s with store := s.store.setTask { t with status := .dispatched, lease := some deadline } } := by
  have hclaimed : (s.store.claim .oldest s.policy now).1 = .ok (some a) := by
    unfold next at ha
    cases hc : (s.store.claim .oldest s.policy now).1 with
    | error fault => simp [hc, Except.mapError] at ha
    | ok answer => simpa [hc, Except.mapError] using ha
  have hh : s.store.Hands (.claim .oldest Selector.lawful_oldest s.policy now) a :=
    congrArg Store.Answer.claim hclaimed
  obtain ⟨_, _, _, _, t, deadline, hcommand, -, ht, hpending, hassigned, hdeadline, hlater⟩ :=
    Store.hands_spec hs hh
  obtain ⟨-, rfl, rfl⟩ := Store.Command.claim.inj hcommand
  obtain ⟨left, right, hleft, hright, heq⟩ := Store.assignment_eq_ok_iff.mp hassigned
  refine ⟨t, left, right, deadline, ht, hpending, hleft, hright, hdeadline, heq, ?_⟩
  show { s with store := (s.store.claim .oldest s.policy now).2 } = _
  exact congrArg (fun store => { s with store := store }) hlater

/-- An assignment leases its task. -/
theorem leased_of_next (hs : s.store.Sound) {a : Assignment} (ha : (s.next now).answer = .ok (some a)) :
    s.store.Leased (s.next now).state.store a.id := by
  obtain ⟨t, _, _, deadline, ht, hpending, -, -, -, -, hstate⟩ := next_spec hs ha
  have hid := hs.task_id ht
  have hstored : s.store.task? t.id = some t := hid.symm ▸ ht
  rw [hstate, Store.Leased, ht]
  refine ⟨congrArg some hpending, ?_⟩
  rw [Store.task?_setTask (t := { t with status := .dispatched, lease := some deadline }) hstored,
    if_pos hid.symm]
  rfl

/-- Whoever is handed nothing leases nothing. -/
theorem exists_of_leased_next (hs : s.store.Sound) (hl : s.store.Leased (s.next now).state.store id) :
    ∃ a, (s.next now).answer = .ok (some a) ∧ a.id = id := by
  obtain ⟨a, hh, hid⟩ :=
    Store.hands_of_leased (c := .claim .oldest Selector.lawful_oldest s.policy now) hs hl
  have hclaimed : (s.store.claim .oldest s.policy now).1 = .ok (some a) := Store.Answer.claim.inj hh
  refine ⟨a, ?_, hid⟩
  show (s.store.claim .oldest s.policy now).1.mapError _ = _
  rw [hclaimed]
  rfl

/-- A lease comes with its assignment where the service is asked: exactly one task has changed, in its status
and its lease, and the response tells which and what is to be done. -/
theorem handOut_of_leased (hs : s.store.Sound)
    (hl : s.store.Leased (Http.handOut s now).state.store id) :
    ∃ t left right deadline, s.store.task? id = some t ∧
      s.store.operand t.left = .ok left ∧ s.store.operand t.right = .ok right ∧
      (Http.handOut s now).state
        = { s with store := s.store.setTask { t with status := .dispatched, lease := some deadline } } ∧
      (∀ other, other ≠ id → (Http.handOut s now).state.store.task? other = s.store.task? other) ∧
      (Http.handOut s now).answer
        = some (.json 200 (Wire.taskResponse.encode ⟨id, t.owner, t.operation, left, right, t.duration⟩)) := by
  rw [Http.state_handOut] at hl ⊢
  obtain ⟨a, ha, rfl⟩ := exists_of_leased_next hs hl
  obtain ⟨t, left, right, deadline, ht, -, hleft, hright, -, heq, hstate⟩ := next_spec hs ha
  have hid := hs.task_id ht
  have hstored : s.store.task? t.id = some t := hid.symm ▸ ht
  refine ⟨t, left, right, deadline, ht, hleft, hright, hstate, ?_, ?_⟩
  · intro other hother
    rw [hstate, Store.task?_setTask (t := { t with status := .dispatched, lease := some deadline }) hstored,
      if_neg (hid ▸ hother)]
  · rw [← hid, ← heq, Http.handOut, Http.respond, Http.requireTask, ha]

/-- **A lease is granted together with its assignment, unless the request leaves the body out.**  Whatever is
requested of a service that comes of calls: if a task that waited is handed out behind it, the request asked
for a task, by `GET` or by `HEAD`.  Exactly this task has changed, in its status and its lease.  To `GET` the
answer is 200 with the assignment: the identities of the task and of its owner, its operation, the numbers that
its operands stand for, and its operation time.  To `HEAD` the answer is the same without the body.  The other
way round, whoever asks for a task and is answered with 200 has leased one. -/
theorem Reachable.handover (h : Reachable s) (mint : Mint) (now : Instant) (r : Http.Request) :
    let turn := Http.serve s mint now r
    (∀ id, s.store.Leased turn.state.store id →
      r.path = "/internal/task".toList ∧ (r.method = "GET" ∨ r.method = "HEAD") ∧
        ∃ t left right deadline, s.store.task? id = some t ∧
          s.store.operand t.left = .ok left ∧ s.store.operand t.right = .ok right ∧
          turn.state
            = { s with store := s.store.setTask { t with status := .dispatched, lease := some deadline } } ∧
          (∀ other, other ≠ id → turn.state.store.task? other = s.store.task? other) ∧
          let response := Http.Response.json 200
            (Wire.taskResponse.encode ⟨id, t.owner, t.operation, left, right, t.duration⟩)
          turn.answer = some (if r.method = "HEAD" then response.withoutBody else response)) ∧
      (r.path = "/internal/task".toList → (r.method = "GET" ∨ r.method = "HEAD") →
        ∀ response, turn.answer = some response → response.status = 200 →
          ∃ id, s.store.Leased turn.state.store id) := by
  intro turn
  have hs := h.store.sound
  constructor
  · intro id hl
    have hasks : Http.Asks s mint now r turn := Http.asks_serve s mint now r
    clear_value turn
    cases hasks with
    | nothing hsame => exact absurd (hsame ▸ hl) Store.not_leased_self
    | text text hadded => exact absurd (hadded ▸ hl) (not_leased_add hs mint now text)
    | report report _ htaken => exact absurd (htaken ▸ hl) (not_leased_report hs now report)
    | task hpath hget =>
      have hhead : r.method ≠ "HEAD" := by
        rw [hget]
        decide
      obtain ⟨t, left, right, deadline, ht, hleft, hright, hstate, hothers, hanswer⟩ :=
        handOut_of_leased hs hl
      exact ⟨hpath, Or.inl hget, t, left, right, deadline, ht, hleft, hright, hstate, hothers,
        hanswer.trans (congrArg some (if_neg hhead).symm)⟩
    | taskWithoutBody hpath hhead =>
      have hgranted : s.store.Leased (Http.handOut s now).state.store id := hl
      obtain ⟨t, left, right, deadline, ht, hleft, hright, hstate, hothers, hanswer⟩ :=
        handOut_of_leased hs hgranted
      exact ⟨hpath, Or.inr hhead, t, left, right, deadline, ht, hleft, hright, hstate, hothers,
        (congrArg (Option.map Http.Response.withoutBody) hanswer).trans
          (congrArg some (if_pos hhead).symm)⟩
  · intro hpath hmethod response hresponse hstatus
    have hroute : Http.Route.ofPath? r.path = some .nextTask := by
      rw [hpath]
      decide
    -- By either method the response has the status of what is answered to `GET`.
    have hasked : turn.state = (Http.handOut s now).state ∧
        ∃ full, (Http.handOut s now).answer = some full ∧ full.status = response.status := by
      rcases hmethod with hget | hhead
      · have hserve : turn = Http.handOut s now := Http.serve_of_route s mint now hroute hget
        exact ⟨congrArg Turn.state hserve, response, hserve ▸ hresponse, rfl⟩
      · have hserve : turn = (Http.handOut s now).map (Option.map Http.Response.withoutBody) :=
          Http.serve_of_head hroute rfl hhead
        rw [hserve] at hresponse
        obtain ⟨full, hfull, rfl⟩ := Option.map_eq_some_iff.mp hresponse
        exact ⟨(congrArg Turn.state hserve).trans rfl, full, hfull, rfl⟩
    obtain ⟨hstate, full, hfull, hsame⟩ := hasked
    rw [hstate, Http.state_handOut]
    rcases Http.answer_handOut s now with ⟨a, ha, -⟩ | ⟨-, hrefused⟩
    · exact ⟨a.id, leased_of_next hs ha⟩
    · exact absurd (hsame.trans hstatus) (hrefused full hfull)

/-- The task of "1+1" is leased by `GET`, and the response says so. -/
theorem handover_get :
    let mint : Mint := ⟨⟨0⟩, fun n => ⟨.ofNat 128 (n + 1)⟩⟩
    let s := ((Service.start .standard .standard).carry (.add mint .epoch "1+1")).2
    let turn := Http.serve s mint .epoch (.get "/internal/task")
    s.store.Leased turn.state.store ⟨1⟩ ∧
      turn.answer = some (.json 200 (Wire.taskResponse.encode
        ⟨⟨1⟩, ⟨0⟩, .add, 1, 1, (OperationTimes.standard).of .add⟩)) := by
  intro mint s turn
  have hs : Reachable s := .carry (.add mint .epoch "1+1") (.start .standard .standard)
  obtain ⟨hlease, -⟩ := hs.handover mint .epoch (.get "/internal/task")
  have hl : s.store.Leased turn.state.store ⟨1⟩ := by decide +kernel
  obtain ⟨-, -, t, left, right, deadline, ht, hleft, hright, -, -, hanswer⟩ := hlease ⟨1⟩ hl
  have hstored : s.store.task? ⟨1⟩
      = some (.fresh ⟨1⟩ ⟨0⟩ .add (.literal 1) (.literal 1) ((OperationTimes.standard).of .add) .epoch) := by
    decide +kernel
  obtain rfl := Option.some.inj (ht.symm.trans hstored)
  obtain rfl := Except.ok.inj hleft
  obtain rfl := Except.ok.inj hright
  exact ⟨hl, hanswer⟩

/-- By `HEAD` the same task is leased, and the response tells nobody of it: it has no body, whatever assignment
one expects in it.  Whoever asks again is told that there is no task. -/
theorem handover_head :
    let mint : Mint := ⟨⟨0⟩, fun n => ⟨.ofNat 128 (n + 1)⟩⟩
    let s := ((Service.start .standard .standard).carry (.add mint .epoch "1+1")).2
    let turn := Http.serve s mint .epoch ⟨"HEAD", "/internal/task", none, ""⟩
    s.store.Leased turn.state.store ⟨1⟩ ∧
      (∀ response a, turn.answer = some response → response.body ≠ Wire.taskResponse.encode a) ∧
      (Http.serve turn.state mint .epoch (.get "/internal/task")).answer
        = some (.fault 404 "not found: no task available") := by
  intro mint s turn
  refine ⟨by decide +kernel, ?_, by decide +kernel⟩
  intro response a hresponse hbody
  have hempty : turn.answer.map Http.Response.body = some "" := by decide +kernel
  rw [hresponse, Option.map_some, Option.some_inj, hbody] at hempty
  have hnothing : Wire.taskResponse.write a = [] := String.ofList_injective hempty
  have hbrace : ∃ rest, Wire.taskResponse.write a = '\x7b' :: rest := ⟨_, rfl⟩
  obtain ⟨rest, hrest⟩ := hbrace
  exact absurd (hnothing.symm.trans hrest) (List.cons_ne_nil _ _).symm

end Service

end Piecework
