/-
# Piecework.Proofs.Refinement — a client answers as the service itself does.

A call through a client is written as a request, routed, read, asked of the service, and its answer is written
and read again.  All of this together changes next to nothing: what the service answers arrives as it is, only the
times of tasks in whole milliseconds, a refusal arrives with its status and its wording, and the service is left as
the direct call leaves it (`Service.Reachable.remote`).  Two more things could stand in the way.  Doubles pass
through JSON, so those in the answer have to arrive as they are; and that there is no task is told by a status that
refusals have too, so no refusal to hand out a task may have it (`Service.status_next_of_error`).

Every task has the time of its operation, so a service that compiles with whole milliseconds, as one does that takes
its times from an environment, loses nothing (`Service.Reachable.isWhole_duration`).
-/
import Piecework.Proofs.Client
import Piecework.Proofs.Handover
import Piecework.Proofs.Literals

namespace Piecework

open Json (Codec)

/-! ## Base addresses -/

/-- Slashes behind an address do not count. -/
theorem Client.base_ofAddress {address : String} (h : address.toList.getLast? ≠ some '/') (slashes : Nat) :
    (ofAddress (address ++ .ofList (List.replicate slashes '/'))).base = address := by
  have hslashes : (List.replicate slashes '/').dropWhile (· = '/') = [] := by
    rw [List.dropWhile_eq_nil_iff]
    exact fun c hc => decide_eq_true (List.eq_of_mem_replicate hc)
  have haddress : address.toList.reverse.dropWhile (· = '/') = address.toList.reverse := by
    rw [List.dropWhile_eq_self_iff]
    intro hpos hslash
    refine h ?_
    rw [← List.head?_reverse, List.head?_eq_getElem?, List.getElem?_eq_getElem hpos]
    exact congrArg some (of_decide_eq_true hslash)
  simp only [ofAddress, String.toList_append, String.toList_ofList, List.reverse_append, List.reverse_replicate]
  rw [List.dropWhile_append, hslashes]
  simp only [List.isEmpty_nil, if_true, haddress, List.reverse_reverse, String.ofList_toList]

/-! ## Answers that arrive -/

/-- What a client makes of an answer of the service.  A refusal arrives with its status and its wording; where
the service breaks off, nothing arrives. -/
def received : Except ServiceFault α → Except ClientFault α
  | .ok a => .ok a
  | .error f => .error (if f.breaksOff then .transport else .refused f.status f.message)

/-- A call over a line comes to a turn of the service itself: its answer is what a client makes of the answer of
the turn, and it leaves the service as the turn does. -/
structure Call.Refines (call : Call α) (line : Transport Service) (s : Service)
    (direct : Turn Service (Except ServiceFault α)) : Prop where
  answer : (call.run line s).answer = received direct.answer
  state : (call.run line s).state = direct.state

theorem ServiceFault.status_ge (f : ServiceFault) : 400 ≤ f.status := by
  cases f <;> simp [status]

namespace Client

/-- A refusal is read with its status and its wording, whatever the answer would have been. -/
theorem readBody_fault (codec : Codec α) (f : ServiceFault) :
    readBody codec (.fault f.status f.message) = .error (.refused f.status f.message) := by
  have hfailed : ¬(Http.Response.fault f.status f.message).isSuccess = true := by
    intro hsuccess
    have hbelow : f.status < 300 := (of_decide_eq_true hsuccess).2
    have hstatus := f.status_ge
    omega
  have hdecode : Wire.errorResponse.decode (Http.Response.fault f.status f.message).body = .ok f.message :=
    (Wire.carries_single _ _ (Codec.carries_string f.message)).decode
  rw [readBody, if_neg hfailed, failure, hdecode]
  rfl

end Client

namespace Call.Refines

variable {call : Call α} {line : Transport Service} {s : Service}

/-- Where a request is answered by a turn of the service and the response is read as the answer is written, the
call comes to the turn, with its answer as it arrives. -/
theorem of_respond {codec : Codec α} {status : Nat} {direct : Turn Service (Except ServiceFault α)}
    {arrival : α → α} (hstatus : 200 ≤ status ∧ status < 300)
    (hline : line s call.request = Http.respond codec status direct)
    (hread : call.read = Client.readBody codec)
    (hcarries : ∀ a, direct.answer = .ok a → codec.Carries a (arrival a)) :
    call.Refines line s (direct.map (Except.map arrival)) := by
  rw [Http.respond] at hline
  constructor
  · rw [run, hline, hread]
    cases hanswer : direct.answer with
    | ok a =>
      simp only [Turn.map, hanswer, Except.map, received]
      exact Client.readBody_json hstatus (hcarries a hanswer)
    | error f =>
      simp only [Turn.map, hanswer, Except.map, received]
      cases f.breaksOff with
      | true => rfl
      | false => exact Client.readBody_fault codec f
  · rw [run, hline]
    cases direct.answer <;> rfl

/-- The call comes to the turn itself, if the answer arrives as it is. -/
theorem of_respond_same {codec : Codec α} {status : Nat} {direct : Turn Service (Except ServiceFault α)}
    (hstatus : 200 ≤ status ∧ status < 300) (hline : line s call.request = Http.respond codec status direct)
    (hread : call.read = Client.readBody codec)
    (hcarries : ∀ a, direct.answer = .ok a → codec.Carries a a) : call.Refines line s direct := by
  have hmap : direct.map (Except.map id) = direct := by rw [Except.map_id]; rfl
  exact hmap ▸ of_respond hstatus hline hread hcarries

end Call.Refines

/-! ## Numbers that arrive as they are -/

/-- The result, if there is one, arrives as it is. -/
def Report.IsExact (r : Report) : Prop := ∀ x, r.result = some x → Json.IsExact x

/-- Both operands arrive as they are. -/
def Assignment.IsExact (a : Assignment) : Prop := Json.IsExact a.left ∧ Json.IsExact a.right

/-- The result, if there is one, arrives as it is. -/
def ExpressionOf.IsExact {τ : Type} (e : ExpressionOf τ) : Prop := ∀ x, e.result = some x → Json.IsExact x

/-- The results of the expression and of its tasks arrive as they are, as far as there are any. -/
def View.AllExact (v : View) : Prop :=
  v.IsExact ∧ ∀ t ∈ v.tasks, ∀ x, t.result = some x → Json.IsExact x

theorem Wire.carries_assignment_exact {a : Assignment} (h : a.IsExact) : assignment.Carries a a.truncated := by
  have hcarries := carries_assignment h.1.isFinite h.2.isFinite
  rwa [carriedAssignment, h.1.carried_eq, h.2.carried_eq] at hcarries

/-! ## Times that arrive as they are -/

/-- A service compiles with the times and leases by the policy that it started with, and every stored task has the
time of its operation. -/
theorem Service.Reachable.timed {s : Service} (h : s.Reachable) : Timed s.times s.policy s := by
  induction h with
  | start times policy => exact .start times policy
  | @carry s c hs ih =>
    have hlater := ih.carry c
    rwa [← hlater.times_eq, ← hlater.policy_eq] at hlater

/-- With operation times in whole milliseconds, all tasks have such times. -/
theorem Service.Reachable.isWhole_duration {s : Service} (h : s.Reachable)
    (hwhole : ∀ o, (s.times.of o).IsWhole) {id : TaskId} {t : Task} (ht : s.store.task? id = some t) :
    t.duration.IsWhole :=
  h.timed.timed id t ht ▸ hwhole t.operation

/-! ## Calls -/

/-- A service that has a task to hand out and cannot do so finds fault with itself. -/
theorem Service.status_next_of_error {s : Service} {now : Instant} {f : ServiceFault}
    (h : (s.next now).answer = .error f) : f.status = 500 := by
  have hanswer : (s.store.claim .oldest s.policy now).1.mapError ServiceFault.ofStore = .error f := h
  cases hclaim : (s.store.claim .oldest s.policy now).1 with
  | ok a =>
    rw [hclaim] at hanswer
    cases hanswer
  | error fault =>
    rw [hclaim] at hanswer
    obtain rfl := Except.error.inj hanswer
    rcases Store.claim_error hclaim with ⟨id, rfl⟩ | rfl <;> rfl

/-- The tasks of a view are stored. -/
theorem Service.exists_task_of_view {s : Service} {id : ExpressionId} {v : View} (h : s.view id = .ok v)
    {t : Task} (ht : t ∈ v.tasks) : ∃ task, s.store.task? task = some t := by
  unfold view at h
  split at h
  · rename_i v' hview
    obtain rfl := Except.ok.inj h
    obtain ⟨e, -, rfl⟩ := Option.map_eq_some_iff.mp hview
    obtain ⟨task, -, hstored⟩ := List.mem_filterMap.mp ht
    exact ⟨task, hstored⟩
  · cases h

/-- With operation times in whole milliseconds, views lose nothing. -/
theorem Service.Reachable.truncated_view {s : Service} (h : s.Reachable) (hwhole : ∀ o, (s.times.of o).IsWhole)
    {id : ExpressionId} {v : View} (hv : s.view id = .ok v) : v.truncated = v := by
  refine View.truncated_eq_self fun t ht => ?_
  obtain ⟨task, hstored⟩ := exists_task_of_view hv ht
  exact h.isWhole_duration hwhole hstored

/-- Neither do assignments. -/
theorem Service.Reachable.truncated_next {s : Service} (h : s.Reachable) (hwhole : ∀ o, (s.times.of o).IsWhole)
    {now : Instant} {a : Assignment} (ha : (s.next now).answer = .ok (some a)) : a.truncated = a := by
  obtain ⟨t, left, right, -, ht, -, -, -, -, heq, -⟩ := next_spec h.store.sound ha
  have hduration : a.duration = t.duration := by rw [heq]
  exact Assignment.truncated_eq_self (hduration ▸ h.isWhole_duration hwhole ht)

namespace Client

variable (c : Client) {s : Service} (mint : Mint) (now : Instant)

theorem calculate_refines {text : String}
    (hsize : (Wire.calculateRequest.encode text).utf8ByteSize ≤ Http.bodyLimit) :
    (c.calculate text).Refines (c.connection mint now) s (s.add mint now text) := by
  have hbody := (Wire.carries_single "CalculateRequest" "expression" (Codec.carries_string text)).decode
  have hline : c.connection mint now s (c.calculate text).request
      = Http.respond Wire.calculateResponse 201 (s.add mint now text) :=
    (c.connection_target mint _ _ rfl).trans (Http.serve_calculate s mint now hsize hbody)
  exact .of_respond_same (by decide) hline rfl fun id _ =>
    Wire.carries_single _ _ (Wire.carries_expressionId id)

theorem expression_refines (hs : s.Reachable) {id : ExpressionId}
    (h : ∀ v, s.view id = .ok v → v.AllExact) :
    (c.expression id).Refines (c.connection mint now) s (.look s ((s.view id).map View.truncated)) := by
  have hline : c.connection mint now s (c.expression id).request
      = Http.respond Wire.expressionResponse 200 (.look s (s.view id)) :=
    (c.connection_target mint _ _ rfl).trans (Http.serve_expression s mint now id)
  refine .of_respond (by decide) hline rfl fun v hv => Wire.carries_single _ _ ?_
  refine Wire.carries_view (h v hv).1 fun t ht => ?_
  obtain ⟨task, hstored⟩ := Service.exists_task_of_view hv ht
  obtain ⟨hleft, hright⟩ := hs.hasFiniteOperands task t hstored
  exact ⟨hleft, hright, (h v hv).2 t ht⟩

theorem expressions_refines (h : ∀ e ∈ s.list, e.IsExact) :
    c.expressions.Refines (c.connection mint now) s (.look s (.ok s.list)) := by
  have hline : c.connection mint now s c.expressions.request
      = Http.respond Wire.expressionsResponse 200 (.look s (.ok s.list)) :=
    (c.connection_target mint _ _ rfl).trans (Http.serve_expressions s mint now)
  refine .of_respond_same (by decide) hline rfl fun list hlist => Wire.carries_single _ _ ?_
  obtain rfl := Except.ok.inj hlist
  exact Wire.carries_expressions h

/-- That there is no task is an answer. -/
theorem read_nextTask_none (message : String) : c.nextTask.read (.fault 404 message) = .ok none := by
  have hstatus : (Http.Response.fault 404 message).status = 404 := rfl
  simp only [nextTask, if_pos hstatus]

theorem read_nextTask_fault {f : ServiceFault} (h : f.status ≠ 404) :
    c.nextTask.read (.fault f.status f.message) = .error (.refused f.status f.message) := by
  have hstatus : (Http.Response.fault f.status f.message).status ≠ 404 := h
  simp only [nextTask, if_neg hstatus, readBody_fault]
  rfl

/-- That there is no task is told by the status of what is not there, and no refusal has this status. -/
theorem nextTask_refines (h : ∀ a, (s.next now).answer = .ok (some a) → a.IsExact) :
    c.nextTask.Refines (c.connection mint now) s
      ((s.next now).map (Except.map (Option.map Assignment.truncated))) := by
  have hline : c.connection mint now s c.nextTask.request
      = Http.respond Wire.taskResponse 200 (Http.requireTask (s.next now)) :=
    (c.connection_target mint _ _ rfl).trans (Http.serve_nextTask s mint now)
  constructor
  · rw [Call.run, hline]
    cases hanswer : (s.next now).answer with
    | ok found =>
      cases found with
      | none =>
        simp only [Http.requireTask, hanswer, Http.respond, Turn.map, Except.map, Option.map]
        exact c.read_nextTask_none _
      | some a =>
        have hcarries := Wire.carries_assignment_exact (h a hanswer)
        simp only [Http.requireTask, hanswer, Http.respond, Turn.map, Except.map, Option.map]
        exact c.read_nextTask (Wire.carries_single _ _ hcarries)
    | error f =>
      have hfound : f.status ≠ 404 := by
        rw [Service.status_next_of_error hanswer]
        decide
      simp only [Http.requireTask, hanswer, Http.respond, Turn.map, Except.map, received]
      cases f.breaksOff with
      | true => rfl
      | false => exact c.read_nextTask_fault hfound
  · rw [Call.run, hline]
    exact (Http.state_respond _ _ _).trans (Http.state_requireTask _)

theorem report_refines {r : Report} (h : r.IsExact)
    (hsize : (Wire.report.encode r).utf8ByteSize ≤ Http.bodyLimit) :
    (c.report r).Refines (c.connection mint now) s (s.report now r) := by
  have hbody := (Wire.carries_report (Codec.carries_exact_option h) id).decode
  have hline : c.connection mint now s (c.report r).request
      = Http.respond Wire.resultResponse 200 (s.report now r) :=
    (c.connection_target mint _ _ rfl).trans (Http.serve_taskResult s mint now hsize hbody)
  exact .of_respond_same (by decide) hline rfl fun status _ =>
    Wire.carries_single _ _ (Wire.carries_expressionStatus status)

end Client

/-! ## The client and the service -/

namespace Service

/-- **A client answers as the service itself does.**  The service comes of calls, and the address of the client
is the address of the server with any number of slashes behind it.  Then each call of the client comes to the
direct call, with the same service behind it and the same answer, up to the times of tasks: texts and reports as
long as they fit into a body, and whatever is answered as long as the doubles in it arrive as they are.  Of a time
the whole milliseconds arrive, counted in 64 bits.  So nothing is missing from the answers of a service that compiles
with whole milliseconds. -/
theorem Reachable.remote {s : Service} (hs : s.Reachable) {address : String}
    (haddress : address.toList.getLast? ≠ some '/') (slashes : Nat) (mint : Mint) (now : Instant) :
    let c := Client.ofAddress (address ++ .ofList (List.replicate slashes '/'))
    let line := Transport.toServer address fun s r => Http.serve s mint now r
    (∀ text, (Wire.calculateRequest.encode text).utf8ByteSize ≤ Http.bodyLimit →
      (c.calculate text).Refines line s (s.add mint now text)) ∧
    (∀ id, (∀ v, s.view id = .ok v → v.AllExact) →
      (c.expression id).Refines line s (.look s ((s.view id).map View.truncated))) ∧
    ((∀ e ∈ s.list, e.IsExact) → c.expressions.Refines line s (.look s (.ok s.list))) ∧
    ((∀ a, (s.next now).answer = .ok (some a) → a.IsExact) →
      c.nextTask.Refines line s ((s.next now).map (Except.map (Option.map Assignment.truncated)))) ∧
    (∀ r : Report, r.IsExact → (Wire.report.encode r).utf8ByteSize ≤ Http.bodyLimit →
      (c.report r).Refines line s (s.report now r)) ∧
    (∀ d : Span, d.truncated.nanos = d.nanos / 1000000 % 2 ^ 64 * 1000000) ∧
    ((∀ o, (s.times.of o).IsWhole) → (∀ id v, s.view id = .ok v → v.truncated = v) ∧
      ∀ a, (s.next now).answer = .ok (some a) → a.truncated = a) := by
  intro c line
  have hline : line = c.connection mint now := by
    rw [Client.connection, Client.base_ofAddress haddress slashes]
  rw [hline]
  exact ⟨fun text hsize => c.calculate_refines mint now hsize,
    fun id h => c.expression_refines mint now hs h,
    fun h => c.expressions_refines mint now h,
    fun h => c.nextTask_refines mint now h,
    fun r h hsize => c.report_refines mint now h hsize,
    Span.nanos_truncated,
    fun hwhole => ⟨fun _ _ hv => hs.truncated_view hwhole hv, fun _ ha => hs.truncated_next hwhole ha⟩⟩

/-- A task is handed out over the line with its tenths as they are, and told of as done; a text that ends too
early and an expression that nobody knows are refused with status and wording. -/
theorem remote_tenths :
    let address := "http://127.0.0.1:8080"
    let c := Client.ofAddress (address ++ .ofList (List.replicate 2 '/'))
    let mint : Mint := ⟨⟨0⟩, fun n => ⟨.ofNat 128 (n + 1)⟩⟩
    let s := ((start .standard .standard).carry (.add mint .epoch "0.1+0.2")).2
    let line := Transport.toServer address fun s r => Http.serve s mint .epoch r
    let told := (c.report (.ofOutcome ⟨1⟩ (.completed 0.3))).run line s
    (c.nextTask.run line s).answer = .ok (some ⟨⟨1⟩, ⟨0⟩, .add, 0.1, 0.2, .ofMillis 1000⟩) ∧
      (c.nextTask.run line s).state = (s.next .epoch).state ∧
      told.answer = .ok .completed ∧
      told.state = (s.report .epoch (.ofOutcome ⟨1⟩ (.completed 0.3))).state ∧
      (c.expressions.run line s).answer = .ok s.list ∧
      ((c.calculate "1+").run line s).answer = .error (.refused 422 CompileFault.values.message) ∧
      ((c.expression ⟨8⟩).run line s).answer
        = .error (.refused 404 "not found: expression 00000000000000000000000008") := by
  intro address c mint s line told
  have hs : s.Reachable := .carry (.add mint .epoch "0.1+0.2") (.start .standard .standard)
  obtain ⟨hcalculate, hexpression, hexpressions, hnext, hreport, -, hwhole⟩ :=
    hs.remote (show address.toList.getLast? ≠ some '/' by decide +kernel) 2 mint .epoch
  have hhanded : (s.next .epoch).answer = .ok (some ⟨⟨1⟩, ⟨0⟩, .add, 0.1, 0.2, .ofMillis 1000⟩) := by
    decide +kernel
  have hreported : (s.report .epoch (.ofOutcome ⟨1⟩ (.completed 0.3))).answer = .ok .completed := by
    decide +kernel
  have hrefused : (s.add mint .epoch "1+").answer = .error (.compile .values) := by decide +kernel
  have hmissing : s.store.expression? ⟨8⟩ = none := by decide +kernel
  have hunknown : s.view ⟨8⟩ = .error (.unknownExpression ⟨8⟩) := by
    rw [view, Store.view?, hmissing]
    rfl
  have hpending : s.list.map ExpressionOf.result = [none] := by decide +kernel
  have htold := hreport (.ofOutcome ⟨1⟩ (.completed 0.3))
    (by
      rintro x ⟨⟩
      unfold Json.IsExact
      decide +kernel)
    (by decide +kernel)
  have hfetched := hnext (by
    intro a ha
    obtain rfl := Option.some.inj (Except.ok.inj (hhanded.symm.trans ha))
    unfold Assignment.IsExact Json.IsExact
    decide +kernel)
  have hlisted := hexpressions (by
    intro e he x hx
    have hnone : e.result = none := by
      have hmem := List.mem_map_of_mem (f := ExpressionOf.result) he
      rw [hpending] at hmem
      exact List.mem_singleton.mp hmem
    exact absurd (hnone.symm.trans hx) (by simp))
  have htimes : s.times = .standard := ((Timed.start _ _).carry (.add mint .epoch "0.1+0.2")).times_eq
  have hkept := (hwhole (fun o => htimes ▸ by cases o <;> exact Span.isWhole_ofMillis 1000)).2 _ hhanded
  refine ⟨?_, hfetched.state,
    htold.answer.trans (by rw [hreported]; rfl), htold.state, hlisted.answer, ?_, ?_⟩
  · rw [hfetched.answer]
    show received (Except.map (Option.map Assignment.truncated) (s.next .epoch).answer) = _
    rw [hhanded]
    exact congrArg (fun a => Except.ok (some a)) hkept
  · rw [(hcalculate "1+" (by decide +kernel)).answer, hrefused]
    rfl
  · rw [(hexpression ⟨8⟩ fun v hv => absurd (hunknown.symm.trans hv) (by simp)).answer]
    show received (Except.map View.truncated (s.view ⟨8⟩)) = _
    rw [hunknown]
    rfl

/-- With operations of a millisecond and a half, the client is told of a millisecond: the answer of the direct call
does not arrive as it is. -/
theorem remote_not_whole :
    let address := "http://127.0.0.1:8080"
    let c := Client.ofAddress address
    let mint : Mint := ⟨⟨0⟩, fun n => ⟨.ofNat 128 (n + 1)⟩⟩
    let s := ((start (.uniform (.ofNanos 1500000)) .standard).carry (.add mint .epoch "1+1")).2
    let line := Transport.toServer address fun s r => Http.serve s mint .epoch r
    s.Reachable ∧
      (s.next .epoch).answer = .ok (some ⟨⟨1⟩, ⟨0⟩, .add, 1, 1, .ofNanos 1500000⟩) ∧
      (c.nextTask.run line s).answer = .ok (some ⟨⟨1⟩, ⟨0⟩, .add, 1, 1, .ofMillis 1⟩) ∧
      ¬c.nextTask.Refines line s (s.next .epoch) := by
  intro address c mint s line
  have hhanded : (s.next .epoch).answer = .ok (some ⟨⟨1⟩, ⟨0⟩, .add, 1, 1, .ofNanos 1500000⟩) := by
    decide +kernel
  have hexact : ∀ a, (s.next .epoch).answer = .ok (some a) → a.IsExact := by
    intro a ha
    obtain rfl := Option.some.inj (Except.ok.inj (hhanded.symm.trans ha))
    unfold Assignment.IsExact Json.IsExact
    decide +kernel
  have hline : line = c.connection mint .epoch := by
    rw [Client.connection, show c.base = address by decide +kernel]
  have hfetched := c.nextTask_refines mint .epoch hexact
  rw [← hline] at hfetched
  have harrived : (c.nextTask.run line s).answer = .ok (some ⟨⟨1⟩, ⟨0⟩, .add, 1, 1, .ofMillis 1⟩) := by
    rw [hfetched.answer]
    show received (Except.map (Option.map Assignment.truncated) (s.next .epoch).answer) = _
    rw [hhanded]
    rfl
  refine ⟨.carry (.add mint .epoch "1+1") (.start _ _), hhanded, harrived, fun hsame => ?_⟩
  have heq := harrived.symm.trans (hsame.answer.trans (congrArg received hhanded))
  exact absurd (congrArg Assignment.duration (Option.some.inj (Except.ok.inj heq))) (by decide)

end Service

end Piecework
