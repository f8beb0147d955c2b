/-
# Piecework.Proofs.Server — what a request does to the service.

A request passes many places where it can be refused: its path, its method, the announcement, the length and
the text of its body, the compiler, the identities in it, the state of a task.  Each place either looks only,
or asks the service for one thing; and the service is as it was unless it answers with something.  So whatever
is not answered with success has not happened (`Http.onlySuccessChanges_serve`).

A report passes four of these places in turn: whether it makes sense, whether its task is known, whether that
has ended, and then it is taken (`Http.report_cases`).  The first comes before the service looks for the
task.
-/
import Piecework.Proofs.Http.Route
import Piecework.Proofs.Store.Run
import Piecework.Proofs.Submission

namespace Piecework

/-! ## What the service refuses -/

namespace Service

variable {s : Service}

/-- An expression that is refused, for whatever reason, leaves no trace. -/
theorem state_add_of_error {mint : Mint} {now : Instant} {text : String} {f : ServiceFault}
    (h : (s.add mint now text).answer = .error f) : (s.add mint now text).state = s := by
  unfold add at h ⊢
  dsimp only at h ⊢
  cases htext : Plan.ofText (s.setting mint now) text with
  | error fault => rfl
  | ok tasks =>
    simp only [htext] at h
    rcases s.store.put_cases (.fresh mint.expression text (tasks.map Task.id) now) tasks with
      ⟨fault, hput⟩ | ⟨-, hput⟩
    · simp only [hput]
    · simp only [hput] at h
      exact absurd h (by simp)

/-- Whoever asks for a task and gets none leaves no trace. -/
theorem state_next_of_none {now : Instant} (h : ∀ a, (s.next now).answer ≠ .ok (some a)) :
    (s.next now).state = s := by
  unfold next at h ⊢
  dsimp only at h ⊢
  rcases s.store.claim_cases .oldest s.policy now with
    ⟨answer, hclaim, -⟩ | ⟨t, a, deadline, -, -, -, hclaim⟩
  · rw [hclaim]
  · rw [hclaim] at h
    exact absurd rfl (h a)

/-- A report that is refused leaves no trace. -/
theorem state_report_of_error (hs : s.store.Sound) {now : Instant} {r : Report} {f : ServiceFault}
    (h : (s.report now r).answer = .error f) : (s.report now r).state = s := by
  unfold report at h ⊢
  cases hr : r.outcome with
  | error fault => rfl
  | ok o =>
    simp only [hr] at h
    rcases Store.report_cases hs r.task o now with ⟨fault, hreport⟩ | ⟨t, status, -, -, hreport⟩
    · simp only [hreport]
    · rw [hreport] at h
      exact absurd h (by simp [Except.mapError])

end Service

/-! ## Reports that make no sense -/

namespace Report

/-- The report tells that its task is completed, and does not tell with which result. -/
def IsIncomplete (report : Report) : Prop := report.status = .completed ∧ report.result = none

theorem outcome_of_incomplete {report : Report} (h : report.IsIncomplete) :
    report.outcome = .error ⟨report.task⟩ := by
  obtain ⟨hstatus, hresult⟩ := h
  simp only [outcome, hstatus, hresult]

theorem exists_outcome {report : Report} (h : ¬report.IsIncomplete) : ∃ o, report.outcome = .ok o := by
  unfold outcome
  cases hstatus : report.status with
  | failed => exact ⟨_, rfl⟩
  | completed =>
    cases hresult : report.result with
    | none => exact absurd ⟨hstatus, hresult⟩ h
    | some value => exact ⟨_, rfl⟩

end Report

namespace Http

open Json (Codec)

variable {s : Service} {r : Request} {α : Type}

/-! ## Places that look, and places that ask -/

/-- The turn comes of one call to the service at most. -/
def IsCall (s : Service) (turn : Turn Service (Option Response)) : Prop :=
  turn.state = s ∨ ∃ c, turn.state = (s.carry c).2

/-- Only an answer with success comes with a change: otherwise the service is as it was. -/
def OnlySuccessChanges (s : Service) (turn : Turn Service (Option Response)) : Prop :=
  (∀ response, turn.answer = some response → response.isSuccess = false) → turn.state = s

theorem isCall_look (answer : Option Response) : IsCall s (.look s answer) := Or.inl rfl

theorem onlySuccessChanges_look (answer : Option Response) : OnlySuccessChanges s (.look s answer) :=
  fun _ => rfl

theorem state_respond (c : Codec α) (status : Nat) (t : Turn Service (Except ServiceFault α)) :
    (respond c status t).state = t.state := by
  unfold respond
  cases t.answer <;> rfl

/-- An answer of the service is a success, so it is enough that a refusal leaves no trace. -/
theorem onlySuccessChanges_respond {c : Codec α} {status : Nat} (hstatus : 200 ≤ status ∧ status < 300)
    {t : Turn Service (Except ServiceFault α)} (h : ∀ f, t.answer = .error f → t.state = s) :
    OnlySuccessChanges s (respond c status t) := by
  intro hfailed
  rw [state_respond]
  cases hanswer : t.answer with
  | error f => exact h f hanswer
  | ok a =>
    have hsuccess : (Response.json status (c.encode a)).isSuccess = true :=
      decide_eq_true hstatus
    have hresponse : (respond c status t).answer = some (.json status (c.encode a)) := by
      simp only [respond, hanswer]
    exact absurd (hfailed _ hresponse) (by simp [hsuccess])

theorem isCall_withBody (c : Codec α) {run : α → Turn Service (Option Response)}
    (h : ∀ a, IsCall s (run a)) : IsCall s (withBody s r c run) := by
  unfold withBody
  cases r.value c with
  | ok a => exact h a
  | error f => exact isCall_look _

theorem onlySuccessChanges_withBody (c : Codec α) {run : α → Turn Service (Option Response)}
    (h : ∀ a, OnlySuccessChanges s (run a)) : OnlySuccessChanges s (withBody s r c run) := by
  unfold withBody
  cases r.value c with
  | ok a => exact h a
  | error f => exact onlySuccessChanges_look _

theorem state_requireTask (t : Turn Service (Except ServiceFault (Option Assignment))) :
    (requireTask t).state = t.state := by
  unfold requireTask
  rcases t.answer with f | a | a <;> rfl

/-- That there is no task is a refusal like any other. -/
theorem requireTask_error {t : Turn Service (Except ServiceFault (Option Assignment))} {f : ServiceFault}
    (h : (requireTask t).answer = .error f) (a : Assignment) : t.answer ≠ .ok (some a) := by
  intro ha
  simp only [requireTask, ha] at h
  exact absurd h (by simp)

/-! ## Routes -/

theorem isCall_showExpression (segment : List Char) : IsCall s (showExpression s segment) := by
  unfold showExpression
  cases decodeSegment segment with
  | none => exact isCall_look _
  | some text => exact Or.inl (state_respond _ _ _)

theorem onlySuccessChanges_showExpression (segment : List Char) :
    OnlySuccessChanges s (showExpression s segment) := by
  unfold showExpression
  cases decodeSegment segment with
  | none => exact onlySuccessChanges_look _
  | some text => exact onlySuccessChanges_respond (by decide) fun _ _ => rfl

/-- Every route asks the service for one thing at most. -/
theorem Route.isCall_run (mint : Mint) (now : Instant) (route : Route) :
    IsCall s (route.run s mint now r) := by
  cases route with
  | health => exact isCall_look _
  | calculate =>
    refine isCall_withBody _ fun text => Or.inr ⟨.add mint now text, ?_⟩
    exact state_respond _ _ _
  | expressions => exact Or.inl (state_respond _ _ _)
  | expression segment => exact isCall_showExpression segment
  | nextTask =>
    exact Or.inr ⟨.next now, (state_respond _ _ _).trans (state_requireTask _)⟩
  | taskResult =>
    refine isCall_withBody _ fun report => Or.inr ⟨.report now report, ?_⟩
    exact state_respond _ _ _

theorem Route.onlySuccessChanges_run (hs : s.store.Sound) (mint : Mint) (now : Instant) (route : Route) :
    OnlySuccessChanges s (route.run s mint now r) := by
  cases route with
  | health => exact onlySuccessChanges_look _
  | calculate =>
    exact onlySuccessChanges_withBody _ fun text =>
      onlySuccessChanges_respond (by decide) fun f hf => Service.state_add_of_error hf
  | expressions => exact onlySuccessChanges_respond (by decide) fun _ _ => rfl
  | expression segment => exact onlySuccessChanges_showExpression segment
  | nextTask =>
    refine onlySuccessChanges_respond (by decide) fun f hf => ?_
    rw [state_requireTask]
    exact Service.state_next_of_none (requireTask_error hf)
  | taskResult =>
    exact onlySuccessChanges_withBody _ fun report =>
      onlySuccessChanges_respond (by decide) fun f hf => Service.state_report_of_error hs hf

/-! ## Requests -/

/-- A request is refused on the way, or carried out on its route. -/
theorem serve_cases (s : Service) (mint : Mint) (now : Instant) (r : Request) :
    (∃ answer, serve s mint now r = .look s answer) ∨
      ∃ route, r.method ∈ Route.methods route ∧ Route.ofPath? r.path = some route ∧
        (serve s mint now r = route.run s mint now r ∨
          serve s mint now r = (route.run s mint now r).map (Option.map Response.withoutBody)) := by
  unfold serve
  dsimp only
  by_cases hoptions : r.method = "OPTIONS"
  · exact Or.inl ⟨_, if_pos hoptions⟩
  · rw [if_neg hoptions]
    cases hroute : Route.ofPath? r.path with
    | none => exact Or.inl ⟨_, rfl⟩
    | some route =>
      dsimp only
      by_cases hmethod : r.method ∈ route.methods
      · rw [if_neg (not_not_intro hmethod)]
        refine Or.inr ⟨route, hmethod, rfl, ?_⟩
        by_cases hhead : r.method = "HEAD"
        · exact Or.inr (if_pos hhead)
        · exact Or.inl (if_neg hhead)
      · exact Or.inl ⟨_, if_pos hmethod⟩

theorem isCall_serve (s : Service) (mint : Mint) (now : Instant) (r : Request) :
    IsCall s (serve s mint now r) := by
  rcases serve_cases s mint now r with ⟨answer, hserve⟩ | ⟨route, -, -, hserve | hserve⟩ <;> rw [hserve]
  · exact isCall_look _
  · exact route.isCall_run mint now
  · exact route.isCall_run mint now

theorem onlySuccessChanges_serve (hs : s.store.Sound) (mint : Mint) (now : Instant) (r : Request) :
    OnlySuccessChanges s (serve s mint now r) := by
  rcases serve_cases s mint now r with ⟨answer, hserve⟩ | ⟨route, -, -, hserve | hserve⟩ <;> rw [hserve]
  · exact onlySuccessChanges_look _
  · exact route.onlySuccessChanges_run hs mint now
  · intro hfailed
    refine route.onlySuccessChanges_run hs mint now fun response hresponse => ?_
    -- Without its body a response has the status that it had.
    exact hfailed response.withoutBody (congrArg (Option.map Response.withoutBody) hresponse)

/-! ## Reports -/

/-- Where a report goes: it makes no sense, its task is not known, its task has ended, or it is taken and the
owner of the task is told of.  These are looked at in this order. -/
theorem report_cases (hs : s.store.Sound) (now : Instant) (report : Report) :
    let turn := respond Wire.resultResponse 200 (s.report now report)
    (report.IsIncomplete ∧ turn.answer = some (.fault 422 (ReportFault.mk report.task).message)) ∨
      (¬report.IsIncomplete ∧ s.store.task? report.task = none ∧
        turn.answer = some (.fault 404 ("not found: task " ++ report.task.text))) ∨
      (¬report.IsIncomplete ∧ ∃ t, s.store.task? report.task = some t ∧ t.status.isTerminal = true ∧
        turn.answer = some (.fault 409 ("conflict: " ++ (TransitionFault.mk report.task t.status).message))) ∨
      (¬report.IsIncomplete ∧ ∃ t o e, s.store.task? report.task = some t ∧ t.status.isTerminal = false ∧
        report.outcome = .ok o ∧ turn.state.store.task? report.task = some (t.ended o) ∧
        turn.state.store.expression? t.owner = some e ∧
        turn.answer = some (.json 200 (Wire.resultResponse.encode e.status))) := by
  intro turn
  by_cases hincomplete : report.IsIncomplete
  · refine Or.inl ⟨hincomplete, ?_⟩
    have hreport : s.report now report = .look s (.error (.invalidReport ⟨report.task⟩)) := by
      simp only [Service.report, report.outcome_of_incomplete hincomplete]
    show (respond _ _ (s.report now report)).answer = _
    rw [hreport]
    rfl
  · obtain ⟨o, ho⟩ := report.exists_outcome hincomplete
    have hreport : s.report now report
        = ⟨(s.store.report report.task o now).1.mapError .ofStore,
          { s with store := (s.store.report report.task o now).2 },
          Store.journalReport s.store (s.store.report report.task o now).2 report.task
            (s.store.report report.task o now).1⟩ := by
      simp only [Service.report, ho]
    refine Or.inr ?_
    show (_ ∧ _ ∧ (respond _ _ (s.report now report)).answer = _) ∨ _
    cases ht : s.store.task? report.task with
    | none =>
      have htaken : s.store.report report.task o now = (.error (.unknownTask report.task), s.store) := by
        rw [Store.report, ht]
      refine Or.inl ⟨hincomplete, rfl, ?_⟩
      rw [hreport, htaken]
      rfl
    | some t =>
      refine Or.inr ?_
      cases hterm : t.status.isTerminal with
      | true =>
        have htaken := Store.report_of_isTerminal hs ht hterm o now
        refine Or.inl ⟨hincomplete, t, rfl, hterm, ?_⟩
        show (respond _ _ (s.report now report)).answer = _
        rw [hreport, htaken]
        rfl
      | false =>
        obtain ⟨-, e, htaken, he⟩ := Store.report_of_open hs o now ht hterm
        have hid := hs.task_id ht
        obtain ⟨-, -, -, -, -, hended, -⟩ := Store.finish_spec hs o now (hid.symm ▸ ht)
        have hstate : turn.state.store = (Store.Change.finish t o now).apply s.store := by
          show (respond _ _ (s.report now report)).state.store = _
          rw [state_respond, hreport, htaken]
        refine Or.inr ⟨hincomplete, t, o, e, rfl, hterm, ho, ?_, hstate ▸ he, ?_⟩
        · rw [hstate, hended, if_pos hid.symm]
        · show (respond _ _ (s.report now report)).answer = _
          rw [hreport, htaken]
          rfl

end Http

/-! ## What a request does -/

namespace Service

variable {s : Service}

/-- A request is one call to the service at most. -/
theorem Reachable.serve (h : Reachable s) (mint : Mint) (now : Instant) (r : Http.Request) :
    Reachable (Http.serve s mint now r).state := by
  rcases Http.isCall_serve s mint now r with hstate | ⟨c, hstate⟩ <;> rw [hstate]
  · exact h
  · exact .carry c h

/-- **What is not answered with success has not happened, and reports are answered by the state.**  Whatever is
requested of a service that comes of calls: without a response, or with a response that tells of no success,
everything stored is as it was.  A report that can be read has a response: 422 if it tells of completion
without a result, whatever task it names; else 404 if the task is not known; else 409 if it has ended; and
else 200: then the service is as the report leaves it, the task has ended as the report says, and the response
tells the status of its expression as it is now. -/
theorem Reachable.request (h : Reachable s) (mint : Mint) (now : Instant) (r : Http.Request) :
    let turn := Http.serve s mint now r
    ((∀ response, turn.answer = some response → response.isSuccess = false) → turn.state = s) ∧
      ∀ report, r.method = "POST" → r.path = "/internal/task/result".toList →
        r.value Wire.report = .ok report →
          ∃ response, turn.answer = some response ∧
            (response.status = 422 ↔ report.IsIncomplete) ∧
            (response.status = 404 ↔ ¬report.IsIncomplete ∧ s.store.task? report.task = none) ∧
            (response.status = 409 ↔ ¬report.IsIncomplete ∧
              ∃ t, s.store.task? report.task = some t ∧ t.status.isTerminal = true) ∧
            (response.status = 200 ↔ ¬report.IsIncomplete ∧
              ∃ t, s.store.task? report.task = some t ∧ t.status.isTerminal = false) ∧
            (response.status = 200 → turn.state = (s.report now report).state ∧
              ∃ t o e, s.store.task? report.task = some t ∧ report.outcome = .ok o ∧
              turn.state.store.task? report.task = some (t.ended o) ∧
              turn.state.store.expression? t.owner = some e ∧
              response = .json 200 (Wire.resultResponse.encode e.status)) := by
  intro turn
  have hs := h.store.sound
  refine ⟨Http.onlySuccessChanges_serve hs mint now r, ?_⟩
  intro report hmethod hpath hvalue
  have hserve : turn = Http.respond Wire.resultResponse 200 (s.report now report) :=
    Http.serve_report s mint now hmethod hpath hvalue
  rw [hserve]
  rcases Http.report_cases hs now report with ⟨hbad, hanswer⟩ | ⟨hgood, ht, hanswer⟩ |
    ⟨hgood, t, ht, hterm, hanswer⟩ | ⟨hgood, t, o, e, ht, hterm, ho, hended, he, hanswer⟩
  all_goals refine ⟨_, hanswer, ?_⟩
  · simp [Http.Response.fault, Http.Response.json, hbad]
  · simp [Http.Response.fault, Http.Response.json, hgood, ht]
  · simp [Http.Response.fault, Http.Response.json, hgood, ht, hterm]
  · refine ⟨?_, ?_, ?_, ?_, fun _ => ⟨Http.state_respond _ _ _, t, o, e, ht, ho, hended, he, rfl⟩⟩
    all_goals simp [Http.Response.json, hgood, ht, hterm]

/-- A report of completion without a result is refused before anybody finds that there is no such task; one with
a result completes the expression. -/
theorem request_incomplete :
    let mint : Mint := ⟨⟨0⟩, fun n => ⟨.ofNat 128 (n + 1)⟩⟩
    let s := ((Service.start .standard .standard).carry (.add mint .epoch "1+1")).2
    let incomplete := Wire.report.encode ⟨⟨9⟩, .completed, none, none⟩
    let complete := Wire.report.encode (.ofOutcome ⟨1⟩ (.completed 2))
    (∃ response, (Http.serve s mint .epoch (.post "/internal/task/result" incomplete)).answer = some response ∧
        response.status = 422) ∧
      (Http.serve s mint .epoch (.post "/internal/task/result" incomplete)).state = s ∧
      ∃ response, (Http.serve s mint .epoch (.post "/internal/task/result" complete)).answer = some response ∧
        response.status = 200 := by
  intro mint s incomplete complete
  have hs : Reachable s := .carry (.add mint .epoch "1+1") (.start .standard .standard)
  obtain ⟨hkept, hreport⟩ := hs.request mint .epoch (.post "/internal/task/result" incomplete)
  obtain ⟨response, hanswer, hincomplete, -⟩ := hreport ⟨⟨9⟩, .completed, none, none⟩ rfl
    (by decide +kernel) (by decide +kernel)
  have hstatus : response.status = 422 := hincomplete.mpr ⟨rfl, rfl⟩
  obtain ⟨-, htaken⟩ := hs.request mint .epoch (.post "/internal/task/result" complete)
  obtain ⟨told, htold, -, -, -, hok, -⟩ := htaken (.ofOutcome ⟨1⟩ (.completed 2)) rfl
    (by decide +kernel) (by decide +kernel)
  have hstored : (s.store.task? ⟨1⟩).map (fun t => t.status.isTerminal) = some false := by decide +kernel
  obtain ⟨t, ht, hopen⟩ := Option.map_eq_some_iff.mp hstored
  refine ⟨⟨response, hanswer, hstatus⟩, hkept ?_, told, htold, hok.mpr ⟨?_, t, ht, hopen⟩⟩
  · intro other hother
    obtain rfl := Option.some.inj (hanswer.symm.trans hother)
    simp [Http.Response.isSuccess, hstatus]
  · rintro ⟨-, hnone⟩
    exact absurd hnone (by simp [Report.ofOutcome])

end Service

end Piecework
