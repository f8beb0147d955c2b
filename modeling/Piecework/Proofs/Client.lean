/-
# Piecework.Proofs.Client — what passes between a client and the service at its address.

A call comes to what the service itself is asked, with a text on the way there and a text on the way back.
All that a task or a report holds is carried through these texts unchanged, except its doubles and its time:
doubles arrive as `Json.carried` says, which is near them and not always at them (`Client.exchange`), and of a time
arrive the whole milliseconds.
-/
import Piecework.Client
import Piecework.Proofs.Http.Route
import Piecework.Proofs.Json.Size
import Piecework.Proofs.Store.Reachable
import Piecework.Proofs.Wire.Records

namespace Piecework

open Number (isFinite double infinityBits)
open Json (Codec carried IsShort)
open Wire (carriedAssignment)

/-! ## Reports as bodies -/

namespace Wire

/-- The report of a finite result is short. -/
theorem length_write_report_le (task : TaskId) {value : Float} (h : isFinite value = true) :
    (report.write (.ofOutcome task (.completed value))).length ≤ 1000 := by
  have hrecord : (report.write (.ofOutcome task (.completed value))).length
      ≤ ([Json.writeString "id".toList ++ ':' :: Json.writeString task.text.toList,
        Json.writeString "status".toList ++ ':' :: Json.writeString "completed".toList,
        Json.writeString "result".toList ++ ':' :: Json.writeFloat value].map
          fun field => field.length + 1).sum + 2 :=
    Codec.length_record_le _ _ _ _ _
  have hwords : (Json.writeString "id".toList).length = 4 ∧ (Json.writeString "status".toList).length = 8 ∧
      (Json.writeString "completed".toList).length = 11 ∧ (Json.writeString "result".toList).length = 8 := by
    decide
  have hid := Json.length_writeString_le task.text.toList
  rw [task.length_text, Ident.textLength] at hid
  have hvalue := Json.length_writeFloat_le h
  simp only [List.map_cons, List.map_nil, List.sum_cons, List.sum_nil, List.length_append,
    List.length_cons, hwords] at hrecord
  omega

/-- So it fits into a body. -/
theorem utf8ByteSize_report_le (task : TaskId) {value : Float} (h : isFinite value = true) :
    (report.encode (.ofOutcome task (.completed value))).utf8ByteSize ≤ Http.bodyLimit :=
  calc (report.encode (.ofOutcome task (.completed value))).utf8ByteSize
      ≤ 4 * (report.write (.ofOutcome task (.completed value))).length :=
        report.utf8ByteSize_encode_le _
    _ ≤ 4 * 1000 := Nat.mul_le_mul_left 4 (length_write_report_le task h)
    _ ≤ Http.bodyLimit := by decide

end Wire

/-! ## Addresses -/

/-- A server at an address is asked for what stands behind the address. -/
theorem Transport.toServer_append {σ : Type} (address path : String) (serve : Transport σ) (s : σ)
    (r : Http.Request) (h : r.target = address ++ path) :
    toServer address serve s r = serve s { r with target := path } := by
  have hprefix : address.toList.isPrefixOf (address ++ path).toList = true := by
    rw [String.toList_append, List.isPrefixOf_iff_prefix]
    exact List.prefix_append _ _
  have hrest : String.ofList ((address ++ path).toList.drop address.length) = path := by
    rw [String.toList_append, ← String.length_toList, List.drop_left, String.ofList_toList]
  rw [toServer, h, if_pos hprefix, hrest]

/-! ## Results that are recorded -/

/-- The result of a task that has not ended is accepted and recorded. -/
theorem Service.exists_report_completed {s : Service} (hs : s.store.Sound) {id : TaskId} {t : Task}
    (ht : s.store.task? id = some t) (hopen : t.status.isTerminal = false) (value : Float) (now : Instant) :
    ∃ status, (s.report now (.ofOutcome id (.completed value))).answer = .ok status ∧
      (s.report now (.ofOutcome id (.completed value))).state.store.task? id
        = some (t.ended (.completed value)) := by
  obtain rfl := hs.task_id ht
  obtain ⟨-, e, hreport, -⟩ := Store.report_of_open hs (.completed value) now ht hopen
  obtain ⟨-, -, -, -, -, htask, -⟩ := Store.finish_spec hs (.completed value) now ht
  have hstored := htask t.id
  rw [if_pos rfl] at hstored
  have htaskOf : (Report.ofOutcome t.id (.completed value)).task = t.id := rfl
  refine ⟨e.status, ?_, ?_⟩
  · simp only [report, Report.outcome_ofOutcome, htaskOf, hreport]
    rfl
  · simp only [report, Report.outcome_ofOutcome, htaskOf, hreport]
    exact hstored

/-! ## Calls to a service -/

namespace Client

/-- The line from a client to the service at its address. -/
def connection (c : Client) (mint : Mint) (now : Instant) : Transport Service :=
  .toServer c.base fun s r => Http.serve s mint now r

/-- What a service answers with success is read as what its codec carries it as. -/
theorem readBody_json {codec : Codec α} {a b : α} {status : Nat} (hstatus : 200 ≤ status ∧ status < 300)
    (h : codec.Carries a b) : readBody codec (.json status (codec.encode a)) = .ok b := by
  have hsuccess : (Http.Response.json status (codec.encode a)).isSuccess = true := decide_eq_true hstatus
  have hdecode : codec.decode (Http.Response.json status (codec.encode a)).body = .ok b := h.decode
  rw [readBody, if_pos hsuccess, hdecode]
  rfl

section Calls

variable (c : Client) {s : Service} (mint : Mint) {now : Instant}

/-- What a client requests comes to the service at its address. -/
theorem connection_target (path : String) (r : Http.Request) (h : r.target = c.target path) :
    c.connection mint now s r = Http.serve s mint now { r with target := path } :=
  Transport.toServer_append c.base path _ s r h

theorem read_nextTask {a b : Assignment} (h : Wire.taskResponse.Carries a b) :
    c.nextTask.read (.json 200 (Wire.taskResponse.encode a)) = .ok (some b) := by
  have hfound : (Http.Response.json 200 (Wire.taskResponse.encode a)).status ≠ 404 :=
    show 200 ≠ 404 by decide
  have hread : readBody Wire.taskResponse (.json 200 (Wire.taskResponse.encode a)) = .ok b :=
    readBody_json (by decide) h
  simp only [nextTask, if_neg hfound, hread]
  rfl

theorem read_report (r : Report) {status : ExpressionStatus} (h : Wire.resultResponse.Carries status status) :
    (c.report r).read (.json 200 (Wire.resultResponse.encode status)) = .ok status := by
  simp only [report]
  exact readBody_json (by decide) h

/-- **An assignment is handed out** with its operands carried and its time truncated. -/
theorem nextTask_run {a : Assignment} (h : (s.next now).answer = .ok (some a))
    (hleft : isFinite a.left = true) (hright : isFinite a.right = true) :
    c.nextTask.run (c.connection mint now) s
      = ⟨.ok (some (carriedAssignment a)), (s.next now).state,
        (s.next now).journal ++ [.debug "leased task"]⟩ := by
  have hline : c.connection mint now s c.nextTask.request = Http.serve s mint now (.get "/internal/task") :=
    c.connection_target mint "/internal/task" _ rfl
  have hread := c.read_nextTask (Wire.carries_single _ _ (Wire.carries_assignment hleft hright))
  simp only [Call.run, hline, Http.serve_nextTask, Http.requireTask, h, Http.respond, Turn.map]
  rw [← hread]

/-- **A finite result is taken** as what it is carried as. -/
theorem report_run (id : TaskId) {value : Float} (h : isFinite value = true) {status : ExpressionStatus}
    (hreport : (s.report now (.ofOutcome id (.completed (carried value)))).answer = .ok status) :
    (c.report (.ofOutcome id (.completed value))).run (c.connection mint now) s
      = (s.report now (.ofOutcome id (.completed (carried value)))).map fun _ => .ok status := by
  have hline : c.connection mint now s (c.report (.ofOutcome id (.completed value))).request
      = Http.serve s mint now (.post "/internal/task/result"
        (Wire.report.encode (.ofOutcome id (.completed value)))) :=
    c.connection_target mint "/internal/task/result" _ rfl
  have hserve := Http.serve_taskResult s mint now (Wire.utf8ByteSize_report_le id h)
    (Wire.carries_report_completed id h).decode
  have hread := c.read_report (.ofOutcome id (.completed value))
    (Wire.carries_single _ _ (Wire.carries_expressionStatus status))
  simp only [Call.run, hline, hserve, Http.respond, hreport, Turn.map]
  rw [← hread]

end Calls

/-! ## What arrives -/

/-- **Numbers come near, and short ones arrive.**  Between a client and the service at its address: the
assignment that the service hands out arrives with all it holds, its operands carried and its time truncated, which
changes no time in whole milliseconds; a finite result is taken of every task that has not ended, and what is
recorded is what it is carried as.  Whatever is carried is finite, has the sign it had, and is four places away at
most; a double with a short decimal stays as it is. -/
theorem exchange (c : Client) {s : Service} (hs : s.store.Reachable) (mint : Mint) (now : Instant) :
    (∀ a, (s.next now).answer = .ok (some a) → isFinite a.left = true → isFinite a.right = true →
      (c.nextTask.run (c.connection mint now) s).answer
          = .ok (some
            { a with left := carried a.left, right := carried a.right, duration := a.duration.truncated }) ∧
        (a.duration.IsWhole → a.duration.truncated = a.duration) ∧
        (c.nextTask.run (c.connection mint now) s).state = (s.next now).state) ∧
    (∀ id t value, s.store.task? id = some t → t.status.isTerminal = false → isFinite value = true →
      let turn := (c.report (.ofOutcome id (.completed value))).run (c.connection mint now) s
      (∃ status, turn.answer = .ok status) ∧
        turn.state = (s.report now (.ofOutcome id (.completed (carried value)))).state ∧
        turn.state.store.task? id = some (t.ended (.completed (carried value)))) ∧
    ∀ x, isFinite x = true →
      (∃ negative m n, x = double negative m ∧ carried x = double negative n ∧ m < infinityBits ∧
        n < infinityBits ∧ n ≤ m + 4 ∧ m ≤ n + 4) ∧
      (IsShort x → carried x = x) := by
  refine ⟨?_, ?_, fun x hx => ⟨Json.exists_carried hx, Json.carried_eq_of_isShort⟩⟩
  · intro a ha hleft hright
    rw [c.nextTask_run mint ha hleft hright]
    exact ⟨rfl, Span.truncated_eq_self_iff.mpr, rfl⟩
  · intro id t value ht hopen hvalue
    obtain ⟨status, hanswer, hstored⟩ :=
      Service.exists_report_completed hs.sound ht hopen (carried value) now
    rw [c.report_run mint id hvalue hanswer]
    exact ⟨⟨status, rfl⟩, rfl, hstored⟩

/-- A tenth, two tenths and three tenths are short: all of them arrive as they are. -/
theorem exchange_tenths :
    let c := Client.ofAddress "http://127.0.0.1:8080/"
    let mint : Mint := ⟨⟨0⟩, fun n => ⟨.ofNat 128 (n + 1)⟩⟩
    let t : Task := .fresh ⟨1⟩ ⟨0⟩ .add (.literal 0.1) (.literal 0.2) (.ofMillis 1000) .epoch
    let s := ((Service.start .standard .standard).add mint .epoch "0.1+0.2").state
    let told := (c.report (.ofOutcome ⟨1⟩ (.completed 0.3))).run (c.connection mint .epoch) s
    s.store.Reachable ∧
      (c.nextTask.run (c.connection mint .epoch) s).answer
        = .ok (some ⟨⟨1⟩, ⟨0⟩, .add, 0.1, 0.2, .ofMillis 1000⟩) ∧
      (∃ status, told.answer = .ok status) ∧
      told.state.store.task? ⟨1⟩ = some (t.ended (.completed 0.3)) := by
  intro c mint t s told
  have hstore : s.store = (Store.empty.put (.fresh ⟨0⟩ "0.1+0.2" [⟨1⟩] .epoch) [t]).2 := by decide +kernel
  have hreachable : s.store.Reachable := by
    rw [hstore]
    exact .put .refl rfl (by decide +kernel)
  obtain ⟨hnext, hreport, hcarried⟩ := c.exchange hreachable mint .epoch
  have hone : carried 0.1 = 0.1 := (hcarried 0.1 (by decide +kernel)).2
    ⟨false, 7205759403792794, -56, by decide +kernel⟩
  have htwo : carried 0.2 = 0.2 := (hcarried 0.2 (by decide +kernel)).2
    ⟨false, 7205759403792794, -55, by decide +kernel⟩
  have hthree : carried 0.3 = 0.3 := (hcarried 0.3 (by decide +kernel)).2
    ⟨false, 5404319552844595, -54, by decide +kernel⟩
  obtain ⟨hanswer, -⟩ := hnext ⟨⟨1⟩, ⟨0⟩, .add, 0.1, 0.2, .ofMillis 1000⟩ (by decide +kernel)
    (by decide +kernel) (by decide +kernel)
  obtain ⟨hstatus, -, hstored⟩ := hreport ⟨1⟩ t 0.3 (by decide +kernel) rfl (by decide +kernel)
  rw [hone, htwo] at hanswer
  rw [hthree] at hstored
  exact ⟨hreachable, hanswer, hstatus, hstored⟩

/-- A whole number just below `2 ^ 53`: the zero behind its point makes it a word of 57 bits, which is rounded
before it is divided by ten, and so the next whole number arrives. -/
theorem exchange_not_exact :
    let c := Client.ofAddress "http://127.0.0.1:8080/"
    let mint : Mint := ⟨⟨0⟩, fun n => ⟨.ofNat 128 (n + 1)⟩⟩
    let s := ((Service.start .standard .standard).add mint .epoch "9007199254740988+1").state
    let told := (c.report (.ofOutcome ⟨1⟩ (.completed 9007199254740988))).run (c.connection mint .epoch) s
    (s.next .epoch).answer = .ok (some ⟨⟨1⟩, ⟨0⟩, .add, 9007199254740988, 1, .ofMillis 1000⟩) ∧
      (c.nextTask.run (c.connection mint .epoch) s).answer
        = .ok (some ⟨⟨1⟩, ⟨0⟩, .add, 9007199254740989, 1, .ofMillis 1000⟩) ∧
      told.answer = .ok .completed ∧
      (told.state.store.task? ⟨1⟩).bind Task.result = some 9007199254740989 ∧
      isFinite 9007199254740988 = true ∧ (9007199254740989 : Float) ≠ 9007199254740988 := by
  intro c mint s told
  have hrounded : carried 9007199254740988 = 9007199254740989 := by decide +kernel
  have hone : carried 1 = 1 := by decide +kernel
  have hfinite : isFinite 9007199254740988 = true := by decide +kernel
  have hhanded : (s.next .epoch).answer
      = .ok (some ⟨⟨1⟩, ⟨0⟩, .add, 9007199254740988, 1, .ofMillis 1000⟩) := by decide +kernel
  have htaken : (s.report .epoch (.ofOutcome ⟨1⟩ (.completed (carried 9007199254740988)))).answer
      = .ok .completed := by
    rw [hrounded]
    decide +kernel
  have htold : told = _ := c.report_run mint ⟨1⟩ hfinite htaken
  refine ⟨hhanded, ?_, ?_, ?_, hfinite, by decide +kernel⟩
  · rw [c.nextTask_run mint hhanded hfinite (by decide +kernel), carriedAssignment, hrounded, hone]
    rfl
  · rw [htold]
    rfl
  · rw [htold, hrounded]
    decide +kernel

end Client

end Piecework
