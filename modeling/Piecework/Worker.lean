/-
# Piecework.Worker — fetches tasks, computes them and reports.

A worker goes round in cycles.  A cycle fetches a task, holds it for its operation time, applies the
operation and reports the outcome; it ends early when there is no task or the source fails.  A shift is
a sequence of cycles under a clock: the next one follows at once after an accepted report, and after
the polling interval otherwise.  When the time to stop has come the shift is over, in the middle of a
cycle too; the task at hand then gets no report.

The source of tasks is a parameter, so the same worker serves a script, the service in place and a
server elsewhere.  So is the timer, which tells how many ticks of the clock a wait takes.
-/
import Piecework.Task
import Piecework.Turn

namespace Piecework

/-- Where a worker gets tasks from and reports to. -/
structure TaskSource (σ ε : Type) where
  fetch : σ → Turn σ (Except ε (Option Assignment))
  report : σ → Report → Turn σ (Except ε Unit)
  /-- The wording of the source's faults. -/
  wording : ε → String

/-- What a worker does to its source. -/
inductive WorkerEvent (ε : Type) where
  /-- A fetch was answered. -/
  | fetched (task : Option Assignment)
  /-- A fetch failed. -/
  | fetchFailed (fault : ε)
  /-- A report was sent, whatever the answer. -/
  | reported (report : Report)
deriving DecidableEq

/-- How a cycle ends. -/
inductive Cycle (ε : Type) where
  /-- The report of a result was accepted. -/
  | completed (task : TaskId) (value : Float)
  /-- The report of a failure was accepted. -/
  | failed (task : TaskId) (reason : String)
  /-- There was no task. -/
  | idle
  /-- The source failed, or refused the report. -/
  | broken (fault : ε)
  /-- The time to stop came first. -/
  | cutOff

/-- Whether the next cycle follows at once. -/
def Cycle.isProductive {ε : Type} : Cycle ε → Bool
  | .completed .. | .failed .. => true
  | .idle | .broken _ | .cutOff => false

/-- How a cycle ends whose report was accepted. -/
def Cycle.ofOutcome {ε : Type} (task : TaskId) : Outcome → Cycle ε
  | .completed value => .completed task value
  | .failed reason => .failed task reason

/-- What a worker waits with. -/
structure Timer where
  /-- How many ticks of the clock it takes to wait for a span. -/
  ticks : Span → Nat

/-- Ticks of a millisecond.  A wait ends with the first of them that is not too early. -/
def Timer.millis : Timer := ⟨fun s => (s.nanos + 999999) / 1000000⟩

/-- Ticks of a nanosecond, so that no wait takes longer than it should. -/
def Timer.exact : Timer := ⟨Span.nanos⟩

/-- A worker at some time. -/
structure Worker (σ : Type) where
  /-- The source as the worker has left it. -/
  source : σ
  /-- The ticks since the start. -/
  clock : Nat
  /-- The number of accepted reports. -/
  accepted : Nat

/-- What came of a cycle or a shift. -/
structure Deed (σ ε α : Type) where
  answer : α
  worker : Worker σ
  /-- What was done to the source, and when. -/
  events : List (Nat × WorkerEvent ε)
  journal : List Line

/-- The same deed with earlier events and lines in front. -/
def Deed.after {σ ε α : Type} (events : List (Nat × WorkerEvent ε)) (lines : List Line)
    (d : Deed σ ε α) : Deed σ ε α :=
  ⟨d.answer, d.worker, events ++ d.events, lines ++ d.journal⟩

/-- Whether a time is not before the time to stop. -/
def isOver (stop : Option Nat) (time : Nat) : Bool := stop.any fun limit => limit ≤ time

namespace Worker

variable {σ ε : Type}

/-- A worker that has done nothing. -/
def start (s : σ) : Worker σ := ⟨s, 0, 0⟩

/-- The worker after waiting, but not beyond the time to stop. -/
def wait (w : Worker σ) (stop : Option Nat) (ticks : Nat) : Worker σ :=
  { w with clock := match stop with
    | some limit => min (w.clock + ticks) (max w.clock limit)
    | none => w.clock + ticks }

/-! ## One cycle -/

/-- What a worker says on taking a task up. -/
def journalTask (a : Assignment) : List Line :=
  [.debug ("executing " ++ Number.plain.text a.left ++ " " ++ String.singleton a.operation.symbol ++ " "
    ++ Number.plain.text a.right)]

/-- What a worker says on computing an outcome. -/
def journalOutcome : Outcome → List Line
  | .completed _ => []
  | .failed reason => [.warn ("task failed: " ++ reason)]

/-- Computes a task and reports its outcome. -/
def finish (source : TaskSource σ ε) (a : Assignment) (w : Worker σ) : Deed σ ε (Cycle ε) :=
  let report := Report.ofOutcome a.id a.outcome
  let turn := source.report w.source report
  let events := [(w.clock, .reported report)]
  let lines := journalOutcome a.outcome ++ turn.journal
  match turn.answer with
  | .ok () => ⟨.ofOutcome a.id a.outcome, ⟨turn.state, w.clock, w.accepted + 1⟩, events, lines⟩
  | .error fault => ⟨.broken fault, ⟨turn.state, w.clock, w.accepted⟩, events, lines⟩

/-- Holds a task for its operation time and finishes it, if the time to stop does not come first. -/
def compute (source : TaskSource σ ε) (stop : Option Nat) (a : Assignment) (w : Worker σ)
    (timer : Timer := .millis) : Deed σ ε (Cycle ε) :=
  let held := w.wait stop (timer.ticks a.duration)
  -- Work that would be done just as the time to stop comes is cut off, too.
  if isOver stop (w.clock + timer.ticks a.duration) then ⟨.cutOff, held, [], []⟩ else finish source a held

/-- Goes round once. -/
def cycle (source : TaskSource σ ε) (stop : Option Nat) (w : Worker σ) (timer : Timer := .millis) :
    Deed σ ε (Cycle ε) :=
  let turn := source.fetch w.source
  let fetched : Worker σ := { w with source := turn.state }
  match turn.answer with
  | .error fault => ⟨.broken fault, fetched, [(w.clock, .fetchFailed fault)], turn.journal⟩
  | .ok none => ⟨.idle, fetched, [(w.clock, .fetched none)], turn.journal⟩
  | .ok (some a) =>
    (compute source stop a fetched timer).after [(w.clock, .fetched (some a))] (turn.journal ++ journalTask a)

/-- Goes round so many times, without waiting between. -/
def cycles (source : TaskSource σ ε) (rounds : Nat) (w : Worker σ) (timer : Timer := .millis) :
    Deed σ ε (List (Cycle ε)) :=
  match rounds with
  | 0 => ⟨[], w, [], []⟩
  | rounds + 1 =>
    let first := cycle source none w timer
    let rest := cycles source rounds first.worker timer
    ⟨first.answer :: rest.answer, rest.worker, first.events ++ rest.events,
      first.journal ++ rest.journal⟩

end Worker

/-! ## A shift -/

/-- How a worker works on its own. -/
structure Shift where
  /-- How long to wait after a cycle without an accepted report. -/
  poll : Span
  /-- How many accepted reports are enough. -/
  enough : Option Nat
  /-- The time to stop, in ticks since the start. -/
  stop : Option Nat

namespace Worker

variable {σ ε : Type}

/-- What a worker says on a cycle that was broken. -/
def journalCycle (source : TaskSource σ ε) : Cycle ε → List Line
  | .broken fault => [.error ("Cycle error: " ++ source.wording fault)]
  | _ => []

/-- Goes round until enough is done or the time to stop has come, but at most so many times. -/
def work (source : TaskSource σ ε) (shift : Shift) (rounds : Nat) (w : Worker σ)
    (timer : Timer := .millis) : Deed σ ε Unit :=
  match rounds with
  | 0 => ⟨(), w, [], []⟩
  | rounds + 1 =>
    if isOver shift.stop w.clock then ⟨(), w, [], []⟩
    else match shift.enough.filter (· ≤ w.accepted) with
      | some most => ⟨(), w, [], [.info ("Reached max cycles (" ++ .ofList (Number.decimal most) ++ ")")]⟩
      | none =>
        let deed := cycle source shift.stop w timer
        let next := if deed.answer.isProductive then deed.worker
          else deed.worker.wait shift.stop (timer.ticks shift.poll)
        (work source shift rounds next timer).after deed.events
          (deed.journal ++ journalCycle source deed.answer)

/-- A shift of at most so many rounds, with the lines at its start and end. -/
def run (source : TaskSource σ ε) (shift : Shift) (rounds : Nat) (w : Worker σ)
    (timer : Timer := .millis) : Deed σ ε Unit :=
  let deed := work source shift rounds w timer
  ⟨(), deed.worker, deed.events, .info "worker started" :: deed.journal ++ [.info "worker stopped"]⟩

end Worker

end Piecework
