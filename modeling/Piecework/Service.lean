/-
# Piecework.Service — takes expressions in, hands their tasks out and folds the results back.

The service is a store together with the operation times it compiles with and the leases it grants.
Fresh identities and the present time come from outside, so each operation is a function of what it is
given.  An expression that does not compile leaves no trace.
-/
import Piecework.Plan
import Piecework.Service.Fault
import Piecework.Store.Journal
import Piecework.Turn

namespace Piecework

/-- Identities that nothing has yet: one for an expression and as many as it takes for its tasks. -/
structure Mint where
  expression : ExpressionId
  task : Nat → TaskId

/-- Accepted expressions, how they are compiled and how their tasks are leased. -/
structure Service where
  store : Store
  times : OperationTimes
  policy : LeasePolicy

namespace Service

/-- A service without expressions. -/
def start (times : OperationTimes) (policy : LeasePolicy) : Service := ⟨.empty, times, policy⟩

/-- The setting in which the service compiles an expression. -/
def setting (s : Service) (mint : Mint) (now : Instant) : Plan.Setting :=
  ⟨mint.expression, s.times, mint.task, now⟩

/-! ## Expressions -/

/-- Takes an expression in, under the identity that the mint gives it. -/
def add (s : Service) (mint : Mint) (now : Instant) (text : String) :
    Turn Service (Except ServiceFault ExpressionId) :=
  let lines := Plan.journal (s.setting mint now) text
  match Plan.ofText (s.setting mint now) text with
  | .error fault => ⟨.error (.compile fault), s, lines⟩
  | .ok tasks =>
    let e := Expression.fresh mint.expression text (tasks.map Task.id) now
    match s.store.put e tasks with
    | (.error fault, store) => ⟨.error (.ofStore fault), { s with store := store }, lines⟩
    | (.ok (), store) =>
      ⟨.ok e.id, { s with store := store },
        lines ++ Store.journalPut e tasks (.ok ()) ++
          [.info ("accepted expression " ++ Text.quoted text)]⟩

/-- An expression with its tasks. -/
def view (s : Service) (id : ExpressionId) : Except ServiceFault View :=
  match s.store.view? id with
  | some v => .ok v
  | none => .error (.unknownExpression id)

/-- All expressions in the order in which they were taken in. -/
def list (s : Service) : List Expression := s.store.list

/-! ## Tasks -/

/-- Hands the oldest task that can run out under a lease. -/
def next (s : Service) (now : Instant) : Turn Service (Except ServiceFault (Option Assignment)) :=
  let claimed := s.store.claim .oldest s.policy now
  ⟨claimed.1.mapError .ofStore, { s with store := claimed.2 }, Store.journalClaim claimed.1⟩

/-- Takes a report on a task, and tells where its expression stands then. -/
def report (s : Service) (now : Instant) (r : Report) :
    Turn Service (Except ServiceFault ExpressionStatus) :=
  match r.outcome with
  | .error fault => .look s (.error (.invalidReport fault))
  | .ok outcome =>
    let taken := s.store.report r.task outcome now
    ⟨taken.1.mapError .ofStore, { s with store := taken.2 },
      Store.journalReport s.store taken.2 r.task taken.1⟩

/-! ## Lapsed leases -/

/-- Takes lapsed leases back, and tells how many. -/
def reap (s : Service) (now : Instant) : Turn Service Nat :=
  let reaped := s.store.reap now
  ⟨reaped.1.length, { s with store := reaped.2 }, Store.journalReap reaped.1⟩

/-- The time between two rounds that take lapsed leases back; never none at all. -/
def round (s : Service) : Span :=
  if s.policy.reapInterval.nanos ≤ 1000000 then .ofMillis 1 else s.policy.reapInterval

/-- Takes lapsed leases back at each of these instants. -/
def reapAt (s : Service) : List Instant → Turn Service Unit
  | [] => .look s ()
  | now :: rest =>
    let turn := s.reap now
    (reapAt turn.state rest).after turn.journal

/-- A watch over lapsed leases, with a round at each of these instants. -/
def watch (s : Service) (rounds : List Instant) : Turn Service Unit :=
  let turn := s.reapAt rounds
  ⟨(), turn.state,
    .debug ("lease reaper running every " ++ s.round.text) :: turn.journal ++
      [.debug "lease reaper stopped"]⟩

/-! ## Working the tasks off in place -/

/-- Works tasks off one after the other, at most so many, and tells how many there were. -/
def drain (now : Instant) : Nat → Service → Turn Service (Except ServiceFault Nat)
  | 0, s => .look s (.ok 0)
  | limit + 1, s =>
    let fetched := s.next now
    match fetched.answer with
    | .error fault => ⟨.error fault, fetched.state, fetched.journal⟩
    | .ok none => ⟨.ok 0, fetched.state, fetched.journal⟩
    | .ok (some a) =>
      let reported := fetched.state.report now (.ofOutcome a.id a.outcome)
      match reported.answer with
      | .error fault => ⟨.error fault, reported.state, fetched.journal ++ reported.journal⟩
      | .ok _ =>
        ((drain now limit reported.state).map (Except.map (· + 1))).after
          (fetched.journal ++ reported.journal)

/-- Works all tasks off that can run.  Each one leaves the pool, so its size is enough of a limit. -/
def drainAll (s : Service) (now : Instant) : Turn Service (Except ServiceFault Nat) :=
  drain now s.store.pool.length s

end Service

end Piecework
