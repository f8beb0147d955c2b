/-
# Piecework.Lease — how long a worker may keep a task.

A lease runs for the operation time of the task and a grace period on top.  A sum beyond what a signed
64-bit count of milliseconds holds counts as 365 days.  A deadline beyond the calendar does not exist; every
other lease has one.
-/
import Piecework.Task

namespace Piecework

/-- How leases are granted and taken back. -/
structure LeasePolicy where
  /-- The grace period on top of a task's own time. -/
  timeout : Span
  /-- The time between two rounds that take lapsed leases back. -/
  reapInterval : Span
deriving DecidableEq, Repr

namespace LeasePolicy

/-- Half a minute of grace, and a round every second. -/
def standard : LeasePolicy := ⟨.ofMillis 30000, .ofMillis 1000⟩

/-- The nanoseconds up to which a sum can be counted: what a signed 64-bit count of milliseconds holds. -/
def countable : Nat := (2 ^ 63 - 1) * 1000000

/-- The nanoseconds of 365 days. -/
def longest : Nat := 365 * 86400 * 1000000000

/-- How many nanoseconds a task with this operation time is leased for. -/
def held (policy : LeasePolicy) (duration : Span) : Nat :=
  let sum := (duration.plus policy.timeout).nanos
  if sum ≤ countable then sum else longest

/-- When a lease granted now runs out. -/
def deadline? (policy : LeasePolicy) (now : Instant) (duration : Span) : Option Instant :=
  now.later? (policy.held duration)

/-- The operation time and the grace period together can be counted. -/
def Countable (policy : LeasePolicy) (duration : Span) : Prop :=
  duration.nanos + policy.timeout.nanos ≤ countable

/-- The longest span lies beyond what can be counted, so a sum that stops there makes no difference. -/
theorem held_of_countable {policy : LeasePolicy} {duration : Span} (h : policy.Countable duration) :
    policy.held duration = duration.nanos + policy.timeout.nanos := by
  have hsum : (duration.plus policy.timeout).nanos = duration.nanos + policy.timeout.nanos := by
    simp only [Countable, countable] at h
    simp only [Span.plus]
    omega
  simp only [held, hsum]
  exact if_pos h

theorem held_of_not_countable {policy : LeasePolicy} {duration : Span} (h : ¬policy.Countable duration) :
    policy.held duration = longest := by
  refine if_neg ?_
  simp only [Countable, countable] at h
  simp only [Span.plus, countable]
  omega

end LeasePolicy

/-- Whether a task is under a lease that has run out. -/
def Task.isLapsed (t : Task) (now : Instant) : Bool :=
  t.status = .dispatched && t.lease.any fun deadline => deadline ≤ now

end Piecework
