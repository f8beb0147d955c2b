/-
# Piecework.Proofs.Coverage — how far a lease covers the time that its task is held.

A lease runs for the time of the operation and the grace period on top, to the nanosecond.  Three limits lie on the
way: the sum of two spans stops at the longest span there is, a sum beyond what a signed 64-bit count of milliseconds
holds counts as 365 days, and a deadline beyond the calendar does not exist.  The first limit lies beyond the second,
so it is never seen.  The third is a lease that is not granted.  That leaves the second: there a lease is shorter than
the time that its task is held, and shorter than leases on shorter tasks.

So a deadline covers the time of the operation, and grows with it and with the grace period, as long as the sum can
be counted, and this is said with both sides of the border (`LeasePolicy.coverage`).  Times are told apart exactly, also
when a lease is granted within a leap second.
-/
import Piecework.Proofs.Deadline
import Piecework.Proofs.Store.Reclaim
import Piecework.Proofs.Store.Tenure

namespace Piecework

/-! ## Instants to the nanosecond -/

namespace Instant

/-- The nanoseconds from one instant to a later one.  A leap second counts where it is left. -/
def elapsed (a b : Instant) : ℤ :=
  (b.second - a.second) * 1000000000 + (b.nano - a.nano)
    + if 1000000000 ≤ a.nano ∧ a.second < b.second then 1000000000 else 0

theorem parts_of_ofParts? {second : ℤ} {nano : ℕ} {t : Instant} (h : ofParts? second nano = some t) :
    t.second = second ∧ t.nano = nano := by
  unfold ofParts? at h
  split at h
  · obtain rfl := Option.some.inj h
    exact ⟨rfl, rfl⟩
  · exact absurd h (by simp)

variable {t u v : Instant} {m n : ℕ}

/-- An instant so many nanoseconds later lies in the same leap second, or behind it. -/
theorem parts_of_later? (h : t.later? n = some u) :
    (1000000000 ≤ t.nano ∧ u.second = t.second ∧ u.nano = t.nano + n ∧ u.nano < 2000000000) ∨
      ((t.nano < 1000000000 ∨ 2000000000 ≤ t.nano + n) ∧ u.nano < 1000000000 ∧
        (u.second - t.second) * 1000000000 + u.nano = (t.nano % 1000000000 : ℕ) + n) := by
  unfold later? at h
  split at h
  · rename_i hleap
    obtain ⟨hsecond, hnano⟩ := parts_of_ofParts? h
    exact Or.inl ⟨hleap.1, hsecond, hnano, hnano ▸ hleap.2⟩
  · rename_i hout
    obtain ⟨hsecond, hnano⟩ := parts_of_ofParts? h
    refine Or.inr ⟨by omega, by omega, ?_⟩
    rw [hsecond, hnano]
    omega

/-- **Later by exactly so much.** -/
theorem elapsed_of_later? (h : t.later? n = some u) : t.elapsed u = n ∧ t ≤ u := by
  have hnano := t.nano_lt
  rw [le_iff, elapsed]
  rcases parts_of_later? h with ⟨hleap, hsecond, hu, -⟩ | ⟨hout, hu, hsum⟩
  · rw [if_neg (by omega)]
    omega
  · split_ifs <;> omega

/-- Later by more is later. -/
theorem later?_le_iff (hm : t.later? m = some u) (hn : t.later? n = some v) : u ≤ v ↔ m ≤ n := by
  have hnano := t.nano_lt
  rw [le_iff]
  rcases parts_of_later? hm with ⟨_, _, _, _⟩ | ⟨_, _, _⟩ <;>
    rcases parts_of_later? hn with ⟨_, _, _, _⟩ | ⟨_, _, _⟩ <;> omega

/-- Behind an instant so many nanoseconds later at least as many have passed. -/
theorem le_elapsed_of_le (h : t.later? n = some u) (hle : u ≤ v) : (n : ℤ) ≤ t.elapsed v := by
  have hnano := t.nano_lt
  rw [le_iff] at hle
  rw [elapsed]
  rcases parts_of_later? h with ⟨_, _, _, _⟩ | ⟨_, _, _⟩ <;> split_ifs <;> omega

end Instant

/-! ## How long leases are -/

namespace LeasePolicy

/-- The lease is not shorter than the time of the operation. -/
def Outlasts (p : LeasePolicy) (duration : Span) : Prop := p.Countable duration ∨ duration.nanos ≤ longest

variable {p q : LeasePolicy} {d e : Span}

theorem le_held_iff : d.nanos ≤ p.held d ↔ p.Outlasts d := by
  by_cases hc : p.Countable d
  · rw [held_of_countable hc]
    exact ⟨fun _ => Or.inl hc, fun _ => Nat.le_add_right _ _⟩
  · rw [held_of_not_countable hc]
    exact ⟨Or.inr, fun h => h.resolve_left hc⟩

/-- More time for the operation and more grace make for a longer lease, except from a sum beyond 365 days that
can be counted to one that cannot. -/
theorem held_le_held_iff (hd : d.nanos ≤ e.nanos) (ht : p.timeout.nanos ≤ q.timeout.nanos) :
    p.held d ≤ q.held e ↔ q.Countable e ∨ ¬p.Countable d ∨ d.nanos + p.timeout.nanos ≤ longest := by
  have hlongest : longest ≤ countable := by decide
  by_cases hq : q.Countable e
  · refine iff_of_true ?_ (Or.inl hq)
    by_cases hp : p.Countable d
    · rw [held_of_countable hp, held_of_countable hq]
      omega
    · exact absurd (Nat.le_trans (Nat.add_le_add hd ht) hq) hp
  · rw [held_of_not_countable hq, or_iff_right hq]
    by_cases hp : p.Countable d
    · rw [held_of_countable hp, or_iff_right (not_not_intro hp)]
    · rw [held_of_not_countable hp]
      exact iff_of_true le_rfl (Or.inl hp)

end LeasePolicy

/-! ## Rounds within the time of the operation -/

namespace Store

variable {s : Store}

/-- A task that was handed out stays so or ends, as long as the rounds come before its deadline. -/
theorem task?_after_before_deadline {id : TaskId} {deadline : Instant} (run : List Command)
    (hrounds : ∀ round, Command.reap round ∈ run → ¬deadline ≤ round) :
    ∀ {s : Store}, Sound s → ∀ {t : Task}, s.task? id = some t → t.status = .dispatched →
      t.lease = some deadline →
      (s.after run).task? id = some t ∨ ∃ o, (s.after run).task? id = some (t.ended o) := by
  induction run with
  | nil => exact fun _ _ ht _ _ => Or.inl ht
  | cons c rest ih =>
    intro s h t ht hout hlease
    obtain ⟨t', ht', htreats⟩ := treats h c ht
    cases htreats with
    | stays =>
      exact ih (fun round hin => hrounds round (List.mem_cons_of_mem _ hin)) (h.perform c) ht' hout hlease
    | handed _ _ _ hpending =>
      rw [hout] at hpending
      exact absurd hpending (by simp)
    | ended o now _ _ =>
      exact Or.inr ⟨o, task?_after_of_isTerminal (h.perform _) ht' (isTerminal_ended t o) rest⟩
    | released now hin hlapsed =>
      exact absurd (Task.deadline_le_of_isLapsed hlapsed hlease) (hrounds now List.mem_cons_self)

end Store

namespace LeasePolicy

variable {p : LeasePolicy} {now deadline : Instant} {d : Span}

theorem elapsed_deadline (h : p.deadline? now d = some deadline) : now.elapsed deadline = p.held d :=
  (Instant.elapsed_of_later? h).1

/-- A round within the time of the operation comes before the deadline. -/
theorem not_deadline_le (h : p.deadline? now d = some deadline) (houtlasts : p.Outlasts d) {round : Instant}
    (hround : now ≤ round → now.elapsed round < d.nanos) : ¬deadline ≤ round := by
  intro hle
  have hwithin := hround (Instant.le_trans (Instant.elapsed_of_later? h).2 hle)
  have hheld : (p.held d : ℤ) ≤ now.elapsed round := Instant.le_elapsed_of_le h hle
  have hlonger := le_held_iff.mpr houtlasts
  omega

/-- **How far a lease covers the time of the operation.**  If the operation time and the grace period together can be
counted, then a lease that has a deadline runs for exactly that long, and otherwise for exactly 365 days.  So the
deadline comes no earlier than the end of the operation if and only if the sum can be counted or the operation takes
no more than 365 days.  More time for the operation and more grace never bring the deadline forward, except from a sum
beyond 365 days that can be counted to one that cannot.  Where the lease covers the operation, a task that was handed
out stays with its worker or is reported on, as long as the operation takes. -/
theorem coverage (p : LeasePolicy) (now : Instant) (d : Span) (deadline : Instant)
    (h : p.deadline? now d = some deadline) :
    (p.Countable d → now.elapsed deadline = d.nanos + p.timeout.nanos) ∧
      (¬p.Countable d → now.elapsed deadline = longest) ∧
      (now ≤ deadline ∧ d.nanos ≤ now.elapsed deadline ↔ p.Outlasts d) ∧
      (∀ (q : LeasePolicy) e later, d.nanos ≤ e.nanos → p.timeout.nanos ≤ q.timeout.nanos →
        q.deadline? now e = some later →
        (deadline ≤ later ↔
          q.Countable e ∨ ¬p.Countable d ∨ d.nanos + p.timeout.nanos ≤ longest)) ∧
      (p.Outlasts d → ∀ (s : Store) id t, s.Sound → s.task? id = some t → t.status = .dispatched →
        t.lease = some deadline → ∀ run : List Store.Command,
          (∀ round, .reap round ∈ run → now ≤ round → now.elapsed round < d.nanos) →
          (s.after run).task? id = some t ∨ ∃ o, (s.after run).task? id = some (t.ended o)) := by
  have helapsed := elapsed_deadline h
  refine ⟨?_, ?_, ?_, ?_, ?_⟩
  · intro hc
    rw [helapsed, held_of_countable hc, Nat.cast_add]
  · intro hc
    rw [helapsed, held_of_not_countable hc]
  · rw [helapsed, Nat.cast_le, le_held_iff]
    exact and_iff_right (Instant.elapsed_of_later? h).2
  · intro q e later hd ht hlater
    rw [Instant.later?_le_iff h hlater]
    exact held_le_held_iff hd ht
  · intro houtlasts s id t hs htask hout hlease run hrounds
    exact Store.task?_after_before_deadline run
      (fun round hin => not_deadline_le h houtlasts (hrounds round hin)) hs htask hout hlease

/-- A task that was handed out in the middle of a leap second, to be held for a second and a nanosecond.  Half a second
later, in the next minute, a round leaves it alone.  The same policy leases a task that takes 2 ^ 63 milliseconds for
365 days. -/
theorem coverage_leap :
    let p := LeasePolicy.standard
    let second : Span := .ofNanos 1000000001
    let longer : Span := .ofMillis 2000
    let now : Instant := { second := 59, nano := 1500000000 }
    let deadline : Instant := { second := 90, nano := 500000001 }
    let t : Task := .fresh ⟨1⟩ ⟨0⟩ .divide (.literal 8) (.literal 4) second .epoch
    let s := Store.empty.after [.put (.fresh ⟨0⟩ "8/4" [⟨1⟩] .epoch) [t],
      .claim .oldest Selector.lawful_oldest p now]
    let out : Task := { t with status := .dispatched, lease := some deadline }
    let run : List Store.Command := [.reap { second := 60, nano := 0 }]
    let beyond : Span := .ofMillis (2 ^ 63)
    let year : Instant := { second := 31536000, nano := 0 }
    p.deadline? now second = some deadline ∧ p.Countable second ∧ now.elapsed deadline = 31000000001 ∧
      (now ≤ deadline ∧ second.nanos ≤ now.elapsed deadline) ∧
      (∀ later, p.deadline? now longer = some later → deadline ≤ later) ∧
      s.task? ⟨1⟩ = some out ∧
      ((s.after run).task? ⟨1⟩ = some out ∨ ∃ o, (s.after run).task? ⟨1⟩ = some (out.ended o)) ∧
      p.deadline? .epoch beyond = some year ∧ Instant.epoch.elapsed year = longest := by
  intro p second longer now deadline t s out run beyond year
  have hdeadline : p.deadline? now second = some deadline := by decide +kernel
  have hcountable : p.Countable second := by
    show second.nanos + p.timeout.nanos ≤ countable
    decide +kernel
  obtain ⟨hsum, -, houtlasts, hmonotone, hrounds⟩ := coverage p now second deadline hdeadline
  have htask : s.task? ⟨1⟩ = some out := by decide +kernel
  have hyear : p.deadline? .epoch beyond = some year := by decide +kernel
  obtain ⟨-, hlongest, -⟩ := coverage p .epoch beyond year hyear
  have hbeyond : ¬p.Countable beyond := by
    show ¬beyond.nanos + p.timeout.nanos ≤ countable
    decide +kernel
  refine ⟨hdeadline, hcountable, (hsum hcountable).trans (by decide +kernel), houtlasts.mpr (Or.inl hcountable), ?_,
    htask, ?_, hyear, hlongest hbeyond⟩
  · intro later hlater
    refine (hmonotone p longer later (by decide +kernel) (Nat.le_refl _) hlater).mpr (Or.inl ?_)
    show longer.nanos + p.timeout.nanos ≤ countable
    decide +kernel
  · refine hrounds (Or.inl hcountable) s ⟨1⟩ out (Store.reachable_after _).sound htask rfl rfl run ?_
    intro round hin _
    obtain rfl : round = { second := 60, nano := 0 } := Store.Command.reap.inj (List.mem_singleton.mp hin)
    decide +kernel

/-- An operation that takes 2 ^ 63 milliseconds is leased for 365 days, and one that takes 366 days for longer.  So
a round takes the first back long before it is over. -/
theorem not_coverage_beyond :
    let policy : LeasePolicy := ⟨.ofMillis 0, .ofMillis 1000⟩
    let long : Span := .ofMillis (2 ^ 63)
    let short : Span := .ofMillis (366 * 86400000)
    let year : Instant := { second := 31536000, nano := 0 }
    let leapYear : Instant := { second := 31622400, nano := 0 }
    let t : Task := .fresh ⟨1⟩ ⟨0⟩ .divide (.literal 8) (.literal 4) long .epoch
    let s := Store.empty.after [.put (.fresh ⟨0⟩ "8/4" [⟨1⟩] .epoch) [t],
      .claim .oldest Selector.lawful_oldest policy .epoch]
    policy.deadline? .epoch long = some year ∧
      Instant.epoch.elapsed year < long.nanos ∧
      policy.deadline? .epoch short = some leapYear ∧ short.nanos ≤ long.nanos ∧ ¬leapYear ≤ year ∧
      (s.reap year).1 = [⟨1⟩] := by
  decide +kernel

end LeasePolicy

end Piecework
