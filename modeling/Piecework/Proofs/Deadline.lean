/-
# Piecework.Proofs.Deadline — which leases have a deadline, and so when the service breaks off.

Two settings decide how long a task is leased for, the time of its operation and the grace period, and the
sum is held against two limits: where a signed 64-bit count of milliseconds ends, a year takes its place,
and where the calendar ends, there is no deadline.  The second limit comes long before the first.  Between the
two lies a gap, and a service with settings in the gap breaks off as soon as it hands such a task out.

Nothing else breaks off.  Every stored task has the time of its operation, whatever the service was asked
before (`Timed`), so the settings alone decide (`returns_iff_covers`).
-/
import Piecework.Config
import Piecework.Http.Server
import Piecework.Proofs.Drain

namespace Piecework

/-! ## Deadlines -/

namespace Instant

theorem ofParts?_eq_none_iff {second : Int} {nano : Nat} :
    ofParts? second nano = none ↔ ¬(firstSecond ≤ second ∧ second ≤ lastSecond ∧ nano < 2000000000 ∧
      (1000000000 ≤ nano → second % 60 = 59)) := by
  unfold ofParts?
  split
  · rename_i h
    exact ⟨fun hn => absurd hn (by simp), fun hn => absurd h hn⟩
  · rename_i h
    exact ⟨fun _ => h, fun _ => rfl⟩

/-- Only what ends beyond the calendar has no end. -/
theorem later?_eq_none_iff {t : Instant} {nanos : Nat} :
    t.later? nanos = none ↔
      lastSecond < t.second + ((t.nano % 1000000000 + nanos) / 1000000000 : Nat) := by
  have hfirst := t.first_le
  have hlast := t.le_last
  have hnano := t.nano_lt
  have hleap := t.leap
  unfold later?
  simp only [lastSecond, firstSecond] at hfirst hlast ⊢
  split
  -- What ends within the same leap second ends within the calendar.
  · rw [ofParts?_eq_none_iff]
    simp only [lastSecond, firstSecond]
    omega
  · rw [ofParts?_eq_none_iff]
    simp only [lastSecond, firstSecond]
    omega

/-- The last second of the year 9999. -/
def lastSecondOf9999 : Int := 253402300799

example : Date.ofDayNumber (lastSecondOf9999 / secondsPerDay + Date.epochDay) = ⟨9999, 12, 31⟩ := by
  decide +kernel

/-- The last nanosecond of the year 9999. -/
def lastOf9999 : Instant := { second := lastSecondOf9999, nano := 999999999 }

/-- The nanoseconds between the year 9999 and the end of the calendar. -/
def roomAfter9999 : Nat := ((lastSecond - lastSecondOf9999) * 1000000000).toNat

/-- From every instant up to the year 9999 the calendar goes on for that long. -/
theorem later?_ne_none {t : Instant} (ht : t.second ≤ lastSecondOf9999) {nanos : Nat}
    (h : nanos ≤ roomAfter9999) : t.later? nanos ≠ none := by
  rw [Ne, later?_eq_none_iff]
  simp only [roomAfter9999, lastSecond, lastSecondOf9999] at *
  omega

/-- From the last of them it goes on no longer. -/
theorem later?_lastOf9999 {nanos : Nat} (h : roomAfter9999 < nanos) :
    lastOf9999.later? nanos = none := by
  rw [later?_eq_none_iff]
  simp only [roomAfter9999, lastSecond, lastOf9999, lastSecondOf9999] at *
  omega

end Instant

namespace LeasePolicy

open Instant

/-- A task with this operation time can be leased at every instant up to the year 9999: the lease ends within
the calendar, or its milliseconds cannot be counted. -/
def Covers (policy : LeasePolicy) (duration : Span) : Prop :=
  duration.nanos + policy.timeout.nanos ≤ roomAfter9999 ∨
    countable < duration.nanos + policy.timeout.nanos

instance (policy : LeasePolicy) (duration : Span) : Decidable (policy.Covers duration) :=
  inferInstanceAs (Decidable (_ ∨ _))

theorem covers_iff_held {policy : LeasePolicy} {duration : Span} :
    policy.Covers duration ↔ policy.held duration ≤ roomAfter9999 := by
  by_cases hc : policy.Countable duration
  · rw [held_of_countable hc, Covers, or_iff_left (Nat.not_lt_of_le hc)]
  · rw [held_of_not_countable hc]
    exact iff_of_true (Or.inr (Nat.lt_of_not_le hc)) (by decide)

theorem deadline?_ne_none {policy : LeasePolicy} {duration : Span} (h : policy.Covers duration)
    {now : Instant} (hnow : now.second ≤ lastSecondOf9999) : policy.deadline? now duration ≠ none :=
  later?_ne_none hnow (covers_iff_held.mp h)

theorem deadline?_lastOf9999 {policy : LeasePolicy} {duration : Span} (h : ¬policy.Covers duration) :
    policy.deadline? lastOf9999 duration = none :=
  later?_lastOf9999 (Nat.lt_of_not_le (mt covers_iff_held.mpr h))

end LeasePolicy

/-! ## Stores -/

namespace Store

variable {s later : Store}

/-- Every stored task has the time of its operation. -/
def Timed (times : OperationTimes) (s : Store) : Prop :=
  ∀ id t, s.task? id = some t → t.duration = times.of t.operation

theorem Timed.empty (times : OperationTimes) : Timed times .empty :=
  fun _ _ h => absurd h (by simp [task?, Store.empty])

/-- Nothing that happens to a task changes how long it takes; so it is enough to look at what is accepted. -/
theorem Timed.path {times : OperationTimes} {may : Store → Change → Prop} (h : Timed times s)
    (hp : Path may s later) (hs : Sound s)
    (hmay : ∀ s e tasks, may s (.accept e tasks) → ∀ t ∈ tasks, t.duration = times.of t.operation) :
    Timed times later := by
  refine hp.tasks hs ?_ hmay h
  intro t t' hplain ht
  obtain ⟨-, -, hoperation, -, -, hduration⟩ := Task.work_eq_of_plain_eq hplain
  rw [hduration, hoperation]
  exact ht

/-- Batches are not refused for it. -/
theorem refusal_ne_beyondCalendar (s : Store) (e : Expression) (tasks : List Task) :
    s.refusal e tasks ≠ some .beyondCalendar := by
  unfold refusal
  repeat' split
  all_goals simp [Option.map_eq_some_iff]

/-- Reports are not refused for it. -/
theorem report_ne_beyondCalendar (s : Store) (id : TaskId) (o : Outcome) (now : Instant) :
    (s.report id o now).1 ≠ .error .beyondCalendar := by
  unfold report settle
  repeat' split
  all_goals simp

theorem put_ne_beyondCalendar (s : Store) (e : Expression) (tasks : List Task) :
    (s.put e tasks).1 ≠ .error .beyondCalendar := by
  unfold put
  cases hr : s.refusal e tasks with
  | none => simp
  | some fault =>
    have hfault : fault ≠ .beyondCalendar := fun hf => s.refusal_ne_beyondCalendar e tasks (hf ▸ hr)
    simp [hfault]

/-- An operand cannot be told only where a result is missing. -/
theorem exists_of_operand_error {a : Argument} {fault : StoreFault} (h : s.operand a = .error fault) :
    ∃ id, fault = .resultMissing id := by
  cases a with
  | literal value => cases h
  | output id =>
    rw [operand] at h
    split at h
    · cases h
    · exact ⟨id, (Except.error.inj h).symm⟩

theorem exists_of_assignment_error {t : Task} {fault : StoreFault} (h : s.assignment t = .error fault) :
    ∃ id, fault = .resultMissing id := by
  rw [assignment] at h
  split at h
  · rename_i hleft
    exact exists_of_operand_error (hleft.trans (congrArg _ (Except.error.inj h)))
  · split at h
    · rename_i hright
      exact exists_of_operand_error (hright.trans (congrArg _ (Except.error.inj h)))
    · cases h

/-- A claim fails for want of a result or of calendar. -/
theorem claim_error {select : Selector} {policy : LeasePolicy} {now : Instant} {fault : StoreFault}
    (h : (s.claim select policy now).1 = .error fault) :
    (∃ id, fault = .resultMissing id) ∨ fault = .beyondCalendar := by
  rw [claim] at h
  split at h
  · cases h
  · split at h
    · rename_i hass
      exact Or.inl (exists_of_assignment_error (hass.trans (congrArg _ (Except.error.inj h))))
    · split at h
      · exact Or.inr (Except.error.inj h).symm
      · cases h

/-- A claim finds no deadline only for want of calendar. -/
theorem claim_eq_beyondCalendar_iff {select : Selector} {policy : LeasePolicy} {now : Instant} :
    (s.claim select policy now).1 = .error .beyondCalendar ↔
      ∃ t a, s.next? select = some t ∧ s.assignment t = .ok a ∧ policy.deadline? now t.duration = none := by
  unfold claim
  cases s.next? select with
  | none => simp
  | some t =>
    dsimp only
    cases hass : s.assignment t with
    | error fault =>
      obtain ⟨id, rfl⟩ := exists_of_assignment_error hass
      simp [hass]
    | ok a =>
      dsimp only
      cases hdeadline : policy.deadline? now t.duration <;> simp [hass, hdeadline]

end Store

/-! ## Services -/

namespace Service

open Instant

/-- What a service can be asked. -/
inductive Call where
  | add (mint : Mint) (now : Instant) (text : String)
  | view (id : ExpressionId)
  | list
  | next (now : Instant)
  | report (now : Instant) (r : Report)
  | reap (now : Instant)

/-- The call comes in the year 9999 at the latest. -/
def Call.InTime : Call → Prop
  | .add _ now _ | .next now | .report now _ | .reap now => now.second ≤ lastSecondOf9999
  | .view _ | .list => True

/-- The fault that an answer is, if it is one. -/
def faultOf {α : Type} : Except ServiceFault α → Option ServiceFault
  | .ok _ => none
  | .error fault => some fault

/-- Carries a call out: the fault that it is answered with, if any, and the service behind it. -/
def carry (s : Service) : Call → Option ServiceFault × Service
  | .add mint now text => (faultOf (s.add mint now text).answer, (s.add mint now text).state)
  | .view id => (faultOf (s.view id), s)
  | .list => (none, s)
  | .next now => (faultOf (s.next now).answer, (s.next now).state)
  | .report now r => (faultOf (s.report now r).answer, (s.report now r).state)
  | .reap now => (none, (s.reap now).state)

/-- The faults that calls are answered with, one after the other. -/
def faults (s : Service) : List Call → List ServiceFault
  | [] => []
  | c :: rest => (s.carry c).1.toList ++ faults (s.carry c).2 rest

/-- Every call returns: none of them breaks off. -/
def Returns (s : Service) (calls : List Call) : Prop := ∀ f ∈ s.faults calls, f.breaksOff = false

/-- A refusal of the store breaks off only for want of calendar. -/
theorem breaksOff_faultOf {α : Type} {answer : Except StoreFault α} {f : ServiceFault}
    (hf : faultOf (answer.mapError .ofStore) = some f) :
    f.breaksOff = true ↔ answer = .error .beyondCalendar := by
  cases answer with
  | ok a => simp [faultOf, Except.mapError] at hf
  | error fault =>
    obtain rfl := Option.some.inj hf
    cases fault <;> simp [ServiceFault.breaksOff, ServiceFault.ofStore]

/-- The service compiles and leases by these settings, and all that it has stored was compiled by them. -/
structure Timed (times : OperationTimes) (policy : LeasePolicy) (s : Service) : Prop where
  times_eq : s.times = times
  policy_eq : s.policy = policy
  sound : s.store.Sound
  timed : s.store.Timed times

namespace Timed

variable {times : OperationTimes} {policy : LeasePolicy} {s : Service}

theorem start (times : OperationTimes) (policy : LeasePolicy) :
    Timed times policy (.start times policy) :=
  ⟨rfl, rfl, .empty, .empty times⟩

theorem of_path {may : Store → Store.Change → Prop} {later : Store} (h : Timed times policy s)
    (hp : Store.Path may s.store later)
    (hmay : ∀ s e tasks, may s (.accept e tasks) → ∀ t ∈ tasks, t.duration = times.of t.operation) :
    Timed times policy { s with store := later } :=
  ⟨h.times_eq, h.policy_eq, hp.sound h.sound, h.timed.path hp h.sound hmay⟩

/-- What a text compiles to has the times of the service, and no text makes it break off. -/
theorem add (h : Timed times policy s) (mint : Mint) (now : Instant) (text : String) :
    Timed times policy (s.add mint now text).state ∧
      ∀ f, faultOf (s.add mint now text).answer = some f → f.breaksOff = false := by
  unfold Service.add
  dsimp only
  cases htext : Plan.ofText (s.setting mint now) text with
  | error fault =>
    refine ⟨h, fun f hf => ?_⟩
    obtain rfl := Option.some.inj hf
    rfl
  | ok tasks =>
    dsimp only
    have hpath := h.of_path
      (s.store.put_path (.fresh mint.expression text (tasks.map Task.id) now) tasks) (by
        intro _ _ _ hm t ht
        obtain ⟨-, rfl⟩ := Store.Change.accept.inj hm
        rw [Plan.duration_of_mem_ofText htext ht, ← h.times_eq]
        rfl)
    have hanswer := s.store.put_ne_beyondCalendar (.fresh mint.expression text (tasks.map Task.id) now) tasks
    cases hput : s.store.put (.fresh mint.expression text (tasks.map Task.id) now) tasks with
    | mk answer store =>
      rw [hput] at hpath hanswer
      cases answer with
      | ok _ => exact ⟨hpath, fun f hf => absurd hf (by simp [faultOf])⟩
      | error fault =>
        refine ⟨hpath, fun f hf => ?_⟩
        have hfault : faultOf ((.error fault : Except StoreFault Unit).mapError .ofStore) = some f := hf
        rw [← Bool.not_eq_true, breaksOff_faultOf hfault]
        exact hanswer

/-- A task is handed out by the settings of the service, and only they can make it break off. -/
theorem next (h : Timed times policy s) (now : Instant) :
    Timed times policy (s.next now).state ∧
      ∀ f, faultOf (s.next now).answer = some f → f.breaksOff = true →
        ∃ o, policy.deadline? now (times.of o) = none := by
  refine ⟨h.of_path (s.store.claim_path Selector.lawful_oldest s.policy now) ?_, ?_⟩
  · rintro _ _ _ ⟨t, deadline, hm⟩
    exact Store.Change.noConfusion hm
  · intro f hf hbreaks
    obtain ⟨t, a, hnext, -, hdeadline⟩ :=
      Store.claim_eq_beyondCalendar_iff.mp ((breaksOff_faultOf hf).mp hbreaks)
    have hstored := h.sound.task?_of_mem_candidates (Selector.lawful_oldest _ _ hnext)
    rw [h.policy_eq, h.timed t.id t hstored] at hdeadline
    exact ⟨t.operation, hdeadline⟩

theorem report (h : Timed times policy s) (now : Instant) (r : Report) :
    Timed times policy (s.report now r).state ∧
      ∀ f, faultOf (s.report now r).answer = some f → f.breaksOff = false := by
  unfold Service.report
  cases r.outcome with
  | error fault =>
    refine ⟨h, fun f hf => ?_⟩
    obtain rfl := Option.some.inj hf
    rfl
  | ok o =>
    refine ⟨h.of_path (Store.report_path h.sound r.task o now) ?_, fun f hf => ?_⟩
    · rintro _ _ _ ⟨t, hm⟩
      exact Store.Change.noConfusion hm
    · rw [← Bool.not_eq_true, breaksOff_faultOf hf]
      exact s.store.report_ne_beyondCalendar r.task o now

theorem reap (h : Timed times policy s) (now : Instant) : Timed times policy (s.reap now).state := by
  refine h.of_path (Store.reap_path h.sound now) ?_
  rintro _ _ _ ⟨t, hm⟩
  exact Store.Change.noConfusion hm

/-- **Every stored task has the time of its operation**, whatever the service is asked. -/
theorem carry (h : Timed times policy s) (c : Call) : Timed times policy (s.carry c).2 := by
  cases c with
  | add mint now text => exact (h.add mint now text).1
  | view id => exact h
  | list => exact h
  | next now => exact (h.next now).1
  | report now r => exact (h.report now r).1
  | reap now => exact h.reap now

/-- Where every operation time is covered, a call in time returns. -/
theorem breaksOff_carry (h : Timed times policy s) (hcovers : ∀ o, policy.Covers (times.of o)) {c : Call}
    (hc : c.InTime) : ∀ f, (s.carry c).1 = some f → f.breaksOff = false := by
  cases c with
  | add mint now text => exact (h.add mint now text).2
  | view id =>
    intro f hf
    simp only [Service.carry, view] at hf
    split at hf
    · exact absurd hf (by simp [faultOf])
    · obtain rfl := Option.some.inj hf
      rfl
  | list => exact fun f hf => absurd hf (by simp [Service.carry])
  | next now =>
    intro f hf
    rw [← Bool.not_eq_true]
    intro hb
    obtain ⟨o, hdeadline⟩ := (h.next now).2 f hf hb
    exact LeasePolicy.deadline?_ne_none (hcovers o) hc hdeadline
  | report now r => exact (h.report now r).2
  | reap now => exact fun f hf => absurd hf (by simp [Service.carry])

theorem returns (h : Timed times policy s) (hcovers : ∀ o, policy.Covers (times.of o))
    {calls : List Call} (hcalls : ∀ c ∈ calls, c.InTime) : s.Returns calls := by
  induction calls generalizing s with
  | nil => exact fun f hf => absurd hf List.not_mem_nil
  | cons c rest ih =>
    intro f hf
    rcases List.mem_append.mp hf with hf | hf
    · exact h.breaksOff_carry hcovers (hcalls c List.mem_cons_self) f (Option.mem_toList.mp hf)
    · exact ih (h.carry c) (fun d hd => hcalls d (List.mem_cons_of_mem c hd)) f hf

end Timed

/-- The shortest text with an operation. -/
def textOf (o : Operation) : String := .ofList ['1', o.symbol, '1']

theorem ofText_textOf (o : Operation) :
    Postfix.ofText (textOf o) = .ok (Tree.node o (.leaf 1) (.leaf 1)).items := by
  cases o <;> decide +kernel

/-- A lease without a deadline makes the service break off with the first task that asks for it. -/
theorem not_returns_of_deadline? {times : OperationTimes} {policy : LeasePolicy} {o : Operation}
    {now : Instant} (h : policy.deadline? now (times.of o) = none) (mint : Mint) :
    ¬(start times policy).Returns [.add mint .epoch (textOf o), .next now] := by
  let t : Task := ((start times policy).setting mint .epoch).task 0 o (.literal 1) (.literal 1)
  have htext : Plan.ofText ((start times policy).setting mint .epoch) (textOf o) = .ok [t] :=
    Plan.ofText_eq_ok_iff.mpr ⟨_, ofText_textOf o, Nat.zero_lt_one, rfl⟩
  obtain ⟨store, -, hstate, hfrontier, -⟩ := add_compiled times policy mint .epoch htext (by simp)
  have hclaim : (store.claim .oldest policy now).1 = .error .beyondCalendar :=
    Store.claim_eq_beyondCalendar_iff.mpr
      ⟨t, ⟨t.id, t.owner, o, 1, 1, t.duration⟩, hfrontier.next?_eq, rfl, h⟩
  have hlater : ((start times policy).carry (.add mint .epoch (textOf o))).2 = ⟨store, times, policy⟩ :=
    hstate
  have hfault : ((⟨store, times, policy⟩ : Service).carry (.next now)).1
      = some (.storage .beyondCalendar) := by
    show faultOf ((store.claim .oldest policy now).1.mapError .ofStore) = _
    rw [hclaim]
    rfl
  have hmem : ServiceFault.storage .beyondCalendar
      ∈ (start times policy).faults [.add mint .epoch (textOf o), .next now] := by
    rw [faults, faults, hlater, hfault]
    exact List.mem_append_right _ (List.mem_append_left _ (Option.mem_toList.mpr rfl))
  intro hreturns
  exact Bool.false_ne_true ((hreturns _ hmem).symm.trans (by decide))

theorem inTime_pair (mint : Mint) (text : String) {now : Instant} (h : now.second ≤ lastSecondOf9999) :
    ∀ c ∈ [Call.add mint .epoch text, .next now], c.InTime := by
  intro c hc
  rcases List.mem_cons.mp hc with rfl | hc
  · show (0 : Int) ≤ lastSecondOf9999
    decide
  · rw [List.mem_singleton.mp hc]
    exact h

/-- **A service breaks off in the gap, and nowhere else.**  Whatever the environment says: no sequence of calls
up to the year 9999 makes the service break off, if and only if every operation time together with the grace
period ends within the calendar or cannot be counted in milliseconds.  Otherwise one call that takes an
expression in and one that hands its task out are enough. -/
theorem returns_iff_covers (env : Environment) :
    let config := Config.ofEnvironment env
    (∀ calls : List Call, (∀ c ∈ calls, c.InTime) →
        (start config.times config.lease).Returns calls) ↔
      ∀ o, config.lease.Covers (config.times.of o) := by
  intro config
  constructor
  · intro h o
    by_contra hgap
    exact not_returns_of_deadline? (LeasePolicy.deadline?_lastOf9999 hgap)
      ⟨⟨0⟩, fun n => ⟨.ofNat 128 n⟩⟩ (h _ (inTime_pair _ _ le_rfl))
  · intro hcovers calls hcalls
    exact (Timed.start config.times config.lease).returns hcovers hcalls

/-- An addition that takes nine million million seconds: with half a minute on top the milliseconds can be
counted, and in 1970 already there is no calendar for them. -/
theorem not_returns_gap :
    let config := Config.ofEnvironment ⟨[("TIME_ADDITION_MS", "9000000000000000")]⟩
    ∃ calls : List Call, (∀ c ∈ calls, c.InTime) ∧
      ¬(start config.times config.lease).Returns calls := by
  intro config
  have hdeadline : config.lease.deadline? .epoch (config.times.of .add) = none := by decide +kernel
  exact ⟨_, inTime_pair _ _ (by decide),
    not_returns_of_deadline? hdeadline ⟨⟨0⟩, fun n => ⟨.ofNat 128 n⟩⟩⟩

end Service

end Piecework
