/-
# Piecework.Proofs.Shift — what a worker on its own does, and when.

A worker goes round: it fetches, and if there is a task, it holds it for its operation time and reports.  The word to
stop comes from outside, by a flag or because nobody is left to set it, and it reaches the worker in the middle of a
round too, so the last round may be cut off.  When it comes at the very time of a report, of the end of a pause or of
the next fetch, then either may come first.  `Works` leaves that open, and the law of a shift (`Lawful`) holds
whichever way it goes.  The worker of this library always lets the word to stop come first, so its shifts are among
these (`exists_works`).

The source of tasks is any source: its answers are whatever they are, and the rounds replay them (`Replays`).  So is
the timer: how long a wait is to last is told by a span, and the timer tells its ticks.  With `Timer.exact` all times
are exact, with `Timer.millis` they are what ticks of a millisecond make of them.

A shift that is watched for so many rounds is either over, or has gone on for all of them.  On a script, it is over
within the rounds that `Script.rounds` counts, if it has a time to stop and pauses last (`Works.length_lt_rounds`).
-/
import Mathlib.Data.List.Chain
import Piecework.Worker.Script

namespace Piecework

/-! ## Rounds -/

/-- The report that is due on a task: the value of its operation, or why there is none. -/
def Assignment.due (a : Assignment) : Report :=
  match a.operation.apply a.left a.right with
  | .ok value => ⟨a.id, .completed, some value, none⟩
  | .error fault => ⟨a.id, .failed, none, some fault.message⟩

theorem Assignment.due_eq_ofOutcome (a : Assignment) : a.due = .ofOutcome a.id a.outcome := by
  unfold due outcome
  cases a.operation.apply a.left a.right <;> rfl

/-- What a worker does from one fetch to the next. -/
inductive Round (ε : Type) where
  /-- There was no task. -/
  | idle (time : Nat)
  /-- The fetch failed. -/
  | broken (time : Nat) (fault : ε)
  /-- A task was held and reported on.  The report was accepted, or refused with a fault. -/
  | finished (time : Nat) (task : Assignment) (refusal : Option ε)
  /-- A task was held until the word to stop came. -/
  | cut (time : Nat) (task : Assignment)

namespace Round

variable {ε : Type} (timer : Timer)

/-- The time of the fetch. -/
def begins : Round ε → Nat
  | .idle time | .broken time _ | .finished time .. | .cut time _ => time

/-- The time at which a whole round ends. -/
def ends? : Round ε → Option Nat
  | .idle time | .broken time _ => some time
  | .finished time a _ => some (time + timer.ticks a.duration)
  | .cut .. => none

/-- What the fetch was answered with. -/
def answer : Round ε → Except ε (Option Assignment)
  | .idle _ => .ok none
  | .broken _ fault => .error fault
  | .finished _ a _ | .cut _ a => .ok (some a)

/-- What is done to the source, and when. -/
def events : Round ε → List (Nat × WorkerEvent ε)
  | .idle time => [(time, .fetched none)]
  | .broken time fault => [(time, .fetchFailed fault)]
  | .finished time a _ => [(time, .fetched (some a)), (time + timer.ticks a.duration, .reported a.due)]
  | .cut time a => [(time, .fetched (some a))]

/-- Whether a report was accepted. -/
def isAccepted : Round ε → Bool
  | .finished _ _ none => true
  | _ => false

/-- The time between the end of a round and the next fetch. -/
def pause (shift : Shift) (r : Round ε) : Nat := if r.isAccepted then 0 else timer.ticks shift.poll

variable {timer}

theorem pause_of_idle {shift : Shift} {r : Round ε} (h : r.answer = .ok none) :
    r.pause timer shift = timer.ticks shift.poll := by
  cases r with
  | idle => rfl
  | broken | finished | cut => cases h

end Round

/-! ## Shifts -/

/-- The word to stop can have come by that time. -/
def Shift.Ends (shift : Shift) (time : Nat) : Prop := ∃ limit, shift.stop = some limit ∧ limit ≤ time

/-- The word to stop need not have come before that time. -/
def Shift.Allows (shift : Shift) (time : Nat) : Prop := ∀ limit, shift.stop = some limit → time ≤ limit

/-- That many accepted reports are not enough. -/
def Shift.Wants (shift : Shift) (accepted : Nat) : Prop := ∀ most, shift.enough = some most → accepted < most

theorem Shift.Allows.le {shift : Shift} {time earlier : Nat} (h : shift.Allows time) (hle : earlier ≤ time) :
    shift.Allows earlier :=
  fun limit hstop => Nat.le_trans hle (h limit hstop)

namespace Worker

section Works

variable {σ ε : Type} (source : TaskSource σ ε) (timer : Timer) (shift : Shift)

/-- The worker goes one whole round, and this is how it is at its end. -/
inductive WholeRound (w : Worker σ) : Round ε → Worker σ → Prop
  | idle (h : (source.fetch w.source).answer = .ok none) :
      WholeRound w (.idle w.clock) ⟨(source.fetch w.source).state, w.clock, w.accepted⟩
  | broken {fault : ε} (h : (source.fetch w.source).answer = .error fault) :
      WholeRound w (.broken w.clock fault) ⟨(source.fetch w.source).state, w.clock, w.accepted⟩
  | accepted {a : Assignment} (h : (source.fetch w.source).answer = .ok (some a))
      (haccepted : (source.report (source.fetch w.source).state a.due).answer = .ok ()) :
      WholeRound w (.finished w.clock a none)
        ⟨(source.report (source.fetch w.source).state a.due).state, w.clock + timer.ticks a.duration,
          w.accepted + 1⟩
  | refused {a : Assignment} {fault : ε} (h : (source.fetch w.source).answer = .ok (some a))
      (hrefused : (source.report (source.fetch w.source).state a.due).answer = .error fault) :
      WholeRound w (.finished w.clock a (some fault))
        ⟨(source.report (source.fetch w.source).state a.due).state, w.clock + timer.ticks a.duration,
          w.accepted⟩

/-- The rounds of a shift that is watched for so many rounds, and the worker behind them.  Where the word to stop
comes at the very time of something else, both orders are possible. -/
inductive Works : Nat → Worker σ → List (Round ε) → Worker σ → Prop
  /-- Nobody watches any longer. -/
  | unwatched (w : Worker σ) : Works 0 w [] w
  /-- The word to stop has come. -/
  | stopped {n : Nat} {w : Worker σ} (h : shift.Ends w.clock) : Works n w [] w
  /-- Enough reports have been accepted. -/
  | rested {n : Nat} {w : Worker σ} (h : ¬shift.Wants w.accepted) : Works n w [] w
  /-- The word to stop comes while a task is held. -/
  | cut {n : Nat} {w : Worker σ} {a : Assignment} {limit : Nat} (hwants : shift.Wants w.accepted)
      (hallows : shift.Allows w.clock) (h : (source.fetch w.source).answer = .ok (some a))
      (hstop : shift.stop = some limit) (hcut : limit ≤ w.clock + timer.ticks a.duration) :
      Works (n + 1) w [.cut w.clock a] ⟨(source.fetch w.source).state, limit, w.accepted⟩
  /-- The word to stop comes in the pause after a round. -/
  | paused {n : Nat} {w v : Worker σ} {r : Round ε} {limit : Nat} (hwants : shift.Wants w.accepted)
      (hround : WholeRound source timer w r v) (hallows : shift.Allows v.clock) (hstop : shift.stop = some limit)
      (hpaused : limit ≤ v.clock + r.pause timer shift) :
      Works (n + 1) w [r] { v with clock := limit }
  /-- The next round follows after the pause. -/
  | next {n : Nat} {w v later : Worker σ} {r : Round ε} {rest : List (Round ε)}
      (hwants : shift.Wants w.accepted) (hround : WholeRound source timer w r v)
      (hallows : shift.Allows (v.clock + r.pause timer shift))
      (hrest : Works n { v with clock := v.clock + r.pause timer shift } rest later) :
      Works (n + 1) w (r :: rest) later

end Works

/-! ## What the source answers -/

section Answers

variable {σ ε : Type} (source : TaskSource σ ε)

/-- The source in this state answers so: the fetch of the round, and its report if there is one. -/
def Answers (s : σ) : Round ε → Prop
  | .idle _ => (source.fetch s).answer = .ok none
  | .broken _ fault => (source.fetch s).answer = .error fault
  | .finished _ a none => (source.fetch s).answer = .ok (some a) ∧
      (source.report (source.fetch s).state a.due).answer = .ok ()
  | .finished _ a (some fault) => (source.fetch s).answer = .ok (some a) ∧
      (source.report (source.fetch s).state a.due).answer = .error fault
  | .cut _ a => (source.fetch s).answer = .ok (some a)

/-- The state of the source behind a round. -/
def leftBy (s : σ) : Round ε → σ
  | .finished _ a _ => (source.report (source.fetch s).state a.due).state
  | .idle _ | .broken .. | .cut .. => (source.fetch s).state

/-- The rounds are what the source answers, one after the other, and this is how they leave it. -/
def Replays : σ → List (Round ε) → σ → Prop
  | s, [], left => left = s
  | s, r :: rest, left => Answers source s r ∧ Replays (leftBy source s r) rest left

variable {source} {timer : Timer} {shift : Shift} {n : Nat} {w v later : Worker σ} {s : σ} {r : Round ε}
  {track : List (Round ε)}

theorem WholeRound.answers (h : WholeRound source timer w r v) :
    Answers source w.source r ∧ v.source = leftBy source w.source r := by
  cases h with
  | idle h => exact ⟨h, rfl⟩
  | broken h => exact ⟨h, rfl⟩
  | accepted h haccepted => exact ⟨⟨h, haccepted⟩, rfl⟩
  | refused h hrefused => exact ⟨⟨h, hrefused⟩, rfl⟩

/-- **Every shift replays what its source answers**, by induction on its rounds. -/
theorem Works.replays (h : Works source timer shift n w track later) :
    Replays source w.source track later.source := by
  induction h with
  | unwatched w => rfl
  | stopped h => rfl
  | rested h => rfl
  | cut _ _ h => exact ⟨h, rfl⟩
  | paused _ hround =>
    obtain ⟨hanswers, hleft⟩ := hround.answers
    exact ⟨hanswers, hleft⟩
  | next _ hround _ _ ih =>
    obtain ⟨hanswers, hleft⟩ := hround.answers
    exact ⟨hanswers, hleft ▸ ih⟩

theorem Answers.answer_eq (h : Answers source s r) : r.answer = (source.fetch s).answer := by
  cases r with
  | idle => exact h.symm
  | broken => exact h.symm
  | cut => exact h.symm
  | finished time a refusal =>
    cases refusal with
    | none => exact h.1.symm
    | some fault => exact h.1.symm

end Answers

/-! ## The law of a shift -/

section Law

variable {σ ε : Type} {source : TaskSource σ ε} {timer : Timer} {shift : Shift} {n : Nat}
  {w v later : Worker σ} {r : Round ε} {track rest : List (Round ε)}

/-- The law that the rounds of a shift keep. -/
structure Lawful (timer : Timer) (shift : Shift) (n : Nat) (w : Worker σ) (track : List (Round ε))
    (later : Worker σ) : Prop where
  /-- The first fetch comes at once. -/
  first : ∀ r ∈ track.head?, r.begins = w.clock
  /-- Every round before another one is whole, and the next fetch comes after the pause. -/
  next : track.IsChain fun r after => ∃ time, r.ends? timer = some time ∧ after.begins = time + r.pause timer shift
  /-- A round is cut off only if the word to stop comes no later than its report would. -/
  cut : ∀ time a, .cut time a ∈ track → shift.Ends (time + timer.ticks a.duration)
  /-- Nothing is done later than the time to stop. -/
  inTime : ∀ e ∈ track.flatMap (Round.events timer), shift.Allows e.1
  /-- The worker counts the accepted reports. -/
  counted : later.accepted = w.accepted + track.countP Round.isAccepted
  /-- Nothing is fetched once enough reports have been accepted. -/
  wanted : ∀ front r back, track = front ++ r :: back →
    shift.Wants (w.accepted + front.countP Round.isAccepted)
  /-- No more reports are accepted than are enough. -/
  enough : ∀ most, shift.enough = some most → w.accepted ≤ most → later.accepted ≤ most
  /-- A shift of fewer rounds than were watched is over. -/
  ended : track.length < n → shift.Ends later.clock ∨ ¬shift.Wants later.accepted

theorem WholeRound.begins (h : WholeRound source timer w r v) : r.begins = w.clock := by cases h <;> rfl

theorem WholeRound.ends? (h : WholeRound source timer w r v) : r.ends? timer = some v.clock := by cases h <;> rfl

theorem WholeRound.accepted_eq (h : WholeRound source timer w r v) :
    v.accepted = w.accepted + [r].countP Round.isAccepted := by cases h <;> rfl

theorem WholeRound.clock_le (h : WholeRound source timer w r v) : w.clock ≤ v.clock := by
  cases h <;> simp

theorem WholeRound.events_le (h : WholeRound source timer w r v) : ∀ e ∈ r.events timer, e.1 ≤ v.clock := by
  cases h <;> simp [Round.events]

theorem WholeRound.ne_cut (h : WholeRound source timer w r v) (time : Nat) (a : Assignment) : r ≠ .cut time a := by
  rintro rfl
  cases h

/-- No round at all. -/
theorem Lawful.nil (hover : 0 < n → shift.Ends w.clock ∨ ¬shift.Wants w.accepted) :
    Lawful timer shift n w ([] : List (Round ε)) w where
  first := by simp
  next := .nil
  cut := by simp
  inTime := by simp
  counted := rfl
  wanted := by simp
  enough := fun _ _ h => h
  ended := hover

/-- A last round, whole or cut off. -/
theorem Lawful.last (hwants : shift.Wants w.accepted) (hbegins : r.begins = w.clock)
    (hcut : ∀ time a, r = .cut time a → shift.Ends (time + timer.ticks a.duration))
    (hevents : ∀ e ∈ r.events timer, shift.Allows e.1)
    (hcounted : later.accepted = w.accepted + [r].countP Round.isAccepted) (hover : shift.Ends later.clock) :
    Lawful timer shift (n + 1) w [r] later where
  first := by simpa using hbegins
  next := .singleton r
  cut := fun time a hin => hcut time a (List.mem_singleton.mp hin).symm
  inTime := by simpa using hevents
  counted := hcounted
  wanted := by
    intro front s back hsplit
    rcases List.cons_eq_append_iff.mp hsplit with ⟨rfl, -⟩ | ⟨_, -, hrest⟩
    · exact hwants
    · simp at hrest
  enough := by
    intro most hmost _
    have := hwants most hmost
    have hone : [r].countP Round.isAccepted ≤ 1 := List.countP_le_length
    omega
  ended := fun _ => Or.inl hover

/-- A whole round in front of others. -/
theorem Lawful.cons (hwants : shift.Wants w.accepted) (hround : WholeRound source timer w r v)
    (hallows : shift.Allows (v.clock + r.pause timer shift))
    (h : Lawful timer shift n { v with clock := v.clock + r.pause timer shift } rest later) :
    Lawful timer shift (n + 1) w (r :: rest) later where
  first := by simpa using hround.begins
  next := by
    refine List.isChain_cons.mpr ⟨fun after hafter => ?_, h.next⟩
    exact ⟨v.clock, hround.ends?, h.first after hafter⟩
  cut := by
    intro time a hin
    rcases List.mem_cons.mp hin with heq | hin
    · exact absurd heq.symm (hround.ne_cut time a)
    · exact h.cut time a hin
  inTime := by
    intro e he
    rw [List.flatMap_cons, List.mem_append] at he
    rcases he with he | he
    · exact hallows.le (Nat.le_trans (hround.events_le e he) (Nat.le_add_right _ _))
    · exact h.inTime e he
  counted := by
    show later.accepted = w.accepted + ([r] ++ rest).countP Round.isAccepted
    rw [h.counted, hround.accepted_eq, List.countP_append, Nat.add_assoc]
  wanted := by
    intro front s back hsplit
    rcases List.cons_eq_append_iff.mp hsplit with ⟨rfl, -⟩ | ⟨front', rfl, hrest⟩
    · exact hwants
    · have hlater := h.wanted front' s back hrest
      rwa [hround.accepted_eq, Nat.add_assoc, ← List.countP_append, List.singleton_append] at hlater
  enough := by
    intro most hmost _
    refine h.enough most hmost ?_
    show v.accepted ≤ most
    have := hwants most hmost
    have hone : [r].countP Round.isAccepted ≤ 1 := List.countP_le_length
    rw [hround.accepted_eq]
    omega
  ended := fun hlt => h.ended (Nat.lt_of_succ_lt_succ hlt)

/-- **Every shift keeps the law**, by induction on its rounds. -/
theorem Works.lawful (h : Works source timer shift n w track later) : Lawful timer shift n w track later := by
  induction h with
  | unwatched w => exact .nil fun h => absurd h (Nat.lt_irrefl 0)
  | stopped h => exact .nil fun _ => Or.inl h
  | rested h => exact .nil fun _ => Or.inr h
  | cut hwants hallows h hstop hcut =>
    refine .last hwants rfl ?_ (by simpa [Round.events] using hallows) rfl ⟨_, hstop, le_rfl⟩
    rintro time a heq
    obtain ⟨rfl, rfl⟩ := Round.cut.inj heq
    exact ⟨_, hstop, hcut⟩
  | paused hwants hround hallows hstop hpaused =>
    exact .last hwants hround.begins (fun time a heq => absurd heq (hround.ne_cut time a))
      (fun e he => hallows.le (hround.events_le e he)) hround.accepted_eq ⟨_, hstop, le_rfl⟩
  | next hwants hround hallows _ ih => exact ih.cons hwants hround hallows

end Law

/-! ## The shifts of this library -/

section Own

variable {σ ε : Type} (source : TaskSource σ ε) (timer : Timer) {shift : Shift} {w : Worker σ}

theorem isOver_eq_true_iff {time : Nat} : isOver shift.stop time = true ↔ shift.Ends time := by
  simp [isOver, Shift.Ends, Option.any_eq_true]

theorem allows_of_not_isOver {time : Nat} (h : isOver shift.stop time = false) : shift.Allows time := by
  intro limit hstop
  rw [isOver, hstop, Option.any_some, decide_eq_false_iff_not] at h
  exact Nat.le_of_not_le h

/-- A wait that the word to stop does not cut short. -/
theorem wait_of_not_isOver {ticks : Nat} (h : isOver shift.stop (w.clock + ticks) = false) :
    w.wait shift.stop ticks = ⟨w.source, w.clock + ticks, w.accepted⟩ := by
  unfold wait
  cases hstop : shift.stop with
  | none => rfl
  | some limit =>
    have hle := allows_of_not_isOver h limit hstop
    simp only [Worker.mk.injEq, true_and, and_true]
    omega

/-- A wait that the word to stop cuts short. -/
theorem wait_of_stop {ticks limit : Nat} (hstop : shift.stop = some limit) (hallows : w.clock ≤ limit)
    (hle : limit ≤ w.clock + ticks) : w.wait shift.stop ticks = ⟨w.source, limit, w.accepted⟩ := by
  unfold wait
  rw [hstop]
  simp only [Worker.mk.injEq, true_and, and_true]
  omega

/-- A cycle is a whole round that is over before the word to stop, or it is cut off. -/
theorem cycle_spec (h : isOver shift.stop w.clock = false) :
    (∃ r, WholeRound source timer w r (cycle source shift.stop w timer).worker ∧
      (cycle source shift.stop w timer).events = r.events timer ∧
      (cycle source shift.stop w timer).answer.isProductive = r.isAccepted ∧
      isOver shift.stop (cycle source shift.stop w timer).worker.clock = false) ∨
    ∃ a limit, (source.fetch w.source).answer = .ok (some a) ∧ shift.stop = some limit ∧
      limit ≤ w.clock + timer.ticks a.duration ∧
      (cycle source shift.stop w timer).worker = ⟨(source.fetch w.source).state, limit, w.accepted⟩ ∧
      (cycle source shift.stop w timer).events = (Round.cut w.clock a : Round ε).events timer ∧
      (cycle source shift.stop w timer).answer.isProductive = false := by
  cases hanswer : (source.fetch w.source).answer with
  | error fault =>
    refine Or.inl ⟨.broken w.clock fault, ?_⟩
    simp only [cycle, hanswer]
    exact ⟨.broken hanswer, rfl, rfl, h⟩
  | ok task =>
    cases task with
    | none =>
      refine Or.inl ⟨.idle w.clock, ?_⟩
      simp only [cycle, hanswer]
      exact ⟨.idle hanswer, rfl, rfl, h⟩
    | some a =>
      cases hover : isOver shift.stop (w.clock + timer.ticks a.duration) with
      | true =>
        obtain ⟨limit, hstop, hle⟩ := isOver_eq_true_iff.mp hover
        refine Or.inr ⟨a, limit, rfl, hstop, hle, ?_⟩
        simp only [cycle, hanswer, compute, hover, if_true]
        exact ⟨wait_of_stop hstop (allows_of_not_isOver h limit hstop) hle, rfl, rfl⟩
      | false =>
        refine Or.inl ?_
        have hheld := wait_of_not_isOver (w := ⟨(source.fetch w.source).state, w.clock, w.accepted⟩) hover
        simp only [cycle, hanswer, compute, hover, Bool.false_eq_true, if_false, hheld, finish,
          ← Assignment.due_eq_ofOutcome]
        cases hreport : (source.report (source.fetch w.source).state a.due).answer with
        | ok =>
          refine ⟨.finished w.clock a none, .accepted hanswer hreport, rfl, ?_, hover⟩
          show (Cycle.ofOutcome a.id a.outcome).isProductive = true
          cases a.outcome <;> rfl
        | error fault => exact ⟨.finished w.clock a (some fault), .refused hanswer hreport, rfl, rfl, hover⟩

/-- The worker at the next look for the word to stop, after a cycle. -/
def behind (timer : Timer) (shift : Shift) (deed : Deed σ ε (Cycle ε)) : Worker σ :=
  if deed.answer.isProductive then deed.worker else deed.worker.wait shift.stop (timer.ticks shift.poll)

theorem work_of_isOver (rounds : Nat) (h : isOver shift.stop w.clock = true) :
    work source shift rounds w timer = ⟨(), w, [], []⟩ := by
  cases rounds with
  | zero => rfl
  | succ rounds => simp only [work, h, if_true]

theorem work_of_not_wants (rounds : Nat) (hwants : ¬shift.Wants w.accepted) :
    (work source shift rounds w timer).worker = w ∧ (work source shift rounds w timer).events = [] := by
  obtain ⟨most, hmost, hle⟩ : ∃ most, shift.enough = some most ∧ most ≤ w.accepted := by
    simpa [Shift.Wants] using hwants
  cases rounds with
  | zero => exact ⟨rfl, rfl⟩
  | succ rounds =>
    simp only [work, hmost, Option.filter, hle, decide_true, if_true]
    split <;> exact ⟨rfl, rfl⟩

theorem work_succ (rounds : Nat) (h : isOver shift.stop w.clock = false) (hwants : shift.Wants w.accepted) :
    (work source shift (rounds + 1) w timer).worker
        = (work source shift rounds (behind timer shift (cycle source shift.stop w timer)) timer).worker ∧
      (work source shift (rounds + 1) w timer).events = (cycle source shift.stop w timer).events
        ++ (work source shift rounds (behind timer shift (cycle source shift.stop w timer)) timer).events := by
  have hnone : shift.enough.filter (· ≤ w.accepted) = none := by
    refine Option.filter_eq_none_iff.mpr fun most hmost => ?_
    simpa using hwants most hmost
  simp only [work, h, hnone, Bool.false_eq_true, if_false]
  exact ⟨rfl, rfl⟩

/-- The word to stop has come in the pause, or before it. -/
theorem behind_of_stop {deed : Deed σ ε (Cycle ε)} {limit : Nat} (hproductive : deed.answer.isProductive = false)
    (hstop : shift.stop = some limit) (hallows : deed.worker.clock ≤ limit)
    (hle : limit ≤ deed.worker.clock + timer.ticks shift.poll) :
    behind timer shift deed = ⟨deed.worker.source, limit, deed.worker.accepted⟩ := by
  rw [behind, hproductive, if_neg Bool.false_ne_true]
  exact wait_of_stop hstop hallows hle

/-- Behind a whole round, the pause is over, or the word to stop has come in it. -/
theorem behind_cases {deed : Deed σ ε (Cycle ε)} {r : Round ε}
    (hproductive : deed.answer.isProductive = r.isAccepted)
    (hend : isOver shift.stop deed.worker.clock = false) :
    (shift.Allows (deed.worker.clock + r.pause timer shift) ∧
      behind timer shift deed
        = ⟨deed.worker.source, deed.worker.clock + r.pause timer shift, deed.worker.accepted⟩) ∨
    ∃ limit, shift.stop = some limit ∧ limit ≤ deed.worker.clock + r.pause timer shift ∧
      behind timer shift deed = ⟨deed.worker.source, limit, deed.worker.accepted⟩ := by
  cases haccepted : r.isAccepted with
  | true =>
    have hpause : r.pause timer shift = 0 := by rw [Round.pause, haccepted]; rfl
    rw [hpause, behind, hproductive.trans haccepted, if_pos rfl]
    exact Or.inl ⟨allows_of_not_isOver hend, rfl⟩
  | false =>
    have hpause : r.pause timer shift = timer.ticks shift.poll := by rw [Round.pause, haccepted]; rfl
    rw [hpause]
    cases hover : isOver shift.stop (deed.worker.clock + timer.ticks shift.poll) with
    | true =>
      obtain ⟨limit, hstop, hle⟩ := isOver_eq_true_iff.mp hover
      exact Or.inr ⟨limit, hstop, hle,
        behind_of_stop timer (hproductive.trans haccepted) hstop (allows_of_not_isOver hend limit hstop) hle⟩
    | false =>
      refine Or.inl ⟨allows_of_not_isOver hover, ?_⟩
      rw [behind, hproductive.trans haccepted, if_neg Bool.false_ne_true]
      exact wait_of_not_isOver hover

/-- The worker of this library works such a shift, and fetches only before the time to stop. -/
theorem exists_works (rounds : Nat) :
    ∃ track, Works source timer shift rounds w track (work source shift rounds w timer).worker ∧
      (work source shift rounds w timer).events = track.flatMap (Round.events timer) ∧
      ∀ r ∈ track, isOver shift.stop r.begins = false := by
  induction rounds generalizing w with
  | zero => exact ⟨[], .unwatched w, rfl, by simp⟩
  | succ rounds ih =>
    cases hover : isOver shift.stop w.clock with
    | true =>
      rw [work_of_isOver source timer _ hover]
      exact ⟨[], .stopped (isOver_eq_true_iff.mp hover), rfl, by simp⟩
    | false =>
      by_cases hwants : shift.Wants w.accepted
      case neg =>
        obtain ⟨hworker, hevents⟩ := work_of_not_wants source timer (rounds + 1) hwants
        rw [hworker, hevents]
        exact ⟨[], .rested hwants, rfl, by simp⟩
      case pos =>
        obtain ⟨hworker, hevents⟩ := work_succ source timer rounds hover hwants
        rw [hworker, hevents]
        -- Once the word to stop has come, nothing follows.
        have hlast : ∀ {limit s accepted}, shift.stop = some limit →
            work source shift rounds ⟨s, limit, accepted⟩ timer = ⟨(), ⟨s, limit, accepted⟩, [], []⟩ :=
          fun hstop => work_of_isOver source timer rounds (isOver_eq_true_iff.mpr ⟨_, hstop, le_rfl⟩)
        rcases cycle_spec source timer hover with
          ⟨r, hround, hdone, hproductive, hend⟩ | ⟨a, limit, hanswer, hstop, hle, hcut, hdone, hproductive⟩
        · have hbegins : isOver shift.stop r.begins = false := hround.begins ▸ hover
          rcases behind_cases timer hproductive hend with ⟨hallows, hbehind⟩ | ⟨limit, hstop, hle, hbehind⟩
          · obtain ⟨track, hworks, htrack, hbefore⟩ :=
              ih (w := behind timer shift (cycle source shift.stop w timer))
            refine ⟨r :: track, .next hwants hround hallows (hbehind ▸ hworks), ?_, ?_⟩
            · rw [hdone, htrack, List.flatMap_cons]
            · exact List.forall_mem_cons.mpr ⟨hbegins, hbefore⟩
          · rw [hbehind, hlast hstop, hdone]
            exact ⟨[r], .paused hwants hround (allows_of_not_isOver hend) hstop hle, by simp,
              List.forall_mem_singleton.mpr hbegins⟩
        · have hclock : (cycle source shift.stop w timer).worker.clock = limit := by rw [hcut]
          rw [behind_of_stop timer hproductive hstop (Nat.le_of_eq hclock) (by omega), hlast hstop, hdone, hcut]
          exact ⟨[.cut w.clock a], .cut hwants (allows_of_not_isOver hover) hanswer hstop hle, by simp,
            List.forall_mem_singleton.mpr hover⟩

end Own

/-! ## Shifts on a script -/

section Script

variable {timer : Timer} {shift : Shift} {n : Nat} {w v later : Worker Script} {s left : Script}
  {r : Round String} {track : List (Round String)}

/-- Whether the round has a report on the task. -/
def isReportOn (id : TaskId) : Round String → Bool
  | .finished _ a _ => a.id = id
  | .idle _ | .broken .. | .cut .. => false

/-- The rounds follow the script, and leave what they have not come to. -/
structure Follows (s : Script) (track : List (Round String)) (left : Script) : Prop where
  /-- The fetches are answered with what the script lists, and then there is no task. -/
  answers : ∀ i r, track[i]? = some r → r.answer = s.answers.getD i (.ok none)
  /-- The reports on a task are refused that the script refuses, counted for each task. -/
  refusals : ∀ front time a refusal back, track = front ++ .finished time a refusal :: back →
    refusal = s.refusal a.id (front.countP (isReportOn a.id))
  left : left = ⟨s.answers.drop track.length, fun id k => s.refusal id (track.countP (isReportOn id) + k)⟩

theorem fetch_script (s : Script) :
    (Script.source.fetch s).answer = s.answers.headD (.ok none) ∧
      (Script.source.fetch s).state = ⟨s.answers.tail, s.refusal⟩ := by
  obtain ⟨answers, refusal⟩ := s
  cases answers <;> exact ⟨rfl, rfl⟩

theorem report_script (s : Script) (a : Assignment) :
    ((Script.source.report s a.due).answer = .ok () ↔ s.refusal a.id 0 = none) ∧
      (∀ reason, (Script.source.report s a.due).answer = .error reason ↔ s.refusal a.id 0 = some reason) ∧
      (Script.source.report s a.due).state = s.behindReport a.id := by
  have htask : a.due.task = a.id := by
    unfold Assignment.due
    split <;> rfl
  simp only [Script.source, Turn.look, htask]
  cases s.refusal a.id 0 <;> simp

/-- The source answers a round with what stands first in the script. -/
theorem answers_script (h : Answers Script.source s r) :
    r.answer = s.answers.headD (.ok none) ∧
      ∀ time a refusal, r = .finished time a refusal → refusal = s.refusal a.id 0 := by
  refine ⟨h.answer_eq.trans (fetch_script s).1, ?_⟩
  rintro time a refusal rfl
  obtain ⟨hok, herror, -⟩ := report_script (Script.source.fetch s).state a
  rw [(fetch_script s).2] at hok herror
  cases refusal with
  | none => exact (hok.mp ((fetch_script s).2 ▸ h.2)).symm
  | some fault => exact ((herror fault).mp ((fetch_script s).2 ▸ h.2)).symm

/-- A round uses an answer up, and its report one of the refusals for its task. -/
theorem leftBy_script (s : Script) (r : Round String) :
    leftBy Script.source s r
      = ⟨s.answers.tail, fun id k => s.refusal id ([r].countP (isReportOn id) + k)⟩ := by
  have hfetch := (fetch_script s).2
  cases r with
  | idle | broken | cut =>
    show (Script.source.fetch s).state = _
    rw [hfetch]
    simp [isReportOn]
  | finished time a refusal =>
    obtain ⟨-, -, hreport⟩ := report_script (Script.source.fetch s).state a
    rw [leftBy, hreport, hfetch, Script.behindReport]
    congr 1
    funext id k
    by_cases hid : id = a.id
    · simp [isReportOn, hid, Nat.add_comm]
    · simp [isReportOn, hid, Ne.symm hid]

/-- The round that a worker goes with a task that the script lists first. -/
theorem wholeRound_script (answers : List (Except String (Option Assignment))) (refusal : TaskId → Refusals)
    (clock accepted : Nat) (a : Assignment) :
    WholeRound Script.source timer ⟨⟨.ok (some a) :: answers, refusal⟩, clock, accepted⟩
      (.finished clock a (refusal a.id 0))
      ⟨(⟨answers, refusal⟩ : Script).behindReport a.id, clock + timer.ticks a.duration,
        if refusal a.id 0 = none then accepted + 1 else accepted⟩ := by
  obtain ⟨hok, herror, hstate⟩ := report_script ⟨answers, refusal⟩ a
  rw [← hstate]
  cases hrefusal : refusal a.id 0 with
  | none => exact .accepted rfl (hok.mpr hrefusal)
  | some reason => exact .refused rfl ((herror reason).mpr hrefusal)

/-- **What the source of a script answers follows the script**, by induction on the rounds. -/
theorem Replays.follows (h : Replays Script.source s track left) : Follows s track left := by
  induction track generalizing s with
  | nil =>
    obtain rfl : left = s := h
    exact ⟨by simp, by simp, by simp⟩
  | cons r rest ih =>
    obtain ⟨hanswers, hrest⟩ := h
    obtain ⟨hanswer, hrefusal⟩ := answers_script hanswers
    have hlater := ih hrest
    rw [leftBy_script] at hlater
    have hcount (id : TaskId) (rounds : List (Round String)) : (r :: rounds).countP (isReportOn id)
        = [r].countP (isReportOn id) + rounds.countP (isReportOn id) := by
      rw [← List.countP_append, List.singleton_append]
    refine ⟨?_, ?_, ?_⟩
    · intro i r' hi
      cases i with
      | zero =>
        obtain rfl := Option.some.inj hi
        rw [hanswer]
        cases s.answers <;> rfl
      | succ i =>
        rw [hlater.answers i r' hi]
        cases s.answers <;> simp
    · intro front time a refusal back hsplit
      rcases List.cons_eq_append_iff.mp hsplit with ⟨rfl, heq⟩ | ⟨front', rfl, hback⟩
      · exact hrefusal time a refusal (List.cons.inj heq).1.symm
      · rw [hlater.refusals front' time a refusal back hback, hcount]
    · rw [hlater.left, List.drop_tail]
      congr 1
      funext id k
      rw [hcount id rest, Nat.add_assoc]

/-- Each round uses an answer up or takes time, so a shift with a time to stop and pauses that last is over after
finitely many rounds. -/
theorem Works.length_le (h : Works Script.source timer shift n w track later) {limit : Nat}
    (hstop : shift.stop = some limit) (hpoll : 0 < timer.ticks shift.poll) :
    track.length ≤ w.source.answers.length + (limit - w.clock) + 1 := by
  induction h with
  | unwatched w => exact Nat.zero_le _
  | stopped h => exact Nat.zero_le _
  | rested h => exact Nat.zero_le _
  | cut => exact Nat.le_add_left _ _
  | paused => exact Nat.le_add_left _ _
  | @next n w v later r rest hwants hround hallows _ ih =>
    obtain ⟨hanswers, hleft⟩ := hround.answers
    obtain ⟨hanswer, -⟩ := answers_script hanswers
    have hclock := hround.clock_le
    have hlimit := hallows limit hstop
    rw [hleft, leftBy_script] at ih
    change rest.length ≤ w.source.answers.tail.length + (limit - (v.clock + r.pause timer shift)) + 1 at ih
    rw [List.length_cons]
    cases hlist : w.source.answers with
    | nil =>
      rw [hlist] at ih hanswer
      rw [Round.pause_of_idle hanswer] at ih hlimit
      simp only [List.tail_nil, List.length_nil] at ih ⊢
      omega
    | cons answer answers =>
      rw [hlist, List.tail_cons] at ih
      rw [List.length_cons]
      omega

/-- On a script, so many rounds are enough. -/
theorem Works.length_lt_rounds (h : Works Script.source timer shift n (.start s) track later)
    (hstop : shift.stop ≠ none) (hpoll : 0 < timer.ticks shift.poll) : track.length < s.rounds shift := by
  obtain ⟨limit, hlimit⟩ := Option.ne_none_iff_exists'.mp hstop
  have hlength := h.length_le hlimit hpoll
  rw [Script.rounds, hlimit, Option.getD_some]
  change track.length ≤ s.answers.length + (limit - 0) + 1 at hlength
  omega

/-- **What a worker on its own does, and when.**  For every source of tasks, whatever it answers, for all pauses, for
all numbers of reports that are enough and all times to stop, by every timer, and whichever of two things comes first
that come at the same time: the rounds replay what the source answers and keep the law of a shift.  The worker of this
library works such a shift; what it does to its source are the events of its rounds, and it fetches only before the
time to stop.  On a script the rounds follow the script, and with a time to stop and pauses that last, the rounds that
a script is watched for are enough to see the end. -/
theorem shift_lawful (timer : Timer) (shift : Shift) (n : Nat) :
    (∀ {σ ε : Type} (source : TaskSource σ ε) (s : σ),
      (∀ track later, Works source timer shift n (.start s) track later →
        Lawful timer shift n (.start s) track later ∧ Replays source s track later.source) ∧
      ∃ track, Works source timer shift n (.start s) track (run source shift n (.start s) timer).worker ∧
        (run source shift n (.start s) timer).events = track.flatMap (Round.events timer) ∧
        ∀ r ∈ track, isOver shift.stop r.begins = false) ∧
    ∀ (s : Script) track later, Works Script.source timer shift n (.start s) track later →
      Follows s track later.source ∧
        (shift.stop ≠ none → 0 < timer.ticks shift.poll → track.length < s.rounds shift) :=
  ⟨fun source _ => ⟨fun _ _ h => ⟨h.lawful, h.replays⟩, exists_works source timer n⟩,
    fun _ _ _ h => ⟨h.replays.follows, h.length_lt_rounds⟩⟩

/-- The first report on a task is refused, and the task comes again.  The second report is due at the very time to
stop.  Either it is sent, or the task is cut off, as the worker of this library does.  All of this happens within a
hundred nanoseconds. -/
theorem shift_lawful_tie :
    let a : Assignment := ⟨⟨1⟩, ⟨0⟩, .divide, 6, 3, .ofNanos 30⟩
    let s : Script := ⟨[.ok none, .ok (some a), .ok (some a)], fun _ k => if k = 0 then some "busy" else none⟩
    let shift : Shift := ⟨.ofNanos 5, some 2, some 70⟩
    let track : List (Round String) := [.idle 0, .finished 5 a (some "busy"), .finished 40 a none]
    let later : Worker Script := ⟨((⟨[], s.refusal⟩ : Script).behindReport a.id).behindReport a.id, 70, 1⟩
    Works Script.source .exact shift 9 (.start s) track later ∧
      Lawful .exact shift 9 (.start s) track later ∧ Replays Script.source s track later.source ∧
      Follows s track later.source ∧ track.length < s.rounds shift ∧
      (run Script.source shift 9 (.start s) .exact).events
        = [.idle 0, .finished 5 a (some "busy"), .cut 40 a].flatMap (Round.events .exact) := by
  intro a s shift track later
  have hwants : ∀ accepted, accepted < 2 → shift.Wants accepted := fun _ hlt _ heq => Option.some.inj heq ▸ hlt
  have hallows : ∀ time, time ≤ 70 → shift.Allows time := fun _ hle _ heq => Option.some.inj heq ▸ hle
  have hworks : Works Script.source .exact shift 9 (.start s) track later := by
    refine .next (hwants 0 (by decide)) (.idle rfl) (hallows 5 (by decide)) ?_
    refine .next (hwants 0 (by decide)) (wholeRound_script _ _ _ _ a) (hallows 40 (by decide)) ?_
    refine .next (hwants 0 (by decide)) (wholeRound_script _ _ _ _ a) (hallows 70 (by decide)) ?_
    exact .stopped ⟨70, rfl, by decide⟩
  obtain ⟨hevery, hscript⟩ := shift_lawful .exact shift 9
  obtain ⟨hlawful, hreplays⟩ := (hevery Script.source s).1 track later hworks
  obtain ⟨hfollows, hlength⟩ := hscript s track later hworks
  exact ⟨hworks, hlawful, hreplays, hfollows, hlength (by decide) (by decide), by decide +kernel⟩

end Script

end Worker

end Piecework
