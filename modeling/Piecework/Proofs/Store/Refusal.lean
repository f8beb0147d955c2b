/-
# Piecework.Proofs.Store.Refusal — what is refused leaves no trace.

A batch is entered task by task, and a report is written down before the owner of the task is looked for.  So
it takes more than a glance to see that no fault comes after something has been written.  Batches need not be
fresh here: whoever brings one may have set the state of its expression and of its tasks, their results and
leases, at will.  All that is needed of the tables is that they agree with each other: then the owner of every
task is found (`Arises.owner_found`), and every fault of a report comes before the first write.
-/
import Piecework.Proofs.Store.Tables

namespace Piecework.Store

variable {s : Store} {b : Tables}

/-! ## Any use -/

/-- What any use makes of an empty store and of empty tables that are asked the same.  Batches come as they
are. -/
inductive Arises : Store → Tables → Prop
  | empty : Arises .empty .empty
  | put {s : Store} {b : Tables} (e : Expression) (tasks : List Task) :
      Arises s b → Arises (s.put e tasks).2 (b.put e tasks).2
  | claim {s : Store} {b : Tables} {select : Selector} (policy : LeasePolicy) (now : Instant) :
      Arises s b → select.Lawful →
        Arises (s.claim select policy now).2 (b.claim select policy now).2
  | report {s : Store} {b : Tables} (id : TaskId) (o : Outcome) (now : Instant) :
      Arises s b → Arises (s.report id o now).2 (b.report id o now).2
  | reap {s : Store} {b : Tables} (now : Instant) : Arises s b → Arises (s.reap now).2 (b.reap now).2

namespace Arises

/-- The tables of the store agree, however the batches came, and the other tables hold the same. -/
theorem represents (h : Arises s b) : Sound s ∧ Represents b s := by
  induction h with
  | empty => exact ⟨.empty, .empty⟩
  | @put s b e tasks _ ih =>
    obtain ⟨hs, hb⟩ := ih
    exact ⟨(put_path s e tasks).sound hs, (hb.put hs e tasks).2⟩
  | @claim s b select policy now _ hl ih =>
    obtain ⟨hs, hb⟩ := ih
    exact ⟨(claim_path s hl policy now).sound hs, (hb.claim hs hl policy now).2⟩
  | @report s b id o now _ ih =>
    obtain ⟨hs, hb⟩ := ih
    exact ⟨(report_path hs id o now).sound hs, (hb.report hs id o now).2⟩
  | @reap s b now _ ih =>
    obtain ⟨hs, hb⟩ := ih
    exact ⟨(reap_path hs now).sound hs, (hb.reap hs now).2⟩

/-- Whoever has written a task down as ended finds its owner. -/
theorem owner_found (h : Arises s b) {id : TaskId} {t ended : Task} {o : Outcome}
    (ht : b.tasks id = some t) (hr : t.record o = .ok ended) :
    ∃ e, ((b.modify id fun _ => ended).close id).expressions ended.owner = some e := by
  obtain ⟨hs, hb⟩ := h.represents
  have howner : ended.owner = t.owner := by
    unfold Task.record at hr
    split at hr
    · cases hr
    · obtain rfl := Except.ok.inj hr
      exact (ended_keeps t o).2.2.1
  have hkept : ((b.modify id fun _ => ended).close id).expressions = b.expressions := by
    unfold Tables.close
    split <;> rfl
  rw [hb.tasks] at ht
  obtain ⟨e, he, -⟩ := hs.listed ht
  exact ⟨e, by rw [hkept, howner, hb.expressions, he]⟩

end Arises

/-! ## Answers that are refusals -/

/-- If the answer is a refusal, everything is as it was before. -/
def Untouched {σ α : Type} (before : σ) (turn : Except StoreFault α × σ) : Prop :=
  ∀ fault, turn.1 = .error fault → turn.2 = before

section Untouched

variable {σ α : Type} {before : σ}

theorem untouched_same (answer : Except StoreFault α) : Untouched before (answer, before) :=
  fun _ _ => rfl

theorem untouched_ok (a : α) (later : σ) : Untouched before (Except.ok a, later) :=
  fun _ h => absurd h (by simp)

end Untouched

theorem untouched_put (s : Store) (e : Expression) (tasks : List Task) :
    Untouched s (s.put e tasks) := by
  rcases put_cases s e tasks with ⟨fault, hput⟩ | ⟨-, hput⟩ <;> rw [hput]
  · exact untouched_same _
  · exact untouched_ok _ _

theorem untouched_claim (s : Store) (select : Selector) (policy : LeasePolicy) (now : Instant) :
    Untouched s (s.claim select policy now) := by
  rcases claim_cases s select policy now with ⟨answer, hclaim, -⟩ | ⟨t, a, deadline, -, -, -, hclaim⟩ <;>
    rw [hclaim]
  · exact untouched_same _
  · exact untouched_ok _ _

theorem untouched_report (h : Sound s) (id : TaskId) (o : Outcome) (now : Instant) :
    Untouched s (s.report id o now) := by
  rcases report_cases h id o now with ⟨fault, hreport⟩ | ⟨t, status, -, -, hreport⟩ <;> rw [hreport]
  · exact untouched_same _
  · exact untouched_ok _ _

namespace Tables

theorem untouched_put (b : Tables) (e : Expression) (tasks : List Task) :
    Untouched b (b.put e tasks) := by
  unfold put
  cases b.refusal e tasks with
  | some fault => exact untouched_same _
  | none => exact untouched_ok _ _

theorem untouched_claim (b : Tables) (select : Selector) (policy : LeasePolicy) (now : Instant) :
    Untouched b (b.claim select policy now) := by
  unfold claim
  cases select b.candidates with
  | none => exact untouched_same _
  | some t =>
    dsimp only
    cases b.assignment t with
    | error fault => exact untouched_same _
    | ok a =>
      dsimp only
      cases policy.deadline? now t.duration with
      | none => exact untouched_same _
      | some deadline => exact untouched_ok _ _

/-- A task whose owner is found is settled, whatever its outcome. -/
theorem settle_of_found {t : Task} {e : Expression} (he : b.expressions t.owner = some e)
    (now : Instant) : ∃ status later, b.settle t now = (.ok status, later) := by
  rw [settle, he]
  exact ⟨_, _, rfl⟩

/-- A report is refused before anything is written, or accepted. -/
theorem report_cases (h : Arises s b) (id : TaskId) (o : Outcome) (now : Instant) :
    b.report id o now = (.error (.unknownTask id), b) ∨
      (∃ fault, b.report id o now = (.error (.ended fault), b)) ∨
      ∃ status later, b.report id o now = (.ok status, later) := by
  unfold report
  cases ht : b.tasks id with
  | none => exact Or.inl rfl
  | some t =>
    dsimp only
    cases hr : t.record o with
    | error fault => exact Or.inr (Or.inl ⟨fault, rfl⟩)
    | ok ended =>
      obtain ⟨e, he⟩ := h.owner_found ht hr
      exact Or.inr (Or.inr (settle_of_found he now))

theorem untouched_report (h : Arises s b) (id : TaskId) (o : Outcome) (now : Instant) :
    Untouched b (b.report id o now) := by
  rcases report_cases h id o now with hreport | ⟨fault, hreport⟩ | ⟨status, later, hreport⟩ <;>
    rw [hreport]
  · exact untouched_same _
  · exact untouched_same _
  · exact untouched_ok _ _

end Tables

/-! ## What is refused leaves no trace -/

/-- **What is refused leaves no trace.**  After any use, with batches in any state, accepted or not: when a
batch, a claim or a report is refused, for whatever reason, the store is what it was, and so are all six tables
of its indexes.  The one lookup that comes after a write does not fail, since the owner of every task is
there, and no report is answered with an expression that is not known. -/
theorem refused_leaves_no_trace (h : Arises s b) :
    (∀ e tasks, Untouched s (s.put e tasks) ∧ Untouched b (b.put e tasks)) ∧
      (∀ select policy now,
        Untouched s (s.claim select policy now) ∧ Untouched b (b.claim select policy now)) ∧
      (∀ id o now, Untouched s (s.report id o now) ∧ Untouched b (b.report id o now)) ∧
      (∀ id t o ended, b.tasks id = some t → t.record o = .ok ended →
        ∃ e, ((b.modify id fun _ => ended).close id).expressions ended.owner = some e) ∧
      ∀ id o now x, (b.report id o now).1 ≠ .error (.unknownExpression x) := by
  refine ⟨fun e tasks => ⟨untouched_put s e tasks, b.untouched_put e tasks⟩,
    fun select policy now => ⟨untouched_claim s select policy now, b.untouched_claim select policy now⟩,
    fun id o now => ⟨untouched_report h.represents.1 id o now, Tables.untouched_report h id o now⟩,
    fun id t o ended ht hr => h.owner_found ht hr, ?_⟩
  intro id o now x
  rcases Tables.report_cases h id o now with hreport | ⟨fault, hreport⟩ | ⟨status, later, hreport⟩ <;>
    simp [hreport]

/-- A task that came as completed but without result blocks nobody and gives nothing: the claim of the task
behind it is refused, and so is a report on it, and the tables stay as they are. -/
theorem refused_leaves_no_trace_preset :
    let first : Task :=
      { Task.fresh ⟨1⟩ ⟨0⟩ .multiply (.literal 2) (.literal 3) (.ofMillis 1) .epoch with
        status := .completed }
    let second : Task := .fresh ⟨2⟩ ⟨0⟩ .subtract (.output ⟨1⟩) (.literal 1) (.ofMillis 1) .epoch
    let b := (Tables.empty.put (.fresh ⟨0⟩ "2*3-1" [⟨1⟩, ⟨2⟩] .epoch) [first, second]).2
    (b.claim .oldest .standard .epoch).1 = .error (.resultMissing ⟨1⟩) ∧
      (b.claim .oldest .standard .epoch).2 = b ∧
      (b.report ⟨1⟩ (.completed 6) .epoch).1 = .error (.ended ⟨⟨1⟩, .completed⟩) ∧
      (b.report ⟨1⟩ (.completed 6) .epoch).2 = b := by
  intro first second b
  obtain ⟨-, hclaim, hreport, -, -⟩ := refused_leaves_no_trace
    (Arises.empty.put (.fresh ⟨0⟩ "2*3-1" [⟨1⟩, ⟨2⟩] .epoch) [first, second])
  have hmissing : (b.claim .oldest .standard .epoch).1 = .error (.resultMissing ⟨1⟩) := by
    decide +kernel
  have hended : (b.report ⟨1⟩ (.completed 6) .epoch).1 = .error (.ended ⟨⟨1⟩, .completed⟩) := by
    decide +kernel
  exact ⟨hmissing, (hclaim _ _ _).2 _ hmissing, hended, (hreport _ _ _).2 _ hended⟩

end Piecework.Store
