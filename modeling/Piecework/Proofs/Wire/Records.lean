/-
# Piecework.Proofs.Wire.Records — what tasks, expressions and reports become on the wire.

Identities, operations, statuses, instants and operands are carried as themselves, doubles as `Json.carried`
says, and spans without what they have beside whole milliseconds (`Span.truncated`).  So an assignment arrives
with its operands carried and its time truncated (`carries_assignment`), and a report with its result carried
(`carries_report`).  Where every result arrives as it is, expressions do so too (`carries_expression`), and so do
tasks and views up to the times of the tasks (`carries_task`, `carries_view`): their operands are texts, and say
exactly what they are.
-/
import Piecework.Proofs.Argument
import Piecework.Proofs.Instant
import Piecework.Proofs.Json.Float
import Piecework.Proofs.Json.List
import Piecework.Wire.Exchange

namespace Piecework

/-! ## Whole milliseconds -/

namespace Span

variable {s : Span}

/-- What the wire format keeps of a span: whole milliseconds, counted in a 64-bit word. -/
def truncated (s : Span) : Span := .ofMillis s.toNat

/-- The span is a number of whole milliseconds that a 64-bit word holds. -/
def IsWhole (s : Span) : Prop := s.nanos % 1000000 = 0 ∧ s.nanos < 2 ^ 64 * 1000000

@[simp]
theorem nanos_truncated (s : Span) : s.truncated.nanos = s.nanos / 1000000 % 2 ^ 64 * 1000000 :=
  nanos_ofMillis _

protected theorem ext_iff {a b : Span} : a = b ↔ a.nanos = b.nanos := by
  cases a
  cases b
  simp

theorem isWhole_ofMillis (n : Nat) : (ofMillis n).IsWhole := by
  simp only [IsWhole, nanos_ofMillis]
  omega

/-- Exactly the whole milliseconds are kept. -/
theorem truncated_eq_self_iff : s.truncated = s ↔ s.IsWhole := by
  rw [Span.ext_iff, nanos_truncated, IsWhole]
  omega

end Span

/-- An assignment with its time truncated. -/
def Assignment.truncated (a : Assignment) : Assignment := { a with duration := a.duration.truncated }

/-- A task with its time truncated. -/
def Task.truncated (t : Task) : Task := { t with duration := t.duration.truncated }

/-- A view with the times of its tasks truncated. -/
def View.truncated (v : View) : View := { v with tasks := v.tasks.map Task.truncated }

theorem Assignment.truncated_eq_self {a : Assignment} (h : a.duration.IsWhole) : a.truncated = a := by
  rw [truncated, Span.truncated_eq_self_iff.mpr h]

theorem Task.truncated_eq_self {t : Task} (h : t.duration.IsWhole) : t.truncated = t := by
  rw [truncated, Span.truncated_eq_self_iff.mpr h]

theorem View.truncated_eq_self {v : View} (h : ∀ t ∈ v.tasks, t.duration.IsWhole) : v.truncated = v := by
  have htasks : v.tasks.map Task.truncated = v.tasks.map id :=
    List.map_congr_left fun t ht => Task.truncated_eq_self (h t ht)
  rw [truncated, htasks, List.map_id]

namespace Wire

open Json (Codec Member carried)

/-! ## Scalars -/

theorem carries_taskId (id : TaskId) : taskId.Carries id id :=
  Json.Codec.carries_text (by rw [TaskId.ofText_text]; rfl)

theorem carries_expressionId (id : ExpressionId) : expressionId.Carries id id :=
  Json.Codec.carries_text (by rw [ExpressionId.ofText_text]; rfl)

theorem carries_operation (o : Operation) : operation.Carries o o :=
  Json.Codec.carries_choice (by cases o <;> decide)

theorem carries_reportStatus (s : ReportStatus) : reportStatus.Carries s s :=
  Json.Codec.carries_choice (by cases s <;> decide)

theorem carries_taskStatus (s : TaskStatus) : taskStatus.Carries s s :=
  Json.Codec.carries_choice (by cases s <;> decide)

theorem carries_expressionStatus (s : ExpressionStatus) : expressionStatus.Carries s s :=
  Json.Codec.carries_choice (by cases s <;> decide)

theorem carries_span (s : Span) : span.Carries s s.truncated := by
  intro rest hrest
  simp only [span]
  rw [Json.Codec.carries_word (.ofNat s.toNat) rest hrest]
  have hword : Span.ofMillis (UInt64.ofNat s.toNat).toNat = s.truncated := by
    rw [Span.ext_iff, Span.nanos_ofMillis, Span.truncated, Span.nanos_ofMillis, UInt64.toNat_ofNat', Nat.mod_mod]
  exact congrArg (fun span => Except.ok (span, rest)) hword

theorem carries_argument {a : Argument} (h : a.IsFinite) : argument.Carries a a :=
  Json.Codec.carries_text (by rw [Argument.ofText_text h]; rfl)

theorem carries_instant (t : Instant) : instant.Carries t t := by
  intro rest _
  simp only [instant]
  rw [Json.readText_writeString]
  simp only [Instant.ofText_text]

/-- Lists of identities. -/
theorem carries_taskIds (ids : List TaskId) : (Codec.list taskId).Carries ids ids :=
  Json.Codec.carries_list (List.forall₂_same.mpr fun id _ => carries_taskId id)
    fun _ _ => Json.isElement_writeString _

/-- Reasons that may be absent. -/
theorem carries_texts (s : Option String) : Codec.string.option.Carries s s :=
  Json.Codec.carries_option fun text _ => ⟨Json.Codec.carries_string text, Json.isPresent_writeString _⟩

/-! ## Records -/

/-- A body with a single member is carried as its member is. -/
theorem carries_single {codec : Codec α} {a b : α} (title name : String) (h : codec.Carries a b) :
    (single title name codec).Carries a b := by
  refine Json.Codec.carries_record (b := b) ?_ (Member.carries_required name h) rfl
  exact List.nodup_singleton name

/-- An assignment with its operands carried and its time truncated. -/
def carriedAssignment (a : Assignment) : Assignment :=
  { a with left := carried a.left, right := carried a.right, duration := a.duration.truncated }

/-- **An assignment** of finite operands is carried with its operands and its time. -/
theorem carries_assignment {a : Assignment} (hleft : Number.isFinite a.left = true)
    (hright : Number.isFinite a.right = true) : assignment.Carries a (carriedAssignment a) :=
  Json.Codec.carries_record
    (b := (a.id, a.owner, a.operation, carried a.left, carried a.right, a.duration.truncated)) (by decide)
    ⟨Member.carries_required "id" (carries_taskId a.id),
      Member.carries_required "expression_id" (carries_expressionId a.owner),
      Member.carries_required "operation" (carries_operation a.operation),
      Member.carries_required "arg1" (Json.Codec.carries_float hleft),
      Member.carries_required "arg2" (Json.Codec.carries_float hright),
      Member.carries_required "operation_time_ms" (carries_span a.duration)⟩
    rfl

/-- **A report** is carried with its result. -/
theorem carries_report {r : Report} {result : Option Float}
    (h : Json.Codec.float.option.Carries r.result result) (hnone : r.result = none → result = none) :
    report.Carries r { r with result := result } :=
  Json.Codec.carries_record (b := (r.task, r.status, result, r.error)) (by decide)
    ⟨Member.carries_required "id" (carries_taskId r.task),
      Member.carries_required "status" (carries_reportStatus r.status),
      Member.carries_spare "result" h hnone,
      Member.carries_spare "error" (carries_texts r.error) id⟩
    rfl

/-- The report of a finite result is carried with the result. -/
theorem carries_report_completed (task : TaskId) {value : Float} (h : Number.isFinite value = true) :
    report.Carries (.ofOutcome task (.completed value)) (.ofOutcome task (.completed (carried value))) := by
  have hresult : Json.Codec.float.option.Carries (some value) (some (carried value)) :=
    (Json.Codec.carries_float h).some (Json.isPresent_writeFloat h)
  exact carries_report (r := .ofOutcome task (.completed value)) hresult fun hnone => by cases hnone

/-! ## Tasks and expressions -/

/-- The numbers of the task arrive as they are: its operands are finite, and so is its result, which JSON
keeps. -/
structure IsExactTask (t : Task) : Prop where
  left : t.left.IsFinite
  right : t.right.IsFinite
  result : ∀ x, t.result = some x → Json.IsExact x

/-- **A task** is carried as it is, up to its time. -/
theorem carries_task {t : Task} (h : IsExactTask t) : task.Carries t t.truncated :=
  Json.Codec.carries_record
    (b := (t.id, t.owner, t.operation, t.left, t.right, t.duration.truncated, t.status, t.result, t.error,
      t.dependencies, t.lease, t.created)) (by decide)
    ⟨Member.carries_required "id" (carries_taskId t.id),
      Member.carries_required "expression_id" (carries_expressionId t.owner),
      Member.carries_required "operation" (carries_operation t.operation),
      Member.carries_required "arg1" (carries_argument h.left),
      Member.carries_required "arg2" (carries_argument h.right),
      Member.carries_required "operation_time_ms" (carries_span t.duration),
      Member.carries_required "status" (carries_taskStatus t.status),
      Member.carries_optional "result" (Json.Codec.carries_exact_option h.result),
      Member.carries_optional "error" (carries_texts t.error),
      Member.carries_required "dependencies" (carries_taskIds t.dependencies),
      Member.carries_optional "lease_expires_at" (Json.Codec.carries_option fun deadline _ =>
        ⟨carries_instant deadline, Json.isPresent_writeString _⟩),
      Member.carries_required "created_at" (carries_instant t.created)⟩
    rfl

/-- **An expression** is carried with its tasks, in whichever form they are. -/
theorem carries_expressionOf {τ : Type} {title : String} {result : Member (Option Float)} {tasks : Codec τ}
    {e : ExpressionOf τ} {arrived : List τ} (hname : result.name = "result")
    (hresult : result.Carries e.result e.result) (htasks : tasks.list.Carries e.tasks arrived) :
    (expressionOf title result tasks).Carries e { e with tasks := arrived } :=
  Json.Codec.carries_record (b := (e.id, e.text, e.status, e.result, arrived, e.created, e.updated))
    (by simp [Json.Members.names, Member.required, hname])
    ⟨Member.carries_required "id" (carries_expressionId e.id),
      Member.carries_required "text" (Json.Codec.carries_string e.text),
      Member.carries_required "status" (carries_expressionStatus e.status),
      hresult,
      Member.carries_required "tasks" htasks,
      Member.carries_required "created_at" (carries_instant e.created),
      Member.carries_required "updated_at" (carries_instant e.updated)⟩
    rfl

theorem carries_expression {e : Expression} (h : ∀ x, e.result = some x → Json.IsExact x) :
    expression.Carries e e :=
  carries_expressionOf rfl (Member.carries_optional "result" (Json.Codec.carries_exact_option h))
    (carries_taskIds e.tasks)

/-- Lists of expressions. -/
theorem carries_expressions {list : List Expression}
    (h : ∀ e ∈ list, ∀ x, e.result = some x → Json.IsExact x) : expression.list.Carries list list := by
  refine Json.Codec.carries_list (List.forall₂_same.mpr fun e he => carries_expression (h e he)) ?_
  intro e _
  unfold expression expressionOf
  exact Json.isElement_record e

theorem carries_view {v : View} (h : ∀ x, v.result = some x → Json.IsExact x)
    (htasks : ∀ t ∈ v.tasks, IsExactTask t) : view.Carries v v.truncated :=
  carries_expressionOf rfl (Member.carries_hidden "result" (Json.Codec.carries_exact_option h) id)
    (Json.Codec.carries_list
      (List.forall₂_map_right_iff.mpr (List.forall₂_same.mpr fun t ht => carries_task (htasks t ht)))
      fun t _ => Json.isElement_record t)

end Wire

end Piecework
