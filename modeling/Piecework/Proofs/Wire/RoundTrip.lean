/-
# Piecework.Proofs.Wire.RoundTrip — what is written comes back.

Two things are put together here.  What is written is read as it was, whatever stands in its texts, whichever
of its members are absent and whichever form its operands have, if only JSON keeps its numbers and its times are
whole milliseconds (`Proofs.Wire.Records`).  And whatever is read, from whatever text, has finite numbers in it,
operands in text form included, and times in whole milliseconds (`fits_of_reads_assignment` and what follows it).
So a text need not come from here: once it is read, writing and reading no longer change anything
(`Codec.RoundTrips.settles`).
-/
import Piecework.Proofs.Json.Reads
import Piecework.Proofs.Refinement

namespace Piecework

open Json (Codec Member)
open Number (isFinite)

/-! ## What fits the wire format -/

/-- Both operands are finite. -/
def Assignment.IsFinite (a : Assignment) : Prop := isFinite a.left = true ∧ isFinite a.right = true

/-- The result, if there is one, is finite. -/
def Report.IsFinite (r : Report) : Prop := ∀ x, r.result = some x → isFinite x = true

/-- The result, if there is one, is finite. -/
def ExpressionOf.IsFinite {τ : Type} (e : ExpressionOf τ) : Prop := ∀ x, e.result = some x → isFinite x = true

/-- The operands are outputs or finite, and so is the result, if there is one. -/
def Task.IsFinite (t : Task) : Prop := t.HasFiniteOperands ∧ ∀ x, t.result = some x → isFinite x = true

/-- The operands are finite, and the time is in whole milliseconds. -/
def Assignment.Fits (a : Assignment) : Prop := a.IsFinite ∧ a.duration.IsWhole

/-- The numbers are finite, and the time is in whole milliseconds. -/
def Task.Fits (t : Task) : Prop := t.IsFinite ∧ t.duration.IsWhole

/-- The result, if there is one, is finite, and all tasks fit. -/
def View.AllFit (v : View) : Prop := v.IsFinite ∧ ∀ t ∈ v.tasks, t.Fits

/-- The result, if there is one, arrives as it is. -/
def Task.IsExact (t : Task) : Prop := ∀ x, t.result = some x → Json.IsExact x

namespace Wire

/-! ## What is read fits -/

/-- A span that is read is a number of milliseconds. -/
theorem isWhole_of_reads_span {s : Span} (h : span.Reads s) : s.IsWhole := by
  obtain ⟨text, rest, hread⟩ := h
  obtain ⟨⟨n, tail⟩, -, heq⟩ := Json.exists_of_map_eq_ok hread
  obtain ⟨rfl, -⟩ := Prod.mk.inj heq
  exact Span.isWhole_ofMillis n.toNat

theorem finite_of_reads_argument {a : Argument} (h : argument.Reads a) : a.IsFinite := by
  obtain ⟨text, hparse⟩ := Json.Codec.exists_of_reads_text h
  exact Argument.isFinite_of_ofText (Json.eq_ok_of_mapError hparse)

/-- A result that may be absent is finite if it is there. -/
theorem finite_of_gets {m : Member (Option Float)} {name : String}
    (hm : m = .optional name .float ∨ m = .hidden name .float ∨ m = .spare name .float)
    {r : Option Float} (h : m.Gets r) : ∀ x, r = some x → isFinite x = true := by
  rintro x rfl
  exact Json.Codec.isFinite_of_reads (Member.reads_of_some hm h)

/-- An assignment that is read has finite operands and a time in whole milliseconds. -/
theorem fits_of_reads_assignment {a : Assignment} (h : assignment.Reads a) : a.Fits := by
  obtain ⟨_, ⟨-, -, -, hleft, hright, hduration⟩, rfl⟩ := Json.Codec.exists_gets_of_reads h
  exact ⟨⟨Json.Codec.isFinite_of_reads (Member.reads_of_required hleft),
    Json.Codec.isFinite_of_reads (Member.reads_of_required hright)⟩,
    isWhole_of_reads_span (Member.reads_of_required hduration)⟩

theorem finite_of_reads_report {r : Report} (h : report.Reads r) : r.IsFinite := by
  obtain ⟨_, ⟨-, -, hresult, -⟩, rfl⟩ := Json.Codec.exists_gets_of_reads h
  exact finite_of_gets (.inr (.inr rfl)) hresult

theorem fits_of_reads_task {t : Task} (h : task.Reads t) : t.Fits := by
  obtain ⟨_, ⟨-, -, -, hleft, hright, hduration, -, hresult, -⟩, rfl⟩ := Json.Codec.exists_gets_of_reads h
  exact ⟨⟨⟨finite_of_reads_argument (Member.reads_of_required hleft),
    finite_of_reads_argument (Member.reads_of_required hright)⟩, finite_of_gets (.inl rfl) hresult⟩,
    isWhole_of_reads_span (Member.reads_of_required hduration)⟩

/-- An expression has read its tasks, and its result is finite. -/
theorem finite_of_reads_expressionOf {τ : Type} {title : String} {result : Member (Option Float)}
    {tasks : Codec τ} {e : ExpressionOf τ}
    (hresult : result = .optional "result" .float ∨ result = .hidden "result" .float ∨
      result = .spare "result" .float)
    (h : (expressionOf title result tasks).Reads e) : e.IsFinite ∧ ∀ t ∈ e.tasks, tasks.Reads t := by
  obtain ⟨_, ⟨-, -, -, hr, htasks, -⟩, rfl⟩ := Json.Codec.exists_gets_of_reads h
  exact ⟨finite_of_gets hresult hr, Json.Codec.reads_of_mem (Member.reads_of_required htasks)⟩

theorem finite_of_reads_expression {e : Expression} (h : expression.Reads e) : e.IsFinite :=
  (finite_of_reads_expressionOf (.inl rfl) h).1

theorem fits_of_reads_view {v : View} (h : view.Reads v) : v.AllFit := by
  obtain ⟨hresult, htasks⟩ := finite_of_reads_expressionOf (.inr (.inl rfl)) h
  exact ⟨hresult, fun t ht => fits_of_reads_task (htasks t ht)⟩

end Wire

/-! ## Round trips -/

/-- Values that fit the wire format come back from their text if JSON keeps the numbers; whatever is read fits; and
what was read from any text keeps its value and its text from then on, again if JSON keeps the numbers. -/
structure Json.Codec.RoundTrips {α : Type} (c : Codec α) (Fits Exact : α → Prop) : Prop where
  returns : ∀ a, Fits a → Exact a → c.decode (c.encode a) = .ok a
  fits : ∀ text a, c.decode text = .ok a → Fits a
  settles : ∀ text a, c.decode text = .ok a → Exact a →
    c.decode (c.encode a) = .ok a ∧ (c.decode (c.encode a)).map c.encode = .ok (c.encode a)

/-- It is enough to know what is carried as it is, and that nothing is read that does not fit. -/
theorem Json.Codec.RoundTrips.of_carries {α : Type} {c : Codec α} {Fits Exact : α → Prop}
    (hcarries : ∀ a, Fits a → Exact a → c.Carries a a) (hreads : ∀ a, c.Reads a → Fits a) :
    c.RoundTrips Fits Exact where
  returns a hfits hexact := (hcarries a hfits hexact).decode
  fits text a h := hreads a (reads_of_decode h)
  settles text a h hexact := by
    have hback : c.decode (c.encode a) = .ok a := (hcarries a (hreads a (reads_of_decode h)) hexact).decode
    refine ⟨hback, ?_⟩
    rw [hback]
    rfl

/-- A task with finite operands and a result that JSON keeps is kept with all its numbers. -/
theorem Task.IsFinite.isExactTask {t : Task} (h : t.IsFinite) (hexact : t.IsExact) : Wire.IsExactTask t :=
  ⟨h.1.1, h.1.2, hexact⟩

/-- **Assignments, reports, tasks, expressions and views** come back from their texts, for every content of
their texts, every combination of members that are there or absent, both forms of operands and every status. -/
theorem Wire.round_trip :
    assignment.RoundTrips Assignment.Fits Assignment.IsExact ∧
    report.RoundTrips Report.IsFinite Report.IsExact ∧
    task.RoundTrips Task.Fits Task.IsExact ∧
    expression.RoundTrips ExpressionOf.IsFinite ExpressionOf.IsExact ∧
    view.RoundTrips View.AllFit View.AllExact := by
  refine ⟨?assignment, ?report, ?task, ?expression, ?view⟩
  case assignment =>
    refine .of_carries (fun a hfits hexact => ?_) fun a h => fits_of_reads_assignment h
    have hcarries := carries_assignment_exact hexact
    rwa [Assignment.truncated_eq_self hfits.2] at hcarries
  case report =>
    refine .of_carries (fun r _ hexact => ?_) fun r h => finite_of_reads_report h
    exact carries_report (Json.Codec.carries_exact_option hexact) id
  case task =>
    refine .of_carries (fun t hfits hexact => ?_) fun t h => fits_of_reads_task h
    have hcarries := carries_task (hfits.1.isExactTask hexact)
    rwa [Task.truncated_eq_self hfits.2] at hcarries
  case expression =>
    exact .of_carries (fun e _ hexact => carries_expression hexact) fun e h => finite_of_reads_expression h
  case view =>
    refine .of_carries (fun v hfits hexact => ?_) fun v h => fits_of_reads_view h
    have hcarries := carries_view hexact.1 fun t ht => (hfits.2 t ht).1.isExactTask (hexact.2 t ht)
    rwa [View.truncated_eq_self fun t ht => (hfits.2 t ht).2] at hcarries

/-- A task with a result and without an error comes back.  A report with blanks, in another order, with an unknown
member and an escaped quote comes to the form in which reports are written, and keeps it. -/
theorem Wire.round_trip_options :
    let t : Task := { Task.fresh ⟨1⟩ ⟨0⟩ .divide (.literal 6) (.output ⟨2⟩) (.ofMillis 1500) .epoch with
      status := .completed, result := some 0.1 }
    let text := "\x7b \"error\": \"\\u0022\\n\", \"more\": [1], \"status\": \"error\", "
      ++ "\"id\": \"00000000000000000000000001\" \x7d"
    let r : Report := ⟨⟨1⟩, .failed, none, some "\"\n"⟩
    let written := "\x7b\"id\":\"00000000000000000000000001\",\"status\":\"error\",\"error\":\"\\\"\\n\"\x7d"
    task.decode (task.encode t) = .ok t ∧
      report.decode text = .ok r ∧ report.encode r = written ∧
      (report.decode (report.encode r)).map report.encode = .ok (report.encode r) := by
  intro t text r written
  obtain ⟨-, hreport, htask, -⟩ := round_trip
  have hread : report.decode text = .ok r := by decide +kernel
  refine ⟨htask.returns t ⟨⟨⟨?_, trivial⟩, ?_⟩, Span.isWhole_ofMillis 1500⟩ ?_, hread, by decide +kernel,
    (hreport.settles text r hread fun x hx => absurd hx (by simp)).2⟩
  · show isFinite 6 = true
    decide +kernel
  · rintro x ⟨⟩
    decide +kernel
  · rintro x ⟨⟩
    unfold Json.IsExact
    decide +kernel

end Piecework
