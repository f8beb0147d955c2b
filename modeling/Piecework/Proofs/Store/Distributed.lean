/-
# Piecework.Proofs.Store.Distributed — whoever works, and in whatever order, the results are the same.

Texts are submitted, tasks are claimed, leases are taken back, and workers report what the operation of a
task makes of the operands that they were given.  They may do so at any time, in any order, more than once
or never, and for a lease that has long been taken back.  Whatever is recorded is then what the syntax tree
of the text says: the result of a task is the value of its part of the tree, and a failure is the failure
of its own operation on the values of its operands (`Distributed.evaluates_text`).

The invariant ties three things to the trees: the tasks of an expression are the plan of its text, the
operands of every assignment ever handed out are values of trees, and so is every recorded result.  A report
is late or doubled without harm because the trees do not change.
-/
import Piecework.Proofs.Compilation
import Piecework.Proofs.Store.Status

namespace Piecework

/-! ## Truthful records -/

/-- A number is the value of the tree that an operand stands for. -/
def Denotes (known : TaskId → Option Task) (a : Argument) (v : Float) : Prop :=
  ∃ t, Unfolds known a t ∧ t.eval Operation.apply = .ok v

/-- An outcome is what an operation makes of the values of its operands. -/
def Outcome.Faithful (known : TaskId → Option Task) (t : Task) (o : Outcome) : Prop :=
  ∃ a b, Denotes known t.left a ∧ Denotes known t.right b ∧
    o = (⟨t.id, t.owner, t.operation, a, b, t.duration⟩ : Assignment).outcome

/-- An assignment asks for the work of a task, on the values of its operands. -/
def Assignment.Faithful (known : TaskId → Option Task) (a : Assignment) : Prop :=
  ∃ t, known a.id = some t ∧ a.operation = t.operation ∧ Denotes known t.left a.left ∧
    Denotes known t.right a.right

/-- What is recorded of a task is a faithful outcome. -/
structure Task.Faithful (known : TaskId → Option Task) (t : Task) : Prop where
  result : ∀ v, t.result = some v → Outcome.Faithful known t (.completed v)
  error : ∀ reason, t.error = some reason → Outcome.Faithful known t (.failed reason)

section Records

variable {known later : TaskId → Option Task}

theorem Denotes.mono {a : Argument} {v : Float} (h : Denotes known a v) (hext : Extends known later) :
    Denotes later a v := by
  obtain ⟨t, ht, hv⟩ := h
  exact ⟨t, ht.mono hext, hv⟩

theorem Denotes.literal (v : Float) : Denotes known (.literal v) v := ⟨_, .literal v, rfl⟩

theorem Outcome.Faithful.mono {t t' : Task} {o : Outcome} (h : o.Faithful known t)
    (hext : Extends known later) (hplain : t'.plain = t.plain) : o.Faithful later t' := by
  obtain ⟨a, b, ha, hb, ho⟩ := h
  obtain ⟨hid, howner, hop, hleft, hright, hdur⟩ := Task.work_eq_of_plain_eq hplain
  refine ⟨a, b, hleft ▸ ha.mono hext, hright ▸ hb.mono hext, ?_⟩
  rw [ho, hid, howner, hop, hdur]

theorem Assignment.Faithful.mono {a : Assignment} (h : a.Faithful known) (hext : Extends known later) :
    a.Faithful later := by
  obtain ⟨t, ht, hop, hl, hr⟩ := h
  obtain ⟨t', ht', hplain⟩ := hext a.id t ht
  obtain ⟨-, -, hop', hleft, hright, -⟩ := Task.work_eq_of_plain_eq hplain
  exact ⟨t', ht', hop.trans hop'.symm, hleft ▸ hl.mono hext, hright ▸ hr.mono hext⟩

theorem Task.Faithful.of_isFresh {t : Task} (h : t.IsFresh) : t.Faithful known := by
  rw [← h]
  exact ⟨fun v hv => absurd hv (by simp [Task.plain, Task.fresh]),
    fun reason hr => absurd hr (by simp [Task.plain, Task.fresh])⟩

/-- The outcome of an assignment is faithful to the task that the assignment was made for. -/
theorem Assignment.Faithful.outcome {a : Assignment} {t : Task} (h : a.Faithful known)
    (ht : known a.id = some t) : a.outcome.Faithful known t := by
  obtain ⟨u, hu, hop, hl, hr⟩ := h
  obtain rfl : u = t := Option.some.inj (hu.symm.trans ht)
  refine ⟨a.left, a.right, hl, hr, ?_⟩
  rw [Assignment.outcome, Assignment.outcome, hop]

/-- A recorded result is the value of the tree of the task. -/
theorem Task.Faithful.denotes {t : Task} {id : TaskId} {v : Float} (h : t.Faithful known)
    (ht : known id = some t) (hv : t.result = some v) : Denotes known (.output id) v := by
  obtain ⟨a, b, ⟨l, hl, hla⟩, ⟨r, hr, hrb⟩, ho⟩ := h.result v hv
  refine ⟨_, .output ht hl hr, ?_⟩
  rw [Tree.eval, hla, hrb]
  rw [Assignment.outcome] at ho
  cases happ : t.operation.apply a b with
  | error fault => simp [happ] at ho
  | ok w =>
    simp only [happ, Outcome.completed.injEq] at ho
    rw [ho]
    exact happ

/-- A recorded failure is one of the operation itself, on the values of its operands. -/
theorem Task.Faithful.fault {t : Task} {reason : String} (h : t.Faithful known)
    (hr : t.error = some reason) :
    ∃ a b fault, Denotes known t.left a ∧ Denotes known t.right b ∧
      t.operation.apply a b = .error fault ∧ reason = fault.message := by
  obtain ⟨a, b, ha, hb, ho⟩ := h.error reason hr
  rw [Assignment.outcome] at ho
  cases happ : t.operation.apply a b with
  | error fault =>
    simp only [happ, Outcome.failed.injEq] at ho
    exact ⟨a, b, fault, ha, hb, happ, ho⟩
  | ok w => simp [happ] at ho

end Records

namespace Store

variable {s : Store} {issued : List Assignment}

theorem Change.extends (h : Sound s) {c : Change} (hc : c.Enabled s) :
    Extends s.task? (c.apply s).task? := by
  intro id t ht
  obtain ⟨t', ht', hmoves⟩ := Change.moves h hc ht
  exact ⟨t', ht', hmoves.plain⟩

/-! ## What is handed out -/

/-- An operand that can be read is read as the value of its tree. -/
theorem denotes_of_operand (htrue : ∀ {id t}, s.task? id = some t → t.Faithful s.task?) {a : Argument}
    {v : Float} (h : s.operand a = .ok v) : Denotes s.task? a v := by
  cases a with
  | literal value =>
    rw [operand, Except.ok.injEq] at h
    exact h ▸ .literal value
  | output id =>
    rw [operand] at h
    cases hr : (s.task? id).bind Task.result with
    | none => simp [hr] at h
    | some w =>
      rw [hr, Except.ok.injEq] at h
      obtain ⟨t, ht, hw⟩ := Option.bind_eq_some_iff.mp hr
      exact h ▸ (htrue ht).denotes ht hw

/-- Whoever claims a task is given the values of its operands. -/
theorem faithful_assignment (htrue : ∀ {id t}, s.task? id = some t → t.Faithful s.task?) {t : Task}
    (ht : s.task? t.id = some t) {a : Assignment} (h : s.assignment t = .ok a) :
    a.Faithful s.task? := by
  unfold assignment at h
  cases hl : s.operand t.left with
  | error fault => simp [hl] at h
  | ok left =>
    cases hr : s.operand t.right with
    | error fault => simp [hl, hr] at h
    | ok right =>
      simp only [hl, hr, Except.ok.injEq] at h
      subst h
      exact ⟨t, ht, rfl, denotes_of_operand htrue hl, denotes_of_operand htrue hr⟩

/-! ## The invariant -/

/-- The tasks of an expression are the plan of a tree that its text lists. -/
def Compiled (known : TaskId → Option Task) (e : Expression) (tree : Tree) : Prop :=
  Postfix.ofText e.text = .ok tree.items ∧ 0 < tree.size ∧
    ∃ setting, e.tasks = (Plan.tasksOf setting 0 tree).map Task.id ∧
      Plan.Known known (Plan.tasksOf setting 0 tree)

/-- Everything recorded is what the trees of the texts say. -/
structure Truthful (s : Store) (issued : List Assignment) : Prop where
  compiled : ∀ {x e}, s.expression? x = some e → ∃ tree, Compiled s.task? e tree
  issued : ∀ a ∈ issued, a.Faithful s.task?
  tasks : ∀ {id t}, s.task? id = some t → t.Faithful s.task?

/-- The steps that submissions, claims and honest reports are made of. -/
def Change.IsHonest (s : Store) : Change → Prop
  | accept e tasks => ∃ setting, Plan.ofText setting e.text = .ok tasks
  | finish t o _ => o.Faithful s.task? t
  | _ => True

namespace Truthful

theorem empty : Truthful .empty [] :=
  ⟨fun h => absurd h (by simp [expression?, Store.empty]), fun _ h => absurd h List.not_mem_nil,
    fun h => absurd h (by simp [task?, Store.empty])⟩

theorem tasks_apply (h : Truthful s issued) (hs : Sound s) {c : Change} (hc : c.Enabled s)
    (hh : c.IsHonest s) {id : TaskId} {t' : Task} (ht' : (c.apply s).task? id = some t') :
    t'.Faithful (c.apply s).task? := by
  have hext := Change.extends hs hc
  rcases Change.moves_or_mem hs hc ht' with ⟨t, ht, hmoves⟩ | ⟨e, tasks, rfl, hmem, -⟩
  · have hold := h.tasks ht
    have hplain := hmoves.plain
    cases hmoves with
    | ended o now _ =>
      -- The outcome was faithful to the store before; no tree has changed since.
      have hnew : o.Faithful _ (t.ended o) := Outcome.Faithful.mono hh hext hplain
      cases o with
      | completed value =>
        refine ⟨?_, fun reason hr => absurd hr (by simp [Task.ended])⟩
        intro v hv
        rw [show v = value from (Option.some.inj hv).symm]
        exact hnew
      | failed why =>
        refine ⟨fun v hv => absurd hv (by simp [Task.ended]), ?_⟩
        intro reason hr
        rw [show reason = why from (Option.some.inj hr).symm]
        exact hnew
    | _ => exact ⟨fun v hv => (hold.result v hv).mono hext hplain,
        fun reason hr => (hold.error reason hr).mono hext hplain⟩
  · obtain ⟨setting, htext⟩ := hh
    exact .of_isFresh (Plan.plain_of_mem_ofText htext hmem).1

theorem compiled_apply (h : Truthful s issued) (hs : Sound s) {c : Change} (hc : c.Enabled s)
    (hh : c.IsHonest s) {x : ExpressionId} {e' : Expression}
    (he : (c.apply s).expression? x = some e') : ∃ tree, Compiled (c.apply s).task? e' tree := by
  rcases Change.expression_cases hs hc he with ⟨e, hold, htext, htasks⟩ | ⟨tasks, rfl, -⟩
  · obtain ⟨tree, hlist, hsize, setting, hids, hknown⟩ := h.compiled hold
    exact ⟨tree, htext ▸ hlist, hsize, setting, htasks.trans hids,
      hknown.mono (Change.extends hs hc)⟩
  · obtain ⟨setting, hof⟩ := hh
    obtain ⟨tree, hlist, hsize, rfl⟩ := Plan.ofText_eq_ok_iff.mp hof
    obtain ⟨-, hids, -⟩ := refusal_eq_none_iff.mp hc
    exact ⟨tree, hlist, hsize, setting, hids.symm, fun task ht => ⟨task, task?_accept_of_mem hc ht, rfl⟩⟩

theorem apply (h : Truthful s issued) (hs : Sound s) {c : Change} (hc : c.Enabled s)
    (hh : c.IsHonest s) : Truthful (c.apply s) issued :=
  ⟨h.compiled_apply hs hc hh, fun a ha => (h.issued a ha).mono (Change.extends hs hc),
    h.tasks_apply hs hc hh⟩

/-- Every task unfolds to a part of the tree of its expression. -/
theorem unfolds (h : Truthful s issued) (hs : Sound s) {id : TaskId} {t : Task}
    (ht : s.task? id = some t) :
    ∃ e tree u, s.expression? t.owner = some e ∧ Compiled s.task? e tree ∧
      Unfolds s.task? (.output id) u ∧
      ∀ fault, u.eval Operation.apply = .error fault →
        ∃ fault', tree.eval Operation.apply = .error fault' := by
  obtain ⟨e, he, hmem⟩ := hs.listed ht
  obtain ⟨tree, hcomp⟩ := h.compiled he
  have ⟨_, _, setting, hids, hknown⟩ := hcomp
  rw [hids] at hmem
  obtain ⟨task, htask, rfl⟩ := List.mem_map.mp hmem
  obtain ⟨u, hu, hfail⟩ := Plan.unfolds_of_mem_tasksOf hknown htask
  exact ⟨e, tree, u, he, hcomp, hu, hfail Operation.apply⟩

end Truthful

/-- The last task of an expression unfolds to the whole tree. -/
theorem Compiled.last {known : TaskId → Option Task} {e : Expression} {tree : Tree}
    (h : Compiled known e tree) :
    ∃ last, e.tasks.getLast? = some last ∧ Unfolds known (.output last) tree := by
  obtain ⟨-, hsize, setting, hids, hknown⟩ := h
  obtain ⟨last, hlast, harg⟩ := Plan.getLast?_tasksOf (s := setting) (n := 0) hsize
  refine ⟨last.id, by rw [hids, List.getLast?_map, hlast, Option.map_some], ?_⟩
  rw [← harg]
  exact Plan.unfolds_argumentOf hknown

/-- The status and the result of an expression whose tasks have all been worked off. -/
def standing {ε : Type} : Except ε Float → ExpressionStatus × Option Float
  | .ok v => (.completed, some v)
  | .error _ => (.failed, none)

/-- Texts that are the same list the same value. -/
theorem Compiled.eval_eq {known known' : TaskId → Option Task} {e e' : Expression} {tree tree' : Tree}
    (h : Compiled known e tree) (h' : Compiled known' e' tree') (htext : e.text = e'.text) :
    tree.eval Operation.apply = tree'.eval Operation.apply := by
  have hitems : tree.items = tree'.items := by
    have hlist := h.1
    rw [htext, h'.1, Except.ok.injEq] at hlist
    exact hlist.symm
  have hvalue := Postfix.outcome_evaluate_items Operation.apply tree
  rw [hitems, Postfix.outcome_evaluate_items, Option.some_inj] at hvalue
  exact hvalue.symm

/-! ## Runs -/

/-- The assignment that a claim was answered with. -/
def handedOut : Except StoreFault (Option Assignment) → List Assignment
  | .ok (some a) => [a]
  | _ => []

/-- The stores that come of honest work on texts that compile, and the assignments that were ever handed
out on the way.  Any of them can be reported at any time, as often as anybody likes. -/
inductive Distributed : Store → List Assignment → Prop
  | empty : Distributed .empty []
  | submit {s : Store} {issued : List Assignment} {tasks : List Task} (setting : Plan.Setting)
      (text : String) (now : Instant) :
      Distributed s issued → Plan.ofText setting text = .ok tasks →
      Distributed (s.put (.fresh setting.owner text (tasks.map Task.id) now) tasks).2 issued
  | claim {s : Store} {issued : List Assignment} {select : Selector} (policy : LeasePolicy)
      (now : Instant) :
      Distributed s issued → select.Lawful →
      Distributed (s.claim select policy now).2 (handedOut (s.claim select policy now).1 ++ issued)
  | report {s : Store} {issued : List Assignment} {a : Assignment} (now : Instant) :
      Distributed s issued → a ∈ issued → Distributed (s.report a.id a.outcome now).2 issued
  | reap {s : Store} {issued : List Assignment} (now : Instant) :
      Distributed s issued → Distributed (s.reap now).2 issued

namespace Distributed

theorem reachable (h : Distributed s issued) : Reachable s := by
  induction h with
  | empty => exact .refl
  | submit setting text now _ htext ih =>
    exact .put ih rfl fun t ht => (Plan.plain_of_mem_ofText htext ht).1
  | claim policy now _ hl ih => exact .claim policy now ih hl
  | report now _ _ ih => exact .report _ _ now ih
  | reap now _ ih => exact .reap now ih

/-- A claim hands out the values of the operands, if it hands anything out. -/
theorem faithful_of_claim (h : Truthful s issued) (hs : Sound s) {select : Selector}
    (hl : select.Lawful) (policy : LeasePolicy) (now : Instant) :
    ∀ a ∈ handedOut (s.claim select policy now).1, a.Faithful s.task? := by
  intro a ha
  rcases claim_cases s select policy now with
    ⟨answer, hclaim, hnone⟩ | ⟨t, b, deadline, hnext, hassigned, -, hclaim⟩
  · rw [hclaim] at ha
    match answer, hnone with
    | .ok (some b), hnone => exact absurd rfl (hnone b)
    | .ok none, _ => exact absurd ha List.not_mem_nil
    | .error _, _ => exact absurd ha List.not_mem_nil
  · rw [hclaim] at ha
    rw [List.mem_singleton.mp ha]
    exact faithful_assignment h.tasks (hs.task?_of_mem_candidates (hl _ _ hnext)) hassigned

theorem truthful (h : Distributed s issued) : Truthful s issued := by
  -- Steps that need no more than the state they start from keep everything as it is.
  have keep : ∀ {s s' : Store} {issued : List Assignment},
      Path (fun s c => c.IsHonest s) s s' → Sound s → Truthful s issued → Truthful s' issued :=
    fun {s s' issued} hp hs ht => (hp.induct (P := fun s => Truthful s issued)
      (fun _ _ hs hc hh ht => ht.apply hs hc hh) hs ht).2
  induction h with
  | empty => exact .empty
  | @submit s issued tasks setting text now hrun htext ih =>
    refine keep ((put_path s _ tasks).mono ?_) hrun.reachable.sound ih
    rintro _ _ rfl
    exact ⟨setting, htext⟩
  | @claim s issued select policy now hrun hl ih =>
    have hs := hrun.reachable.sound
    -- The operands are told before the dispatch, which changes none of them.
    have hboth : Truthful s (handedOut (s.claim select policy now).1 ++ issued) := by
      refine ⟨ih.compiled, ?_, ih.tasks⟩
      intro a ha
      rcases List.mem_append.mp ha with ha | ha
      · exact faithful_of_claim ih hs hl policy now a ha
      · exact ih.issued a ha
    refine keep ((claim_path s hl policy now).mono ?_) hs hboth
    rintro _ _ ⟨t, deadline, rfl⟩
    trivial
  | @report s issued a now hrun ha ih =>
    have hs := hrun.reachable.sound
    rcases report_cases hs a.id a.outcome now with ⟨fault, hreport⟩ | ⟨t, status, ht, hen, hreport⟩
    · rw [hreport]
      exact ih
    -- However late the report is, the assignment still asks for the work of this task.
    · rw [hreport]
      exact ih.apply hs hen ((ih.issued a ha).outcome ht)
  | @reap s issued now hrun ih =>
    refine keep ((reap_path hrun.reachable.sound now).mono ?_) hrun.reachable.sound ih
    rintro _ _ ⟨t, rfl⟩
    trivial

/-- Where a task has ended, it has ended as its part of the tree says. -/
theorem task_evaluates (h : Distributed s issued) {id : TaskId} {t : Task}
    (ht : s.task? id = some t) :
    ∃ u, Unfolds s.task? (.output id) u ∧
      (t.status = .completed → ∃ v, t.result = some v ∧ u.eval Operation.apply = .ok v) ∧
      (t.status = .failed → ∃ a b fault, Denotes s.task? t.left a ∧ Denotes s.task? t.right b ∧
        t.operation.apply a b = .error fault ∧ t.error = some fault.message) := by
  have htrue := h.truthful
  have hcons := h.reachable.settled.tasks ht
  obtain ⟨-, -, u, -, -, hu, -⟩ := htrue.unfolds h.reachable.sound ht
  refine ⟨u, hu, ?_, ?_⟩
  · intro hdone
    obtain ⟨v, hv⟩ := Option.isSome_iff_exists.mp (hcons.result.mp hdone)
    obtain ⟨u', hu', heval⟩ := (htrue.tasks ht).denotes ht hv
    exact ⟨v, hv, hu'.unique hu ▸ heval⟩
  · intro hfailed
    obtain ⟨reason, hreason⟩ := Option.isSome_iff_exists.mp (hcons.error.mp hfailed)
    obtain ⟨a, b, fault, ha, hb, hfault, hmessage⟩ := (htrue.tasks ht).fault hreason
    exact ⟨a, b, fault, ha, hb, hfault, hmessage ▸ hreason⟩

/-- The tree of a failed task has no value. -/
theorem part_fails (h : Distributed s issued) {id : TaskId} {t : Task} (ht : s.task? id = some t)
    (hfailed : t.status = .failed) {u : Tree} (hu : Unfolds s.task? (.output id) u) :
    ∃ fault, u.eval Operation.apply = .error fault := by
  obtain ⟨-, -, -, hfault⟩ := h.task_evaluates ht
  obtain ⟨a, b, fault, ⟨l, hl, hla⟩, ⟨r, hr, hrb⟩, happ, -⟩ := hfault hfailed
  refine ⟨fault, ?_⟩
  rw [hu.unique (.output ht hl hr), Tree.eval, hla, hrb]
  exact happ

/-- Where an expression has ended, it has ended as its tree says. -/
theorem expression_evaluates (h : Distributed s issued) {x : ExpressionId} {e : Expression}
    (he : s.expression? x = some e) {tree : Tree} (hcomp : Compiled s.task? e tree) :
    (e.status = .completed → ∃ v, e.result = some v ∧ tree.eval Operation.apply = .ok v) ∧
      (e.status = .failed → e.result = none ∧ ∃ fault, tree.eval Operation.apply = .error fault) := by
  have hs := h.reachable.sound
  have hset := h.reachable.settled.expressions he
  refine ⟨?_, fun hfailed => ⟨by rw [hset.result, hfailed]; rfl, ?_⟩⟩
  · intro hdone
    have hsome := (hset.result_isSome_iff (hs.nonempty he) h.reachable.settled.tasks).mpr hdone
    obtain ⟨v, hv⟩ := Option.isSome_iff_exists.mp hsome
    obtain ⟨id, t, hlast, ht, htv⟩ := hset.last_of_result hv
    -- The result is that of the last task, and this task unfolds to the whole tree.
    obtain ⟨last, hlast', hunfolds⟩ := hcomp.last
    obtain rfl : id = last := Option.some.inj (hlast.symm.trans hlast')
    obtain ⟨u, hu, heval⟩ := (h.truthful.tasks ht).denotes ht htv
    exact ⟨v, hv, hu.unique hunfolds ▸ heval⟩
  -- Some task has failed, and its tree is a part of the whole.
  · obtain ⟨id, hid, hstatus⟩ := hset.failed_iff.mp hfailed
    obtain ⟨t, ht, hstatus⟩ := Option.map_eq_some_iff.mp hstatus
    obtain ⟨f, tree', u, hf, hcomp', hu, hwhole⟩ := h.truthful.unfolds hs ht
    obtain ⟨t', ht', howner⟩ := hs.owned he id hid
    obtain rfl : t = t' := Option.some.inj (ht.symm.trans ht')
    rw [howner] at hf
    obtain rfl : e = f := Option.some.inj (he.symm.trans hf)
    obtain ⟨fault, hfault⟩ := h.part_fails ht hstatus hu
    rw [hcomp.eval_eq hcomp' rfl]
    exact hwhole fault hfault

/-- An expression that has ended stands where its tree puts it. -/
theorem stands (h : Distributed s issued) {x : ExpressionId} {e : Expression}
    (he : s.expression? x = some e) {tree : Tree} (hcomp : Compiled s.task? e tree)
    (hterm : e.status.isTerminal = true) :
    (e.status, e.result) = standing (tree.eval Operation.apply) := by
  obtain ⟨hdone, hfailed⟩ := h.expression_evaluates he hcomp
  cases hs : e.status with
  | pending => simp [hs, ExpressionStatus.isTerminal] at hterm
  | completed =>
    obtain ⟨v, hv, heval⟩ := hdone hs
    rw [hv, heval, standing]
  | failed =>
    obtain ⟨hnone, fault, hfault⟩ := hfailed hs
    rw [hnone, hfault, standing]

/-- However tasks are claimed, leased again and reported, whatever has ended has ended as the text says: a
completed task has the value of its part of the syntax tree, a failed task is one whose own operation fails
on the values of its operands, and the reason is the wording of that failure; a completed expression has the
value of its whole tree, and the tree of a failed one has none.  So expressions of one text that have ended,
in whatever runs, have ended alike. -/
theorem evaluates_text (h : Distributed s issued) :
    (∀ id t, s.task? id = some t → ∃ u, Unfolds s.task? (.output id) u ∧
      (t.status = .completed → ∃ v, t.result = some v ∧ u.eval Operation.apply = .ok v) ∧
      (t.status = .failed → ∃ a b fault, Denotes s.task? t.left a ∧ Denotes s.task? t.right b ∧
        t.operation.apply a b = .error fault ∧ t.error = some fault.message)) ∧
    (∀ x e, s.expression? x = some e → ∃ tree last, Postfix.ofText e.text = .ok tree.items ∧
      e.tasks.getLast? = some last ∧ Unfolds s.task? (.output last) tree ∧
      (e.status = .completed → ∃ v, e.result = some v ∧ tree.eval Operation.apply = .ok v) ∧
      (e.status = .failed → e.result = none ∧ ∃ fault, tree.eval Operation.apply = .error fault)) ∧
    ∀ s' issued' x x' e e', Distributed s' issued' → s.expression? x = some e →
      s'.expression? x' = some e' → e.text = e'.text → e.status.isTerminal = true →
      e'.status.isTerminal = true → e.status = e'.status ∧ e.result = e'.result := by
  refine ⟨fun id t ht => h.task_evaluates ht, ?_, ?_⟩
  · intro x e he
    obtain ⟨tree, hcomp⟩ := h.truthful.compiled he
    obtain ⟨last, hlast, hunfolds⟩ := hcomp.last
    exact ⟨tree, last, hcomp.1, hlast, hunfolds, h.expression_evaluates he hcomp⟩
  · intro s' issued' x x' e e' h' he he' htext hterm hterm'
    obtain ⟨tree, hcomp⟩ := h.truthful.compiled he
    obtain ⟨tree', hcomp'⟩ := h'.truthful.compiled he'
    have hstands := h.stands he hcomp hterm
    rw [hcomp.eval_eq hcomp' htext, ← h'.stands he' hcomp' hterm'] at hstands
    exact Prod.mk.inj hstands

/-- A task that is leased twice and reported by both of its workers. -/
theorem evaluates_text_leased_twice :
    let setting : Plan.Setting := ⟨⟨0⟩, .standard, fun n => ⟨.ofNat 128 (n + 1)⟩, .epoch⟩
    let tasks : List Task := [
      .fresh ⟨1⟩ ⟨0⟩ .divide (.literal 6) (.literal 3) (.ofMillis 1000) .epoch,
      .fresh ⟨2⟩ ⟨0⟩ .add (.output ⟨1⟩) (.literal 1) (.ofMillis 1000) .epoch]
    let hour : Instant := { second := 3600, nano := 0 }
    let divide : Assignment := ⟨⟨1⟩, ⟨0⟩, .divide, 6, 3, .ofMillis 1000⟩
    let add : Assignment := ⟨⟨2⟩, ⟨0⟩, .add, 2, 1, .ofMillis 1000⟩
    let submitted := (Store.empty.put (.fresh ⟨0⟩ "6/3+1" (tasks.map Task.id) .epoch) tasks).2
    let lapsed := ((submitted.claim .oldest .standard .epoch).2.reap hour).2
    let leased := (lapsed.claim .oldest .standard hour).2
    let reported := ((leased.report ⟨1⟩ divide.outcome hour).2.report ⟨1⟩ divide.outcome hour).2
    let ended := ((reported.claim .oldest .standard hour).2.report ⟨2⟩ add.outcome hour).2
    let e : Expression := ⟨⟨0⟩, "6/3+1", .completed, some 3, [⟨1⟩, ⟨2⟩], .epoch, hour⟩
    Plan.ofText setting "6/3+1" = .ok tasks ∧ Distributed ended [add, divide, divide] ∧
      ended.expression? ⟨0⟩ = some e ∧
      ∃ tree : Tree, Postfix.ofText "6/3+1" = .ok tree.items ∧ tree.eval Operation.apply = .ok 3 := by
  intro setting tasks hour divide add submitted lapsed leased reported ended e
  have htext : Plan.ofText setting "6/3+1" = .ok tasks := by decide +kernel
  have claimed : ∀ {s : Store} {issued : List Assignment} (a : Assignment) (now : Instant),
      handedOut (s.claim .oldest .standard now).1 = [a] → Distributed s issued →
        Distributed (s.claim .oldest .standard now).2 (a :: issued) := by
    intro s issued a now ha h
    have hc := Distributed.claim .standard now h Selector.lawful_oldest
    rw [ha] at hc
    exact hc
  have hsubmitted : Distributed submitted [] := .submit setting "6/3+1" .epoch .empty htext
  have hfirst := claimed divide .epoch (by decide +kernel) hsubmitted
  have hlapsed : Distributed lapsed [divide] := .reap hour hfirst
  have hleased : Distributed leased [divide, divide] := claimed divide hour (by decide +kernel) hlapsed
  have honce := Distributed.report (a := divide) hour hleased List.mem_cons_self
  have htwice : Distributed reported [divide, divide] :=
    .report (a := divide) hour honce List.mem_cons_self
  have hnext := claimed add hour (by decide +kernel) htwice
  have hended : Distributed ended [add, divide, divide] :=
    .report (a := add) hour hnext List.mem_cons_self
  have he : ended.expression? ⟨0⟩ = some e := by decide +kernel
  obtain ⟨tree, last, hlist, -, -, hvalue, -⟩ := hended.evaluates_text.2.1 ⟨0⟩ e he
  obtain ⟨v, hv, heval⟩ := hvalue rfl
  obtain rfl : 3 = v := Option.some.inj hv
  exact ⟨htext, hended, he, tree, hlist, heval⟩

end Distributed

end Store

end Piecework
