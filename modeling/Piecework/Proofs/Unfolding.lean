/-
# Piecework.Proofs.Unfolding — the tree that an operand stands for.

An operand is a number or the output of a task, whose operands are operands again.  Following these
references through a table of known tasks unfolds an operand to a syntax tree.  The tree depends on what
the tasks ask for and not on how they stand (`Unfolds.mono`), and there is at most one
(`Unfolds.unique`).  The last task of the plan of a tree unfolds to that tree, and every task of the
plan to a part of it whose failure fails the whole.
-/
import Piecework.Proofs.Batch
import Piecework.Proofs.TreePlan

namespace Piecework

/-- The tree that an operand stands for, as far as tasks are known. -/
inductive Unfolds (known : TaskId → Option Task) : Argument → Tree → Prop
  | literal (value : Float) : Unfolds known (.literal value) (.leaf value)
  | output {id : TaskId} {t : Task} {l r : Tree} :
      known id = some t → Unfolds known t.left l → Unfolds known t.right r →
      Unfolds known (.output id) (.node t.operation l r)

/-- What is known stays known, up to how the tasks stand. -/
def Extends (known later : TaskId → Option Task) : Prop :=
  ∀ id task, known id = some task → ∃ task', later id = some task' ∧ task'.plain = task.plain

namespace Unfolds

variable {known later : TaskId → Option Task} {a : Argument}

theorem unique {t u : Tree} (ht : Unfolds known a t) (hu : Unfolds known a u) : t = u := by
  induction ht generalizing u with
  | literal value =>
    cases hu
    rfl
  | output hk _ _ ihl ihr =>
    cases hu with
    | output hk' hl hr =>
      rw [hk, Option.some_inj] at hk'
      subst hk'
      rw [ihl hl, ihr hr]

theorem mono {t : Tree} (h : Unfolds known a t) (hext : Extends known later) : Unfolds later a t := by
  induction h with
  | literal value => exact .literal value
  | output hk _ _ ihl ihr =>
    obtain ⟨task', hk', hplain⟩ := hext _ _ hk
    obtain ⟨-, -, hop, hleft, hright, -⟩ := Task.work_eq_of_plain_eq hplain
    rw [← hop]
    exact .output hk' (hleft ▸ ihl) (hright ▸ ihr)

end Unfolds

namespace Plan

variable {s : Setting} {n : Nat} {known : TaskId → Option Task}

/-- A plan that is known: each task is found under its identity, however it stands by now. -/
def Known (known : TaskId → Option Task) (tasks : List Task) : Prop :=
  ∀ task ∈ tasks, ∃ task', known task.id = some task' ∧ task'.plain = task.plain

theorem Known.append {u v : List Task} (h : Known known (u ++ v)) : Known known u ∧ Known known v :=
  ⟨fun task ht => h task (List.mem_append_left v ht), fun task ht => h task (List.mem_append_right u ht)⟩

theorem Known.mono {later : TaskId → Option Task} {tasks : List Task} (h : Known known tasks)
    (hext : Extends known later) : Known later tasks := by
  intro task ht
  obtain ⟨u, hu, hplain⟩ := h task ht
  obtain ⟨v, hv, hplain'⟩ := hext task.id u hu
  exact ⟨v, hv, hplain'.trans hplain⟩

/-- A task whose operands unfold unfolds itself. -/
theorem unfolds_task {task : Task} {l r : Tree} (h : Known known [task])
    (hl : Unfolds known task.left l) (hr : Unfolds known task.right r) :
    Unfolds known (.output task.id) (.node task.operation l r) := by
  obtain ⟨task', hk, hplain⟩ := h task List.mem_cons_self
  obtain ⟨-, -, hop, hleft, hright, -⟩ := Task.work_eq_of_plain_eq hplain
  rw [← hop]
  exact .output hk (hleft ▸ hl) (hright ▸ hr)

/-- The operand that stands for a tree unfolds to the tree. -/
theorem unfolds_argumentOf {t : Tree} (h : Known known (tasksOf s n t)) :
    Unfolds known (argumentOf s n t) t := by
  induction t generalizing n with
  | leaf value => exact .literal value
  | node operation left right ihl ihr =>
    rw [tasksOf_node] at h
    obtain ⟨hl, hrest⟩ := h.append
    obtain ⟨hr, htask⟩ := hrest.append
    exact unfolds_task htask (ihl hl) (ihr hr)

/-- Every task of the plan of a tree unfolds to a part of the tree: where the part has no value, the
tree has none. -/
theorem unfolds_of_mem_tasksOf {t : Tree} {task : Task} (h : Known known (tasksOf s n t))
    (ht : task ∈ tasksOf s n t) :
    ∃ u, Unfolds known (.output task.id) u ∧
      ∀ {ε : Type} (apply : Operation → Float → Float → Except ε Float) (fault : ε),
        u.eval apply = .error fault → ∃ fault', t.eval apply = .error fault' := by
  induction t generalizing n with
  | leaf value => exact absurd ht List.not_mem_nil
  | node operation left right ihl ihr =>
    have hwhole := unfolds_argumentOf h
    rw [tasksOf_node] at h ht
    obtain ⟨hl, hrest⟩ := h.append
    obtain ⟨hr, -⟩ := hrest.append
    simp only [List.mem_append, List.mem_singleton] at ht
    rcases ht with ht | ht | rfl
    · obtain ⟨u, hu, hfail⟩ := ihl hl ht
      refine ⟨u, hu, ?_⟩
      intro _ apply fault hf
      obtain ⟨fault', hf'⟩ := hfail apply fault hf
      exact ⟨fault', by rw [Tree.eval, hf']⟩
    · obtain ⟨u, hu, hfail⟩ := ihr hr ht
      refine ⟨u, hu, ?_⟩
      intro _ apply fault hf
      obtain ⟨fault', hf'⟩ := hfail apply fault hf
      -- A failure on the left comes first and hides the one on the right.
      cases hleft : left.eval apply with
      | error fault'' => exact ⟨fault'', by rw [Tree.eval, hleft]⟩
      | ok a => exact ⟨fault', by rw [Tree.eval, hleft, hf']⟩
    · exact ⟨_, hwhole, fun apply fault hf => ⟨fault, hf⟩⟩

/-- A plan whose tasks have different identities is known as a table. -/
theorem known_task? {tasks : List Task} (h : (tasks.map Task.id).Nodup) :
    Known (Batch.task? tasks) tasks :=
  fun task ht => ⟨task, Batch.task?_of_mem h ht, rfl⟩

end Plan

end Piecework
