/-
# Piecework.Proofs.Machine — evaluating postfix sequences and plans, one operation after the other.

Two evaluators that know nothing of trees, stores or leases.  One reads a postfix sequence from left to
right on a stack of values; the other works the tasks of a plan off in list order and looks operands up
among the results so far.  Both stop at the first operation without a value, and both leave a trace: the
results in order, and how it ended.  A plan leaves the same trace as the sequence it was cut from
(`evaluate_ofPostfix`), and the listing of a tree ends with the value of the tree
(`outcome_evaluate_items`).
-/
import Mathlib.Data.List.Forall2
import Piecework.Proofs.TreePlan

namespace Piecework

/-- What operations done one after the other leave behind. -/
structure Trace (ε : Type) where
  /-- The results, in order, up to the first failure. -/
  results : List Float
  /-- The value at the end, or the fault that stopped the work; nothing where operands are missing. -/
  outcome : Option (Except ε Float)

/-- The trace with one more result in front. -/
def Trace.cons {ε : Type} (value : Float) (trace : Trace ε) : Trace ε :=
  { trace with results := value :: trace.results }

variable {ε : Type} (apply : Operation → Float → Float → Except ε Float)

/-- Evaluates a postfix sequence on a stack of values, the most recent one first. -/
def Postfix.evaluate : List Float → List Postfix.Item → Trace ε
  | stack, [] =>
    match stack with
    | [value] => ⟨[], some (.ok value)⟩
    | _ => ⟨[], none⟩
  | stack, .number value :: rest => evaluate (value :: stack) rest
  | stack, .operator operation :: rest =>
    match stack with
    | right :: left :: below =>
      match apply operation left right with
      | .ok value => (evaluate (value :: below) rest).cons value
      | .error fault => ⟨[], some (.error fault)⟩
    | _ => ⟨[], none⟩

/-- The number that an operand stands for, by the results so far. -/
def Argument.value? (known : TaskId → Option Float) : Argument → Option Float
  | .literal value => some value
  | .output id => known id

/-- The results with one more. -/
def noting (known : TaskId → Option Float) (id : TaskId) (value : Float) : TaskId → Option Float :=
  fun other => if other = id then some value else known other

/-- Works tasks off in list order.  The value of a plan is the latest result. -/
def Plan.evaluate (known : TaskId → Option Float) (latest : Option Float) : List Task → Trace ε
  | [] => ⟨[], latest.map .ok⟩
  | task :: rest =>
    match task.left.value? known, task.right.value? known with
    | some a, some b =>
      match apply task.operation a b with
      | .ok value => (evaluate (noting known task.id value) (some value) rest).cons value
      | .error fault => ⟨[], some (.error fault)⟩
    | _, _ => ⟨[], none⟩

/-! ## The listing of a tree -/

/-- In the middle of a sequence the listing of a tree puts the value of the tree on the stack, or stops
where the tree has none. -/
theorem Postfix.outcome_evaluate_append (t : Tree) (stack : List Float) (rest : List Postfix.Item) :
    (evaluate apply stack (t.items ++ rest)).outcome =
      match t.eval apply with
      | .ok value => (evaluate apply (value :: stack) rest).outcome
      | .error fault => some (.error fault) := by
  induction t generalizing stack rest with
  | leaf value =>
    rw [Tree.items, List.singleton_append]
    rfl
  | node operation left right ihl ihr =>
    -- The right operand and the operator are the rest behind the left operand.
    rw [Tree.items_node_append, ihl, Tree.eval]
    cases left.eval apply with
    | error fault => rfl
    | ok a =>
      dsimp only
      rw [ihr]
      cases right.eval apply with
      | error fault => rfl
      | ok b =>
        dsimp only
        rw [evaluate]
        cases apply operation a b <;> rfl

/-- The listing of a tree ends with the value of the tree. -/
theorem Postfix.outcome_evaluate_items (t : Tree) :
    (evaluate apply [] t.items).outcome = some (t.eval apply) := by
  have h := outcome_evaluate_append apply t [] []
  rw [List.append_nil] at h
  rw [h]
  cases t.eval apply <;> rfl

/-! ## A plan against the sequence it was cut from -/

namespace Plan

/-- The operands on the stack of the plan stand for the values on the stack of the machine. -/
def Stands (known : TaskId → Option Float) (operands : List Argument) (stack : List Float) : Prop :=
  List.Forall₂ (fun a v => a.value? known = some v) operands stack

/-- A new result disturbs no operand that does not refer to it. -/
theorem Stands.noting {known : TaskId → Option Float} {operands : List Argument} {stack : List Float}
    (h : Stands known operands stack) {id : TaskId} (value : Float)
    (hid : ∀ a ∈ operands, a ≠ .output id) : Stands (noting known id value) operands stack := by
  induction h with
  | nil => exact .nil
  | @cons a v operands stack ha _ ih =>
    refine .cons ?_ (ih fun b hb => hid b (List.mem_cons_of_mem a hb))
    cases a with
    | literal value => exact ha
    | output other =>
      have hne : other ≠ id := fun he => hid _ List.mem_cons_self (congrArg Argument.output he)
      show (if other = id then some value else known other) = some v
      rw [if_neg hne]
      exact ha

/-- No operand refers to a task that is still to come. -/
def Ahead (operands : List Argument) (tasks : List Task) : Prop :=
  ∀ a ∈ operands, ∀ task ∈ tasks, a ≠ .output task.id

/-- How a plan and the machine stand to each other after `n` operations.  Once there are any, the topmost
operand is the only one left at the end, and it is the output of the latest task. -/
structure InStep (known : TaskId → Option Float) (latest : Option Float) (n : Nat)
    (operands : List Argument) (stack : List Float) (tasks : List Task) : Prop where
  stands : Stands known operands stack
  ahead : Ahead operands tasks
  nodup : (tasks.map Task.id).Nodup
  top : 0 < n → ∃ a below, operands = a :: below ∧ (below = [] → a.value? known = latest)

namespace InStep

variable {known : TaskId → Option Float} {latest : Option Float} {n : Nat} {stack : List Float}
  {operands : List Argument} {tasks : List Task} {task : Task} {left right : Argument}

/-- A number goes on both stacks. -/
theorem number (h : InStep known latest n operands stack tasks) (value : Float) :
    InStep known latest n (.literal value :: operands) (value :: stack) tasks := by
  refine ⟨.cons rfl h.stands, ?_, h.nodup, ?_⟩
  · intro a ha task htask
    rcases List.mem_cons.mp ha with rfl | ha
    · exact Argument.noConfusion
    · exact h.ahead a ha task htask
  · intro hn
    obtain ⟨a, below, rfl, -⟩ := h.top hn
    exact ⟨_, _, rfl, fun hnil => absurd hnil (List.cons_ne_nil _ _)⟩

/-- The two topmost operands stand for the two topmost values. -/
theorem top_two (h : InStep known latest n (right :: left :: operands) stack tasks) :
    ∃ a b below, stack = b :: a :: below ∧ left.value? known = some a ∧ right.value? known = some b := by
  obtain ⟨b, tail, hb, htail, rfl⟩ := List.forall₂_cons_left_iff.mp h.stands
  obtain ⟨a, below, ha, -, rfl⟩ := List.forall₂_cons_left_iff.mp htail
  exact ⟨a, b, below, rfl, ha, hb⟩

/-- A result takes the place of the operands of its task. -/
theorem operator {a b : Float}
    (h : InStep known latest n (right :: left :: operands) (b :: a :: stack) (task :: tasks))
    (value : Float) :
    InStep (noting known task.id value) (some value) (n + 1) (.output task.id :: operands)
      (value :: stack) tasks := by
  obtain ⟨hstands, hahead, hnodup, -⟩ := h
  rw [List.map_cons, List.nodup_cons] at hnodup
  have hnew : (Argument.output task.id).value? (noting known task.id value) = some value := if_pos rfl
  have hkept : Stands (noting known task.id value) operands stack := by
    cases hstands with
    | cons _ htail =>
      cases htail with
      | cons _ hbelow =>
        exact Stands.noting hbelow value fun c hc => hahead c (by simp [hc]) task List.mem_cons_self
  refine ⟨.cons hnew hkept, ?_, hnodup.2, fun _ => ⟨_, _, rfl, fun _ => hnew⟩⟩
  intro c hc other hother
  rcases List.mem_cons.mp hc with rfl | hc
  -- The operand is the new output, and identities are used once.
  · intro he
    exact hnodup.1 (List.mem_map.mpr ⟨other, hother, (Argument.output.inj he).symm⟩)
  · exact hahead c (by simp [hc]) other (List.mem_cons_of_mem task hother)

/-- At the end the machine has the latest result. -/
theorem evaluate_nil (h : InStep known latest n operands stack []) (hone : operands.length = 1)
    (hn : 0 < n) : Plan.evaluate apply known latest [] = Postfix.evaluate apply stack [] := by
  obtain ⟨a, rfl⟩ := List.length_eq_one_iff.mp hone
  obtain ⟨b, below, hab, hval⟩ := h.top hn
  obtain ⟨rfl, rfl⟩ : a = b ∧ below = [] := by simpa [eq_comm] using hab
  cases h.stands with
  | cons ha hnil =>
    cases hnil
    rw [Plan.evaluate, ← hval rfl, ha]
    rfl

end InStep

/-- A plan and the machine stay in step to the end of the sequence. -/
theorem evaluate_build {s : Setting} {sequence : List Postfix.Item} :
    ∀ {n : Nat} {operands : List Argument} {stack : List Float} {tasks : List Task}
      {known : TaskId → Option Float} {latest : Option Float},
      build s n operands sequence = .ok tasks → InStep known latest n operands stack tasks →
      Plan.evaluate apply known latest tasks = Postfix.evaluate apply stack sequence := by
  induction sequence with
  | nil =>
    intro n operands stack tasks known latest hb h
    rw [build_nil] at hb
    split at hb
    · rename_i hone
      rw [Except.ok.injEq] at hb
      subst hb
      exact h.evaluate_nil apply hone.1 hone.2
    · exact absurd hb (by simp)
  | cons item rest ih =>
    intro n operands stack tasks known latest hb h
    cases item with
    | number value =>
      rw [build_number] at hb
      rw [Postfix.evaluate]
      exact ih hb (h.number value)
    | operator operation =>
      obtain ⟨left, right, below, more, rfl, hmore, rfl⟩ := build_operator hb
      obtain ⟨a, b, values, rfl, hleft, hright⟩ := h.top_two
      have ha : (s.task n operation left right).left.value? known = some a := hleft
      have hr : (s.task n operation left right).right.value? known = some b := hright
      have hop : (s.task n operation left right).operation = operation := rfl
      rw [Plan.evaluate, Postfix.evaluate, ha, hr, hop]
      dsimp only
      cases apply operation a b with
      | error fault => rfl
      | ok value =>
        dsimp only
        rw [← ih hmore (h.operator value)]

/-- A plan leaves the trace of the sequence it was cut from. -/
theorem evaluate_ofPostfix {s : Setting} {sequence : List Postfix.Item} {tasks : List Task}
    (h : ofPostfix s sequence = .ok tasks) (hn : (tasks.map Task.id).Nodup) :
    Plan.evaluate apply (fun _ => none) none tasks = Postfix.evaluate apply [] sequence :=
  evaluate_build apply h
    ⟨.nil, fun _ ha => absurd ha List.not_mem_nil, hn, fun h => absurd h (Nat.lt_irrefl 0)⟩

/-! ## How long a trace is -/

/-- The first task of a plan either stops the work or leaves a result in front. -/
theorem evaluate_cons_cases (task : Task) (rest : List Task) (known : TaskId → Option Float)
    (latest : Option Float) :
    (∃ value, Plan.evaluate apply known latest (task :: rest)
        = (Plan.evaluate apply (noting known task.id value) (some value) rest).cons value) ∨
      (∃ fault, Plan.evaluate apply known latest (task :: rest) = ⟨[], some (.error fault)⟩) ∨
      Plan.evaluate apply known latest (task :: rest) = ⟨[], none⟩ := by
  rw [Plan.evaluate]
  cases task.left.value? known with
  | none => exact Or.inr (Or.inr rfl)
  | some a =>
    cases task.right.value? known with
    | none => exact Or.inr (Or.inr rfl)
    | some b =>
      dsimp only
      cases apply task.operation a b with
      | ok value => exact Or.inl ⟨value, rfl⟩
      | error fault => exact Or.inr (Or.inl ⟨fault, rfl⟩)

/-- Work that comes to a value leaves a result for every task, and the value is the last of them. -/
theorem results_of_ok {tasks : List Task} {known : TaskId → Option Float} {latest : Option Float}
    {v : Float} (h : (Plan.evaluate apply known latest tasks).outcome = some (.ok v)) :
    (Plan.evaluate apply known latest tasks).results.length = tasks.length ∧
      (Plan.evaluate apply known latest tasks).results.getLast?.or latest = some v := by
  induction tasks generalizing known latest with
  | nil =>
    obtain ⟨w, hw, hv⟩ := Option.map_eq_some_iff.mp h
    exact ⟨rfl, hw.trans (congrArg some (Except.ok.inj hv))⟩
  | cons task rest ih =>
    rcases evaluate_cons_cases apply task rest known latest with ⟨w, hw⟩ | ⟨fault, hf⟩ | hnone
    · rw [hw] at h ⊢
      obtain ⟨hlength, hlast⟩ := ih h
      refine ⟨congrArg (· + 1) hlength, ?_⟩
      show (w :: _).getLast?.or latest = some v
      rw [List.getLast?_cons, Option.some_or, ← hlast]
      cases (Plan.evaluate apply (noting known task.id w) (some w) rest).results.getLast? <;> rfl
    · rw [hf] at h
      exact absurd h (by simp)
    · rw [hnone] at h
      exact absurd h (by simp)

/-- Work that stops at a failure leaves some tasks without a result. -/
theorem length_results_lt_of_error {tasks : List Task} {known : TaskId → Option Float}
    {latest : Option Float} {fault : ε}
    (h : (Plan.evaluate apply known latest tasks).outcome = some (.error fault)) :
    (Plan.evaluate apply known latest tasks).results.length < tasks.length := by
  induction tasks generalizing known latest with
  | nil =>
    obtain ⟨w, -, hv⟩ := Option.map_eq_some_iff.mp h
    exact absurd hv (by simp)
  | cons task rest ih =>
    rcases evaluate_cons_cases apply task rest known latest with ⟨w, hw⟩ | ⟨fault, hf⟩ | hnone
    · rw [hw] at h ⊢
      exact Nat.succ_lt_succ (ih h)
    · rw [hf]
      exact Nat.succ_pos _
    · rw [hnone]
      exact Nat.succ_pos _

end Plan

end Piecework
