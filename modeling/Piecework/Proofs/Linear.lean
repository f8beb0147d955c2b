/-
# Piecework.Proofs.Linear — which sequences are cut into tasks, and that every output is used once.

A sequence of numbers and operators need not come from a text.  Read from the left, a number adds an operand, and
an operator puts one in the place of two.  A sequence is cut into tasks exactly when it has an operator, every
operator finds two operands, and one operand is left over (`exists_ofPostfix_iff`); there is one fault for all
others.

Nothing that a task puts out is lost on the way, and nothing is used twice: the outputs that the tasks of a tree
refer to, and the one that stands for the tree, are the outputs of these tasks, each of them once
(`references_tasksOf`).
-/
import Mathlib.Data.List.Nodup
import Piecework.Proofs.Acceptance

namespace Piecework

/-! ## Operands and operators in balance -/

namespace Postfix

/-- The operands that a sequence leaves. -/
def depth (items : List Item) : Int := (numbersIn items).length - (operatorsIn items).length

/-- Sequences with an operator in which every operator finds two operands, and which leave one. -/
structure WellFormed (items : List Item) : Prop where
  operator : operatorsIn items ≠ []
  operands : ∀ front o rest, items = front ++ .operator o :: rest → 2 ≤ depth front
  single : depth items = 1

/-- Every operator finds two operands, where `height` of them are there in front of the sequence. -/
def Supplied (height : Int) (items : List Item) : Prop :=
  ∀ front o rest, items = front ++ .operator o :: rest → 2 ≤ height + depth front

theorem depth_nil : depth [] = 0 := rfl

theorem depth_number (value : Float) (items : List Item) : depth (.number value :: items) = depth items + 1 := by
  simp only [depth, numbersIn, operatorsIn, List.filterMap_cons, List.length_cons]
  omega

theorem depth_operator (o : Operation) (items : List Item) : depth (.operator o :: items) = depth items - 1 := by
  simp only [depth, numbersIn, operatorsIn, List.filterMap_cons, List.length_cons]
  omega

theorem supplied_nil (height : Int) : Supplied height [] :=
  fun _ _ _ h => absurd h (by simp)

theorem supplied_number {height : Int} {value : Float} {items : List Item} :
    Supplied height (.number value :: items) ↔ Supplied (height + 1) items := by
  constructor
  · intro h front o rest hsplit
    have hfront := h (.number value :: front) o rest (congrArg _ hsplit)
    rw [depth_number] at hfront
    omega
  · intro h front o rest hsplit
    cases front with
    | nil => exact absurd hsplit (by simp)
    | cons item front =>
      obtain ⟨rfl, hrest⟩ := List.cons.inj hsplit
      have hfront := h front o rest hrest
      rw [depth_number]
      omega

theorem supplied_operator {height : Int} {o : Operation} {items : List Item} :
    Supplied height (.operator o :: items) ↔ 2 ≤ height ∧ Supplied (height - 1) items := by
  constructor
  · intro h
    refine ⟨by simpa [depth_nil] using h [] o items rfl, ?_⟩
    intro front p rest hsplit
    have hfront := h (.operator o :: front) p rest (congrArg _ hsplit)
    rw [depth_operator] at hfront
    omega
  · rintro ⟨htwo, h⟩ front p rest hsplit
    cases front with
    | nil => simpa [depth_nil] using htwo
    | cons item front =>
      obtain ⟨rfl, hrest⟩ := List.cons.inj hsplit
      have hfront := h front p rest hrest
      rw [depth_operator]
      omega

end Postfix

/-! ## Which sequences are cut -/

namespace Plan

open Postfix

variable {s : Setting}

/-- In the middle of a sequence it counts how many operands there are, and not which. -/
theorem exists_build_iff {n : Nat} {stack : List Argument} {items : List Item} :
    (∃ tasks, build s n stack items = .ok tasks) ↔
      Supplied stack.length items ∧ stack.length + depth items = 1 ∧ (0 < n ∨ operatorsIn items ≠ []) := by
  -- A number raises the stack and an operator lowers it, each by one, and the depth of the rest makes up for it.
  induction items generalizing n stack with
  | nil =>
    rw [build_nil, depth_nil]
    by_cases h : stack.length = 1 ∧ 0 < n
    · simp [h, supplied_nil]
    · simp only [if_neg h, reduceCtorEq, exists_false, false_iff, not_and]
      rintro - hone (hn | hne)
      · exact h ⟨by omega, hn⟩
      · exact hne rfl
  | cons item rest ih =>
    cases item with
    | number value =>
      have hoperators : operatorsIn (.number value :: rest) = operatorsIn rest := rfl
      rw [build_number, ih, supplied_number, depth_number, hoperators, List.length_cons]
      push_cast
      rw [add_right_comm, add_assoc]
    | operator o =>
      rw [supplied_operator, depth_operator]
      have hoperators : operatorsIn (.operator o :: rest) ≠ [] := List.cons_ne_nil _ _
      constructor
      · rintro ⟨tasks, h⟩
        obtain ⟨left, right, below, more, rfl, hmore, -⟩ := build_operator h
        obtain ⟨hsupplied, hsingle, -⟩ := ih.mp ⟨more, hmore⟩
        simp only [List.length_cons] at hsupplied hsingle ⊢
        push_cast at hsupplied hsingle ⊢
        exact ⟨⟨by omega, by simpa using hsupplied⟩, by omega, Or.inr hoperators⟩
      · rintro ⟨⟨htwo, hsupplied⟩, hsingle, -⟩
        rcases stack with _ | ⟨right, _ | ⟨left, below⟩⟩
        · exact absurd htwo (by simp)
        · exact absurd htwo (by simp)
        · simp only [List.length_cons] at hsupplied hsingle
          push_cast at hsupplied hsingle
          have hrest : ∃ tasks, build s (n + 1) (.output (s.name n) :: below) rest = .ok tasks := by
            refine ih.mpr ⟨?_, ?_, Or.inl (Nat.succ_pos n)⟩
            · simpa using hsupplied
            · simp only [List.length_cons]
              push_cast
              omega
          obtain ⟨more, hmore⟩ := hrest
          exact ⟨s.task n o left right :: more, by rw [build_operator_cons, hmore]⟩

/-- What is cut into tasks. -/
theorem exists_ofPostfix_iff {items : List Item} :
    (∃ tasks, ofPostfix s items = .ok tasks) ↔ WellFormed items := by
  rw [ofPostfix, exists_build_iff]
  simp only [List.length_nil, Nat.cast_zero, zero_add, Nat.lt_irrefl, false_or, Supplied]
  constructor
  · rintro ⟨hoperands, hsingle, hoperator⟩
    exact ⟨hoperator, hoperands, hsingle⟩
  · exact fun h => ⟨h.operands, h.single, h.operator⟩

theorem ofPostfix_of_not_wellFormed {items : List Item} (h : ¬WellFormed items) :
    ofPostfix s items = .error .values := by
  cases hbuilt : ofPostfix s items with
  | ok tasks => exact absurd (exists_ofPostfix_iff.mp ⟨tasks, hbuilt⟩) h
  | error fault => exact congrArg Except.error (build_error hbuilt)

end Plan

/-! ## What tasks refer to -/

/-- The outputs that are operands of the task, the left one first. -/
def Task.references (t : Task) : List TaskId := [t.left, t.right].filterMap Argument.dependency?

/-- The outputs that are operands of tasks, each as often as it is one. -/
def Batch.references (tasks : List Task) : List TaskId := tasks.flatMap Task.references

theorem Task.references_eq (t : Task) :
    t.references = t.left.dependency?.toList ++ t.right.dependency?.toList := by
  rw [references]
  cases hl : t.left.dependency? <;> cases hr : t.right.dependency? <;> simp [hl, hr]

/-- A task that nobody has worked on depends on what it refers to, unless that is twice the same. -/
theorem Task.dependencies_eq_references {t : Task} (h : t.plain = t) (hnodup : t.references.Nodup) :
    t.dependencies = t.references := by
  have hdeps : t.dependencies = t.left.dependencies t.right := by
    rw [← h]
    rfl
  rw [references_eq] at hnodup ⊢
  rw [hdeps, Argument.dependencies]
  cases hl : t.left.dependency? with
  | none => cases hr : t.right.dependency? <;> rfl
  | some a =>
    cases hr : t.right.dependency? with
    | none => rfl
    | some b =>
      have hne : a ≠ b := by
        rw [hl, hr] at hnodup
        simpa using hnodup
      simp [hne]

theorem Batch.references_append (u v : List Task) : references (u ++ v) = references u ++ references v :=
  List.flatMap_append

theorem Batch.references_singleton (t : Task) : references [t] = t.references :=
  List.append_nil _

namespace Plan

open Postfix

variable {s : Setting}

theorem map_operation_tasksOf (s : Setting) (n : Nat) (t : Tree) :
    (tasksOf s n t).map Task.operation = t.operations := by
  induction t generalizing n with
  | leaf value => rfl
  | node o left right ihl ihr =>
    rw [tasksOf_node, List.map_append, List.map_append, ihl, ihr]
    rfl

/-- The tasks of a tree refer to the output of every task once, except to the one that stands for the tree. -/
theorem references_tasksOf (s : Setting) (n : Nat) (t : Tree) :
    (Batch.references (tasksOf s n t) ++ (argumentOf s n t).dependency?.toList).Perm
      ((tasksOf s n t).map Task.id) := by
  induction t generalizing n with
  | leaf value => exact .nil
  | node o left right ihl ihr =>
    refine List.perm_iff_count.mpr fun id => ?_
    have hleft := (ihl n).count_eq id
    have hright := (ihr (n + left.size)).count_eq id
    -- The task of the node takes what stood for either side, and its own output stands for the node.
    simp only [tasksOf_node, Batch.references_append, Batch.references_singleton, Task.references_eq, List.map_append,
      List.count_append] at hleft hright ⊢
    have hnode : (argumentOf s n (.node o left right)).dependency?.toList =
        [s.task (n + left.size + right.size) o (argumentOf s n left)
          (argumentOf s (n + left.size) right)].map Task.id := rfl
    rw [hnode]
    simp only [Setting.task, Task.fresh]
    omega

/-- The tasks do what the sequence says, with nothing left over. -/
structure Realizes (s : Setting) (items : List Item) (tasks : List Task) : Prop where
  /-- One task for each operator, in their order. -/
  operations : tasks.map Task.operation = operatorsIn items
  /-- They are as the setting says, and nobody has worked on them. -/
  fresh : ∀ t ∈ tasks, t.duration = s.times.of t.operation ∧ t.owner = s.owner ∧ t.status = .pending
  /-- Tasks refer to earlier ones. -/
  earlier : ∀ front t rest, tasks = front ++ t :: rest → ∀ id ∈ t.references, ∃ u ∈ front, u.id = id
  dependencies : ∀ t ∈ tasks, t.dependencies = t.references
  /-- Every output but the last is one operand of one task; the last is none, and unfolds to all numbers of the
  sequence. -/
  linear : ∃ front last, tasks = front ++ [last] ∧
    (∀ t ∈ front, (Batch.references tasks).count t.id = 1) ∧ last.id ∉ Batch.references tasks ∧
    ∃ tree, (∀ u, Unfolds (Batch.task? tasks) (.output last.id) u ↔ u = tree) ∧ tree.leaves = numbersIn items

/-- Where the last task stands for the tree, all others are referred to once, and the last is not. -/
theorem linear_tasksOf {t : Tree} (hsize : 0 < t.size) (hnodup : ((tasksOf s 0 t).map Task.id).Nodup) :
    ∃ front last, tasksOf s 0 t = front ++ [last] ∧
      (Batch.references (tasksOf s 0 t)).Perm (front.map Task.id) ∧
      (∀ u ∈ front, (Batch.references (tasksOf s 0 t)).count u.id = 1) ∧
      last.id ∉ Batch.references (tasksOf s 0 t) := by
  obtain ⟨last, hlast, harg⟩ := getLast?_tasksOf (s := s) (n := 0) hsize
  obtain ⟨front, hfront⟩ := List.getLast?_eq_some_iff.mp hlast
  have hperm := references_tasksOf s 0 t
  rw [harg] at hperm
  rw [hfront, List.map_append, List.map_singleton] at hnodup hperm
  rw [hfront]
  have hrefs := (List.perm_append_right_iff [last.id]).mp hperm
  obtain ⟨hnd, -, hapart⟩ := List.nodup_append.mp hnodup
  refine ⟨front, last, rfl, hrefs, ?_, ?_⟩
  · intro u hu
    rw [hrefs.count_eq]
    exact List.count_eq_one_of_mem hnd (List.mem_map_of_mem hu)
  · rw [hrefs.mem_iff]
    exact fun hmem => hapart _ hmem _ List.mem_cons_self rfl

theorem realizes_tasksOf {t : Tree} (hsize : 0 < t.size) (hnodup : ((tasksOf s 0 t).map Task.id).Nodup) :
    Realizes s t.items (tasksOf s 0 t) := by
  obtain ⟨front, last, hfront, hperm, honce, hlast⟩ := linear_tasksOf hsize hnodup
  have hreferences : (Batch.references (tasksOf s 0 t)).Nodup := by
    refine hperm.nodup_iff.mpr ?_
    rw [hfront, List.map_append] at hnodup
    exact (List.nodup_append.mp hnodup).1
  have hdeps : ∀ u ∈ tasksOf s 0 t, u.dependencies = u.references := fun u hu =>
    Task.dependencies_eq_references (plain_of_mem_tasksOf hu).1 ((List.nodup_flatMap.mp hreferences).1 u hu)
  refine ⟨?_, ?_, ?_, hdeps, front, last, hfront, honce, hlast, t, ?_, (numbersIn_items t).symm⟩
  · rw [map_operation_tasksOf, operatorsIn_items]
  · intro u hu
    obtain ⟨hplain, howner⟩ := plain_of_mem_tasksOf hu
    refine ⟨duration_of_mem_tasksOf hu, howner, ?_⟩
    rw [← hplain]
    rfl
  · intro before u rest hsplit id hid
    have hordered := ordered_tasksOf s 0 t []
    rw [hsplit] at hordered
    rw [← hdeps u (by simp [hsplit])] at hid
    rcases hordered.mem_of_mem_dependencies hid with hmem | hmem
    · simpa using hmem
    · exact absurd hmem List.not_mem_nil
  · intro u
    exact unfolds_getLast?_iff (known_task? hnodup) (by rw [hfront, List.getLast?_concat]) u

/-- **Cutting a sequence into tasks.**  Of all sequences just the well-formed ones are cut, and the others are
refused for their values.  Where the names of the tasks differ, the plan has a task for each operator, in their
order and as the setting says; tasks refer to earlier ones only and depend on what they refer to; every output but
the last is used once, and the last unfolds to the numbers of the sequence, from the left. -/
theorem ofPostfix_linear (s : Setting) (items : List Item) :
    ((∃ tasks, ofPostfix s items = .ok tasks) ↔ WellFormed items) ∧
    (¬WellFormed items → ofPostfix s items = .error .values) ∧
    ∀ tasks, ofPostfix s items = .ok tasks →
      ((List.range (operatorsIn items).length).map s.name).Nodup → Realizes s items tasks := by
  refine ⟨exists_ofPostfix_iff, ofPostfix_of_not_wellFormed, ?_⟩
  intro tasks htasks hnames
  obtain ⟨t, rfl, hsize, rfl⟩ := ofPostfix_eq_ok_iff.mp htasks
  rw [operatorsIn_items, t.length_operations] at hnames
  exact realizes_tasksOf hsize (nodup_tasksOf hnames)

/-- The sequence of `(1+2)*(3-4)`, and one that leaves two operands. -/
theorem ofPostfix_linear_product :
    let s : Setting := ⟨⟨0⟩, .standard, fun n => ⟨.ofNat 128 n⟩, .epoch⟩
    let items : List Item := [.number 1, .number 2, .operator .add, .number 3, .number 4, .operator .subtract,
      .operator .multiply]
    (∃ tasks, ofPostfix s items = .ok tasks ∧ Realizes s items tasks) ∧
      ofPostfix s [.number 1, .number 2] = .error .values := by
  intro s items
  obtain ⟨-, -, hplan⟩ := ofPostfix_linear s items
  obtain ⟨-, hrefused, -⟩ := ofPostfix_linear s [.number 1, .number 2]
  refine ⟨⟨_, rfl, hplan _ rfl (by decide)⟩, hrefused ?_⟩
  exact fun h => h.operator rfl

end Plan

end Piecework
