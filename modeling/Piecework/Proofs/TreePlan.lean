/-
# Piecework.Proofs.TreePlan — the plan of a syntax tree.

Cutting a postfix sequence into tasks works on a stack of operands and knows no trees.  Here is the
plan that a tree deserves, written down along the tree: the tasks of the left operand, those of the right
one, and one task for the operation itself, whose operands are the literals or the outputs of the last
tasks on either side.  A text compiles exactly when its postfix sequence lists a tree with an operation,
and then to the plan of that tree (`ofText_eq_ok_iff`).
-/
import Piecework.Plan
import Piecework.Proofs.Tree

namespace Piecework.Plan

open Postfix (Item)

/-! ## The plan of a tree -/

/-- The operand that stands for a tree whose tasks are made from place `n` on. -/
def argumentOf (s : Setting) (n : Nat) : Tree → Argument
  | .leaf value => .literal value
  | .node _ left right => .output (s.name (n + left.size + right.size))

/-- The tasks of a tree from place `n` on. -/
def tasksOf (s : Setting) (n : Nat) : Tree → List Task
  | .leaf _ => []
  | .node operation left right =>
    tasksOf s n left ++ (tasksOf s (n + left.size) right ++
      [s.task (n + left.size + right.size) operation (argumentOf s n left)
        (argumentOf s (n + left.size) right)])

theorem tasksOf_leaf (s : Setting) (n : Nat) (value : Float) : tasksOf s n (.leaf value) = [] := rfl

theorem tasksOf_node (s : Setting) (n : Nat) (operation : Operation) (left right : Tree) :
    tasksOf s n (.node operation left right)
      = tasksOf s n left ++ (tasksOf s (n + left.size) right ++
        [s.task (n + left.size + right.size) operation (argumentOf s n left)
          (argumentOf s (n + left.size) right)]) := rfl

theorem length_tasksOf (s : Setting) (n : Nat) (t : Tree) : (tasksOf s n t).length = t.size := by
  induction t generalizing n with
  | leaf value => rfl
  | node operation left right ihl ihr =>
    simp only [tasksOf_node, List.length_append, ihl, ihr, List.length_singleton, Tree.size]
    omega

/-- The tasks of a tree take the names of their places. -/
theorem map_id_tasksOf (s : Setting) (n : Nat) (t : Tree) :
    (tasksOf s n t).map Task.id = (List.range' n t.size).map s.name := by
  induction t generalizing n with
  | leaf value => rfl
  | node operation left right ihl ihr =>
    have hsplit : List.range' n (left.size + right.size + 1) =
        List.range' n left.size ++ (List.range' (n + left.size) right.size ++
          [n + left.size + right.size]) := by
      rw [List.range'_concat, ← List.range'_append_1, List.append_assoc, Nat.one_mul,
        ← Nat.add_assoc]
    simp only [tasksOf_node, List.map_append, ihl, ihr, Tree.size, hsplit, List.map_cons, List.map_nil]
    rfl

theorem plain_of_mem_tasksOf {s : Setting} {n : Nat} {t : Tree} {task : Task}
    (h : task ∈ tasksOf s n t) : task.plain = task ∧ task.owner = s.owner := by
  induction t generalizing n with
  | leaf value => exact absurd h List.not_mem_nil
  | node operation left right ihl ihr =>
    simp only [tasksOf_node, List.mem_append, List.mem_singleton] at h
    rcases h with h | h | rfl
    · exact ihl h
    · exact ihr h
    · exact ⟨rfl, rfl⟩

/-- The tasks of a tree take as long as their operations. -/
theorem duration_of_mem_tasksOf {s : Setting} {n : Nat} {t : Tree} {task : Task}
    (h : task ∈ tasksOf s n t) : task.duration = s.times.of task.operation := by
  induction t generalizing n with
  | leaf value => exact absurd h List.not_mem_nil
  | node operation left right ihl ihr =>
    simp only [tasksOf_node, List.mem_append, List.mem_singleton] at h
    rcases h with h | h | rfl
    · exact ihl h
    · exact ihr h
    · rfl

/-- The last task of a tree with an operation is the one whose output stands for the tree. -/
theorem getLast?_tasksOf {s : Setting} {n : Nat} {t : Tree} (h : 0 < t.size) :
    ∃ last, (tasksOf s n t).getLast? = some last ∧ argumentOf s n t = .output last.id := by
  cases t with
  | leaf value => exact absurd h (Nat.lt_irrefl 0)
  | node operation left right =>
    refine ⟨s.task (n + left.size + right.size) operation (argumentOf s n left)
      (argumentOf s (n + left.size) right), ?_, rfl⟩
    rw [tasksOf_node, ← List.append_assoc, List.getLast?_concat]

/-! ## The listing of a tree is cut into its plan -/

theorem build_nil (s : Setting) (n : Nat) (stack : List Argument) :
    build s n stack [] = if stack.length = 1 ∧ 0 < n then .ok [] else .error .values := rfl

theorem build_number (s : Setting) (n : Nat) (stack : List Argument) (value : Float) (rest : List Item) :
    build s n stack (.number value :: rest) = build s n (.literal value :: stack) rest := rfl

theorem build_operator_cons (s : Setting) (n : Nat) (left right : Argument) (below : List Argument)
    (operation : Operation) (rest : List Item) :
    build s n (right :: left :: below) (.operator operation :: rest)
      = match build s (n + 1) (.output (s.name n) :: below) rest with
        | .ok tasks => .ok (s.task n operation left right :: tasks)
        | .error fault => .error fault := rfl

theorem map_append_nil (x : Except CompileFault (List Task)) : x.map ([] ++ ·) = x := by
  cases x <;> rfl

/-- In the middle of a sequence the listing of a tree comes to the plan of the tree, and leaves one
operand that stands for it. -/
theorem build_items (s : Setting) (t : Tree) (n : Nat) (stack : List Argument) (rest : List Item) :
    build s n stack (t.items ++ rest)
      = (build s (n + t.size) (argumentOf s n t :: stack) rest).map (tasksOf s n t ++ ·) := by
  induction t generalizing n stack rest with
  | leaf value =>
    rw [Tree.items, List.singleton_append, build_number, tasksOf_leaf, map_append_nil]
    rfl
  | node operation left right ihl ihr =>
    rw [Tree.items_node_append, ihl, ihr, build_operator_cons, Tree.size, ← Nat.add_assoc, ← Nat.add_assoc]
    -- Either side has come down to one operand by now, and the operator takes both of them.
    show _ = Except.map _ (build s (n + left.size + right.size + 1)
      (.output (s.name (n + left.size + right.size)) :: stack) rest)
    cases build s (n + left.size + right.size + 1)
        (.output (s.name (n + left.size + right.size)) :: stack) rest with
    | error fault => rfl
    | ok tasks =>
      simp only [Except.map, tasksOf_node, List.append_assoc, List.singleton_append]

/-- The listing of a tree with an operation comes to the plan of the tree. -/
theorem ofPostfix_items (s : Setting) {t : Tree} (h : 0 < t.size) :
    ofPostfix s t.items = .ok (tasksOf s 0 t) := by
  have hb := build_items s t 0 [] []
  rw [List.append_nil, build_nil, if_pos ⟨rfl, by omega⟩] at hb
  rw [ofPostfix, hb, Except.map, List.append_nil]

/-! ## Whatever compiles is the plan of a tree -/

/-- An operator takes two operands, and the rest is built on its output. -/
theorem build_operator {s : Setting} {n : Nat} {operands : List Argument} {operation : Operation}
    {rest : List Item} {tasks : List Task}
    (h : build s n operands (.operator operation :: rest) = .ok tasks) :
    ∃ left right below more, operands = right :: left :: below ∧
      build s (n + 1) (.output (s.name n) :: below) rest = .ok more ∧
      tasks = s.task n operation left right :: more := by
  rcases operands with _ | ⟨right, _ | ⟨left, below⟩⟩
  · exact absurd h (by simp [build])
  · exact absurd h (by simp [build])
  · rw [build_operator_cons] at h
    split at h
    · rename_i more hmore
      exact ⟨left, right, below, more, rfl, hmore, (Except.ok.inj h).symm⟩
    · exact absurd h (by simp)

/-- Where tasks can be made from operands, trees can be grown on a stack of the same height. -/
theorem grow_of_build {s : Setting} {n : Nat} {operands : List Argument} {sequence : List Item}
    {tasks : List Task} (h : build s n operands sequence = .ok tasks) (stack : List Tree)
    (hs : stack.length = operands.length) : ∃ t, Tree.grow stack sequence = some [t] := by
  induction sequence generalizing n operands tasks stack with
  | nil =>
    rw [build_nil] at h
    split at h
    · rename_i hone
      obtain ⟨t, rfl⟩ := List.length_eq_one_iff.mp (hs.trans hone.1)
      exact ⟨t, rfl⟩
    · exact absurd h (by simp)
  | cons item rest ih =>
    cases item with
    | number value =>
      rw [build_number] at h
      exact ih h (.leaf value :: stack) (by simp [hs])
    | operator operation =>
      obtain ⟨left, right, below, more, rfl, hmore, -⟩ := build_operator h
      obtain ⟨r, tail, rfl⟩ := List.exists_cons_of_length_eq_add_one hs
      obtain ⟨l, trees, rfl⟩ := List.exists_cons_of_length_eq_add_one (Nat.succ.inj hs)
      exact ih hmore (.node operation l r :: trees) (by simpa using hs)

theorem ofPostfix_eq_ok_iff {s : Setting} {sequence : List Item} {tasks : List Task} :
    ofPostfix s sequence = .ok tasks ↔
      ∃ t : Tree, sequence = t.items ∧ 0 < t.size ∧ tasks = tasksOf s 0 t := by
  constructor
  · intro h
    obtain ⟨t, ht⟩ := grow_of_build h [] rfl
    have hitems := Tree.eq_items_of_grow ht
    have hsize : 0 < t.size := by
      cases t with
      | leaf value =>
        -- A single number is an operand of nothing, which is refused.
        rw [hitems, Tree.items, ofPostfix, build_number, build_nil] at h
        exact absurd h (by simp)
      | node operation left right => exact Nat.succ_pos _
    rw [hitems, ofPostfix_items s hsize, Except.ok.injEq] at h
    exact ⟨t, hitems, hsize, h.symm⟩
  · rintro ⟨t, rfl, hsize, rfl⟩
    exact ofPostfix_items s hsize

/-- A text compiles when its postfix sequence lists a tree with an operation, to the plan of the tree. -/
theorem ofText_eq_ok_iff {s : Setting} {text : String} {tasks : List Task} :
    ofText s text = .ok tasks ↔
      ∃ t : Tree, Postfix.ofText text = .ok t.items ∧ 0 < t.size ∧ tasks = tasksOf s 0 t := by
  unfold ofText
  cases Postfix.ofText text with
  | error fault => simp
  | ok sequence => simp only [ofPostfix_eq_ok_iff, Except.ok.injEq]

/-- The tasks of a text are new, and they belong to its expression. -/
theorem plain_of_mem_ofText {s : Setting} {text : String} {tasks : List Task} {task : Task}
    (h : ofText s text = .ok tasks) (ht : task ∈ tasks) :
    task.plain = task ∧ task.owner = s.owner := by
  obtain ⟨t, -, -, rfl⟩ := ofText_eq_ok_iff.mp h
  exact plain_of_mem_tasksOf ht

/-- The tasks of a text take as long as their operations. -/
theorem duration_of_mem_ofText {s : Setting} {text : String} {tasks : List Task} {task : Task}
    (h : ofText s text = .ok tasks) (ht : task ∈ tasks) :
    task.duration = s.times.of task.operation := by
  obtain ⟨t, -, -, rfl⟩ := ofText_eq_ok_iff.mp h
  exact duration_of_mem_tasksOf ht

end Piecework.Plan
