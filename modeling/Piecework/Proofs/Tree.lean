/-
# Piecework.Proofs.Tree — syntax trees, and the postfix sequences that list them.

A tree is what an expression means before anything is computed: numbers at its leaves, operations at its
nodes, the left operand on the left.  Its postfix listing writes both operands in front of each
operation.  Every postfix sequence that comes down to a single operand lists exactly one tree
(`eq_items_of_grow`), so nothing about compiled expressions needs a second notion of structure.
-/
import Piecework.Postfix

namespace Piecework

/-- The syntax tree of an expression. -/
inductive Tree where
  | leaf (value : Float)
  | node (operation : Operation) (left right : Tree)
deriving DecidableEq

namespace Tree

open Postfix (Item)

/-- The number of operations. -/
def size : Tree → Nat
  | leaf _ => 0
  | node _ left right => left.size + right.size + 1

/-- The postfix listing. -/
def items : Tree → List Item
  | leaf value => [.number value]
  | node operation left right => left.items ++ (right.items ++ [.operator operation])

/-- Behind the listing of an operation there is room for more. -/
theorem items_node_append (operation : Operation) (left right : Tree) (rest : List Item) :
    (node operation left right).items ++ rest
      = left.items ++ (right.items ++ (.operator operation :: rest)) := by
  simp only [items, List.append_assoc, List.singleton_append]

/-- The value of a tree when `apply` says what the operations do.  The left operand comes first, and the
first failure is the result. -/
def eval {ε : Type} (apply : Operation → Float → Float → Except ε Float) : Tree → Except ε Float
  | leaf value => .ok value
  | node operation left right =>
    match left.eval apply with
    | .error fault => .error fault
    | .ok a =>
      match right.eval apply with
      | .error fault => .error fault
      | .ok b => apply operation a b

/-! ## Postfix sequences list trees -/

/-- Reads a postfix sequence on a stack of trees, the most recent one first. -/
def grow : List Tree → List Item → Option (List Tree)
  | stack, [] => some stack
  | stack, .number value :: rest => grow (leaf value :: stack) rest
  | right :: left :: below, .operator operation :: rest => grow (node operation left right :: below) rest
  | _, .operator _ :: _ => none

/-- The listings of the trees on a stack, the earliest one first. -/
def listing (stack : List Tree) : List Item := stack.reverse.flatMap items

theorem listing_cons (t : Tree) (stack : List Tree) : listing (t :: stack) = listing stack ++ t.items := by
  simp [listing]

/-- Reading neither loses an item nor moves one. -/
theorem listing_grow {stack out : List Tree} {sequence : List Item}
    (h : grow stack sequence = some out) : listing out = listing stack ++ sequence := by
  fun_induction grow stack sequence with
  | case1 stack =>
    rw [Option.some_inj] at h
    rw [h, List.append_nil]
  | case2 stack value rest ih =>
    rw [ih h, listing_cons, items, List.append_assoc, List.singleton_append]
  | case3 right left below operation rest ih =>
    rw [ih h, listing_cons, listing_cons, listing_cons, items]
    simp only [List.append_assoc, List.singleton_append]
  | case4 => exact absurd h (by simp)

/-- A sequence that comes down to one tree is the listing of that tree. -/
theorem eq_items_of_grow {sequence : List Item} {t : Tree} (h : grow [] sequence = some [t]) :
    sequence = t.items := by
  have hl := listing_grow h
  simpa [listing] using hl.symm

end Tree

end Piecework
