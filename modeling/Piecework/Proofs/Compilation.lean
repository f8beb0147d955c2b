/-
# Piecework.Proofs.Compilation — sentences of the infix grammar compile to their syntax trees.

The scanner, the stack of waiting operators and the stack of operands are put together here.  Whatever
the brackets and however it is spaced, a sentence with an operator compiles; the last task of its plan
unfolds to the syntax tree of the sentence and to no other; and under every reading of the four
operations, total or not, working the plan off in list order comes to the value of the tree
(`compile_sentence`).  The names of the tasks have to be distinct, and nothing else is asked of them.
-/
import Piecework.Proofs.Grammar
import Piecework.Proofs.Machine
import Piecework.Proofs.Spelling
import Piecework.Proofs.Unfolding

namespace Piecework

open Infix (Symbol)

/-- A sentence with an operator has a tree with an operation. -/
theorem Derives.size_pos {level : Level} {w : List Symbol} {t : Tree} (h : Derives level w t)
    {o : Operation} (ho : Symbol.operator o ∈ w) : 0 < t.size := by
  induction h with
  | number value => simp at ho
  | brackets _ ih => exact ih (by simpa using ho)
  | factor _ ih => exact ih ho
  | product _ ih => exact ih ho
  | multiplying _ _ _ _ _ => exact Nat.succ_pos _
  | adding _ _ _ _ _ => exact Nat.succ_pos _

/-- A text that spells a sentence has the listing of its tree for a postfix sequence. -/
theorem Postfix.ofText_sentence {w : List Symbol} {t : Tree} {text : String}
    (hw : Derives .sum w t) (htext : Infix.Spells w text.toList) :
    Postfix.ofText text = .ok t.items := by
  rw [Postfix.ofText, Infix.scan_spells htext]
  exact arrange_sentence hw

namespace Plan

/-- The tasks of a tree have different identities when its places have different names. -/
theorem nodup_tasksOf {s : Setting} {t : Tree} (h : ((List.range t.size).map s.name).Nodup) :
    ((tasksOf s 0 t).map Task.id).Nodup := by
  rw [map_id_tasksOf, ← List.range_eq_range']
  exact h

/-- An operand of a task depends on nothing but the last task of its own part. -/
theorem mem_of_dependency?_argumentOf {s : Setting} {n : Nat} {t : Tree} {id : TaskId}
    (h : (argumentOf s n t).dependency? = some id) : id ∈ (tasksOf s n t).map Task.id := by
  cases t with
  | leaf value => exact absurd h (by simp [argumentOf, Argument.dependency?])
  | node operation left right =>
    obtain ⟨last, hlast, harg⟩ := getLast?_tasksOf (s := s) (n := n) (t := .node operation left right)
      (Nat.succ_pos _)
    rw [harg, Argument.dependency?, Option.some_inj] at h
    exact h ▸ List.mem_map_of_mem (List.mem_of_getLast? hlast)

/-- The plan of a tree is in an order in which it can run. -/
theorem ordered_tasksOf (s : Setting) (n : Nat) (t : Tree) (seen : List TaskId) :
    Batch.Ordered seen (tasksOf s n t) := by
  induction t generalizing n seen with
  | leaf value => trivial
  | node operation left right ihl ihr =>
    rw [tasksOf_node]
    refine (ihl n seen).append ((ihr (n + left.size) _).append ⟨?_, trivial⟩)
    intro id hid
    simp only [List.mem_append]
    rcases Argument.mem_dependencies_iff.mp hid with hl | hr
    · exact Or.inr (Or.inl (mem_of_dependency?_argumentOf hl))
    · exact Or.inl (mem_of_dependency?_argumentOf hr)

/-- The last task of the plan of a tree unfolds to the tree and to no other. -/
theorem unfolds_getLast?_iff {s : Setting} {t : Tree} {last : Task} {known : TaskId → Option Task}
    (h : Known known (tasksOf s 0 t)) (hlast : (tasksOf s 0 t).getLast? = some last) (u : Tree) :
    Unfolds known (.output last.id) u ↔ u = t := by
  have hsize : 0 < t.size := by
    rw [← length_tasksOf s 0 t, List.length_pos_iff]
    exact List.ne_nil_of_mem (List.mem_of_getLast? hlast)
  obtain ⟨task, htask, harg⟩ := getLast?_tasksOf (s := s) (n := 0) hsize
  rw [hlast, Option.some_inj] at htask
  have hu : Unfolds known (.output last.id) t := by
    rw [htask, ← harg]
    exact unfolds_argumentOf h
  constructor
  · exact fun h => h.unique hu
  · rintro rfl
    exact hu

/-- **Compilation is faithful.**  Every sentence of the infix grammar with an operator compiles, in
every spelling.  The last task of the plan unfolds to the syntax tree of the sentence, and the plan
evaluates in list order to the value of that tree, whatever the operations do. -/
theorem compile_sentence (s : Setting) {w : List Symbol} {t : Tree} {text : String}
    (hw : Derives .sum w t) (hop : ∃ o, Symbol.operator o ∈ w)
    (htext : Infix.Spells w text.toList) (hnames : ((List.range t.size).map s.name).Nodup) :
    ∃ tasks last, ofText s text = .ok tasks ∧ tasks.getLast? = some last ∧
      (∀ u, Unfolds (Batch.task? tasks) (.output last.id) u ↔ u = t) ∧
      ∀ (ε : Type) (apply : Operation → Float → Float → Except ε Float),
        (evaluate apply (fun _ => none) none tasks).outcome = some (t.eval apply) := by
  obtain ⟨o, ho⟩ := hop
  have hsize : 0 < t.size := hw.size_pos ho
  have hnodup := nodup_tasksOf hnames
  have hplan : ofPostfix s t.items = .ok (tasksOf s 0 t) := ofPostfix_items s hsize
  obtain ⟨last, hlast, -⟩ := getLast?_tasksOf (s := s) (n := 0) hsize
  refine ⟨tasksOf s 0 t, last, ?_, hlast, ?_, ?_⟩
  · exact ofText_eq_ok_iff.mpr ⟨t, Postfix.ofText_sentence hw htext, hsize, rfl⟩
  · exact unfolds_getLast?_iff (known_task? hnodup) hlast
  · intro ε apply
    rw [evaluate_ofPostfix apply hplan hnodup, Postfix.outcome_evaluate_items]

/-- Brackets, blanks, a numeral without whole digits and both levels of operators: `8- 2*(1 +.5)`. -/
theorem compile_sentence_bracketed :
    let s : Setting := ⟨⟨0⟩, .standard, fun n => ⟨.ofNat 128 n⟩, .epoch⟩
    let t : Tree := .node .subtract (.leaf 8) (.node .multiply (.leaf 2)
      (.node .add (.leaf 1) (.leaf 0.5)))
    ∃ tasks last, ofText s "8- 2*(1 +.5)" = .ok tasks ∧ tasks.getLast? = some last ∧
      (∀ u, Unfolds (Batch.task? tasks) (.output last.id) u ↔ u = t) ∧
      ∀ (ε : Type) (apply : Operation → Float → Float → Except ε Float),
        (evaluate apply (fun _ => none) none tasks).outcome = some (t.eval apply) := by
  intro s t
  have hchars : "8- 2*(1 +.5)".toList =
      ['8', '-', ' ', '2', '*', '(', '1', ' ', '+', '.', '5', ')'] := by decide
  have number : ∀ {u text : List Char} {w : List Symbol} (v : Float), Infix.IsNumeral u →
      Infix.numeralValue u = v → Number.isFinite v = true → Infix.Stops text →
        Infix.Spells w text → Infix.Spells (.number v :: w) (u ++ text) := by
    rintro u text w v hu rfl hf hs h
    exact .number hu hf hs h
  have htext : Infix.Spells [.number 8, .operator .subtract, .number 2, .operator .multiply,
      .opening, .number 1, .operator .add, .number 0.5, .closing] "8- 2*(1 +.5)".toList := by
    rw [hchars]
    refine number (u := ['8']) 8 (by decide) (by decide +kernel) (by decide +kernel)
      (by decide) ?_
    refine .operator .subtract (.blank (by decide) ?_)
    refine number (u := ['2']) 2 (by decide) (by decide +kernel) (by decide +kernel)
      (by decide) ?_
    refine .operator .multiply (.opening ?_)
    refine number (u := ['1']) 1 (by decide) (by decide +kernel) (by decide +kernel)
      (by decide) ?_
    refine .blank (by decide) (.operator .add ?_)
    exact number (u := ['.', '5']) 0.5 (by decide) (by decide +kernel) (by decide +kernel)
      (by decide) (.closing .done)
  have hw : Derives .sum [.number 8, .operator .subtract, .number 2, .operator .multiply, .opening,
      .number 1, .operator .add, .number 0.5, .closing] t := by
    have inner : Derives .sum [.number 1, .operator .add, .number 0.5] _ :=
      .adding (u := [.number 1]) (.inl rfl) (.product (.factor (.number 1))) (.factor (.number 0.5))
    have right := Derives.multiplying (u := [.number 2]) (.inl rfl) (.factor (.number 2))
      (.brackets inner)
    exact .adding (u := [.number 8]) (.inr rfl) (.product (.factor (.number 8))) right
  exact compile_sentence s hw ⟨.add, by simp⟩ htext (by decide)

end Plan

end Piecework
