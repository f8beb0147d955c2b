/-
# Piecework.Proofs.Acceptance — which texts compile, and what becomes of the others.

Compiling looks at three things: whether the text spells symbols at all, whether the brackets pair up, and
whether every operator finds two operands when it is put out.  Nobody looks at whether operands and operators
come in turn, so texts compile that are no sentences, such as `1 2 +`.  What does come in turn and compiles is a
sentence (`inTurn_and_balanced_iff`), and whatever compiles works with the numbers of the text in their order and
with its operators (`Plan.ofText_spec`).

The rearrangement is told symbol by symbol: a symbol is put out or waits, unless it is a closing bracket where none
is open (`steps_or_unopened`).  So it fails exactly where the brackets do, it puts all numbers out as they come, and
every operator once.
-/
import Mathlib.Data.List.Perm.Basic
import Piecework.Proofs.Compilation
import Piecework.Proofs.Sentence

namespace Piecework

open Infix (Symbol)

/-! ## Numbers and operators -/

/-- The numbers among symbols, in order. -/
def numbersOf (w : List Symbol) : List Float :=
  w.filterMap fun | .number value => some value | _ => none

/-- The operators among symbols, in order. -/
def operatorsOf (w : List Symbol) : List Operation :=
  w.filterMap fun | .operator o => some o | _ => none

namespace Tree

/-- The numbers at the leaves, from the left. -/
def leaves : Tree → List Float
  | leaf value => [value]
  | node _ left right => left.leaves ++ right.leaves

/-- The operations at the nodes, each behind those of its operands. -/
def operations : Tree → List Operation
  | leaf _ => []
  | node o left right => left.operations ++ (right.operations ++ [o])

theorem length_operations (t : Tree) : t.operations.length = t.size := by
  induction t with
  | leaf value => rfl
  | node o left right ihl ihr =>
    simp only [operations, List.length_append, ihl, ihr, List.length_singleton, size]
    omega

end Tree

namespace Infix

/-! ## Texts without a fault -/

theorem stops_dropWhile (text : List Char) : Stops (text.dropWhile isNumeral) := by
  intro c hc
  have hnot := List.head?_dropWhile_not isNumeral text
  rw [Option.mem_def.mp hc] at hnot
  exact hnot

/-- Where the scanner finds no fault, the text spells the symbols that it finds. -/
theorem spells_scanFrom {position : Nat} {text : List Char} (h : (scanFrom position text).fault = none) :
    Spells (scanFrom position text).symbols text := by
  fun_induction scanFrom position text with
  | case1 => exact .done
  | case2 position c rest hc run value hread ih =>
    have hrun : ∀ d ∈ run, isNumeral d = true := by
      intro d hd
      rcases List.mem_cons.mp hd with rfl | hd
      · exact hc
      · exact List.mem_takeWhile_imp hd
    obtain ⟨hnumeral, hfinite, rfl⟩ := (readNumber_eq_ok_iff hrun).mp hread
    have hsplit : run ++ rest.dropWhile isNumeral = c :: rest :=
      congrArg (List.cons c) List.takeWhile_append_dropWhile
    rw [← hsplit]
    exact .number hnumeral hfinite (stops_dropWhile rest) (ih h)
  | case3 => exact absurd h (by simp)
  | case4 position c rest _ o ho ih =>
    rw [← Operation.ofSymbol?_eq_some_iff.mp ho]
    exact .operator o (ih h)
  | case5 position rest _ _ ih => exact .opening (ih h)
  | case6 position rest _ _ _ ih => exact .closing (ih h)
  | case7 position c rest _ _ _ _ hblank ih => exact .blank hblank (ih h)
  | case8 => exact absurd h (by simp)

/-- A fault that the scanner finds is one of a character or of a numeral. -/
theorem fault_scanFrom {position : Nat} {text : List Char} {fault : CompileFault}
    (h : (scanFrom position text).fault = some fault) :
    (∃ c place, fault = .notAllowed c place) ∨ ∃ run, fault = .number run := by
  fun_induction scanFrom position text with
  | case1 => exact absurd h (by simp)
  | case3 position c rest _ run found hread =>
    obtain rfl := Option.some.inj h
    exact Or.inr ⟨_, eq_number_of_readNumber hread⟩
  | case8 position c rest _ _ _ _ _ => exact Or.inl ⟨c, position, (Option.some.inj h).symm⟩
  | case2 _ _ _ _ _ _ _ ih => exact ih h
  | case4 _ _ _ _ _ _ ih => exact ih h
  | case5 _ _ _ _ ih => exact ih h
  | case6 _ _ _ _ _ ih => exact ih h
  | case7 _ _ _ _ _ _ _ _ ih => exact ih h

end Infix

namespace Postfix

/-! ## The rearrangement -/

/-- The numbers of a sequence, in order. -/
def numbersIn (items : List Item) : List Float :=
  items.filterMap fun | .number value => some value | _ => none

/-- The operators of a sequence, in order. -/
def operatorsIn (items : List Item) : List Operation :=
  items.filterMap fun | .operator o => some o | _ => none

@[simp]
theorem numbersIn_append (u v : List Item) : numbersIn (u ++ v) = numbersIn u ++ numbersIn v :=
  List.filterMap_append

@[simp]
theorem operatorsIn_append (u v : List Item) : operatorsIn (u ++ v) = operatorsIn u ++ operatorsIn v :=
  List.filterMap_append

theorem numbersIn_items (t : Tree) : numbersIn t.items = t.leaves := by
  induction t with
  | leaf value => rfl
  | node o left right ihl ihr =>
    rw [Tree.leaves, ← ihl, ← ihr, Tree.items, numbersIn_append, numbersIn_append]
    exact congrArg _ (List.append_nil _)

theorem operatorsIn_items (t : Tree) : operatorsIn t.items = t.operations := by
  induction t with
  | leaf value => rfl
  | node o left right ihl ihr =>
    rw [Tree.operations, ← ihl, ← ihr, Tree.items, operatorsIn_append, operatorsIn_append]
    rfl

@[simp]
theorem numbersIn_putOut (operations : List Operation) : numbersIn (putOut operations) = [] := by
  simp [numbersIn, putOut]

@[simp]
theorem operatorsIn_putOut (operations : List Operation) :
    operatorsIn (putOut operations) = operations := by
  simp [operatorsIn, putOut]

/-- The operators that wait. -/
def held (stack : List Waiting) : List Operation :=
  stack.filterMap fun | .operator o => some o | .opening => none

/-- The brackets that wait. -/
def openings (stack : List Waiting) : Nat := stack.count .opening

@[simp]
theorem held_waiting_append (operations : List Operation) (stack : List Waiting) :
    held (waiting operations ++ stack) = operations ++ held stack := by
  simp [held, waiting]

@[simp]
theorem held_waiting (operations : List Operation) : held (waiting operations) = operations := by
  simp [held, waiting]

@[simp]
theorem openings_waiting_append (operations : List Operation) (stack : List Waiting) :
    openings (waiting operations ++ stack) = openings stack := by
  simp [openings, waiting, List.count_eq_zero]

@[simp]
theorem openings_waiting (operations : List Operation) : openings (waiting operations) = 0 := by
  simp [openings, waiting, List.count_eq_zero]

theorem openings_opening (stack : List Waiting) : openings (.opening :: stack) = openings stack + 1 :=
  List.count_cons_self

theorem openings_operator (o : Operation) (stack : List Waiting) :
    openings (.operator o :: stack) = openings stack :=
  List.count_cons_of_ne (by simp)

/-- What is released are the topmost operators. -/
theorem exists_release (o : Operation) (stack : List Waiting) :
    ∃ operations kept, stack = waiting operations ++ kept ∧ release o stack = (putOut operations, kept) := by
  induction stack with
  | nil => exact ⟨[], [], rfl, rfl⟩
  | cons top stack ih =>
    cases top with
    | opening => exact ⟨[], _, rfl, rfl⟩
    | operator p =>
      rw [release]
      by_cases hp : o.precedence ≤ p.precedence
      · obtain ⟨operations, kept, rfl, hrelease⟩ := ih
        rw [if_pos hp, hrelease]
        exact ⟨p :: operations, kept, rfl, rfl⟩
      · rw [if_neg hp]
        exact ⟨[], _, rfl, rfl⟩

/-- Operators wait on the stack down to a bracket, or down to its end. -/
theorem stack_cases (stack : List Waiting) :
    (∃ operations, stack = waiting operations) ∨
      ∃ operations below, stack = waiting operations ++ .opening :: below := by
  induction stack with
  | nil => exact Or.inl ⟨[], rfl⟩
  | cons top stack ih =>
    cases top with
    | opening => exact Or.inr ⟨[], stack, rfl⟩
    | operator p =>
      rcases ih with ⟨operations, rfl⟩ | ⟨operations, below, rfl⟩
      · exact Or.inl ⟨p :: operations, rfl⟩
      · exact Or.inr ⟨p :: operations, below, rfl⟩

theorem unwind_unopened (operations : List Operation) : unwind (waiting operations) = .error .brackets := by
  induction operations with
  | nil => rfl
  | cons p more ih =>
    show unwind (.operator p :: waiting more) = _
    rw [unwind, ih]

theorem drain_unclosed (operations : List Operation) (below : List Waiting) :
    drain (waiting operations ++ .opening :: below) = .error .brackets := by
  induction operations with
  | nil => rfl
  | cons p more ih =>
    show drain (.operator p :: (waiting more ++ .opening :: below)) = _
    rw [drain, ih]

theorem emit_nil (x : Except CompileFault (List Item)) : emit [] x = x := by
  cases x <;> rfl

/-! ## One symbol -/

/-- What one symbol does: what is put out for it, and what waits behind it. -/
structure Steps (stack : List Waiting) (symbol : Symbol) (out : List Item) (kept : List Waiting) : Prop where
  numbers : numbersIn out = numbersOf [symbol]
  operators : (operatorsIn out ++ held kept).Perm (operatorsOf [symbol] ++ held stack)
  brackets : openings kept + [symbol].count .closing = openings stack + [symbol].count .opening
  arrange : ∀ fault rest, arrange fault stack (symbol :: rest) = emit out (arrange fault kept rest)

/-- Only a closing bracket can fail, and only where none is open. -/
theorem steps_or_unopened (stack : List Waiting) (symbol : Symbol) :
    (∃ out kept, Steps stack symbol out kept) ∨ symbol = .closing ∧ openings stack = 0 := by
  cases symbol with
  | number value => exact Or.inl ⟨[.number value], stack, rfl, .refl _, rfl, fun _ _ => rfl⟩
  | operator o =>
    obtain ⟨operations, kept, rfl, hrelease⟩ := exists_release o stack
    refine Or.inl ⟨putOut operations, .operator o :: kept, numbersIn_putOut _, ?_, ?_, fun fault rest => ?_⟩
    · rw [operatorsIn_putOut, held_waiting_append]
      exact List.perm_middle
    · rw [openings_operator, openings_waiting_append]
      rfl
    · rw [Postfix.arrange, hrelease]
  | opening =>
    refine Or.inl ⟨[], .opening :: stack, rfl, .refl _, openings_opening stack, fun fault rest => ?_⟩
    rw [emit_nil, Postfix.arrange]
  | closing =>
    rcases stack_cases stack with ⟨operations, rfl⟩ | ⟨operations, below, rfl⟩
    · exact Or.inr ⟨rfl, openings_waiting operations⟩
    · refine Or.inl ⟨putOut operations, below, numbersIn_putOut _, ?_, ?_, fun fault rest => ?_⟩
      · rw [operatorsIn_putOut, held_waiting_append]
        exact .refl _
      · rw [openings_waiting_append, openings_opening]
        rfl
      · rw [Postfix.arrange, unwind_waiting]

/-- A closing bracket fails where none is open. -/
theorem arrange_unopened {stack : List Waiting} (h : openings stack = 0) (fault : Option CompileFault)
    (rest : List Symbol) : arrange fault stack (.closing :: rest) = .error .brackets := by
  rcases stack_cases stack with ⟨operations, rfl⟩ | ⟨operations, below, rfl⟩
  · rw [arrange, unwind_unopened]
  · rw [openings_waiting_append, openings_opening] at h
    exact absurd h (Nat.succ_ne_zero _)

/-- At the end the operators that wait are put out, if no bracket does. -/
theorem arrange_end (stack : List Waiting) :
    (openings stack = 0 → arrange none stack [] = .ok (putOut (held stack))) ∧
      (openings stack ≠ 0 → arrange none stack [] = .error .brackets) := by
  rw [arrange]
  rcases stack_cases stack with ⟨operations, rfl⟩ | ⟨operations, below, rfl⟩
  · rw [openings_waiting, held_waiting]
    exact ⟨fun _ => drain_waiting operations, fun h => absurd rfl h⟩
  · rw [openings_waiting_append, openings_opening]
    exact ⟨fun h => absurd h (Nat.succ_ne_zero _), fun _ => drain_unclosed operations below⟩

theorem Steps.balanced_iff {stack kept : List Waiting} {symbol : Symbol} {out : List Item}
    (h : Steps stack symbol out kept) (w : List Symbol) :
    Balanced (openings stack) (symbol :: w) ↔ Balanced (openings kept) w := by
  have hbrackets := h.brackets
  cases symbol with
  | number value =>
    rw [show openings kept = openings stack from hbrackets]
    exact Iff.rfl
  | operator o =>
    rw [show openings kept = openings stack from hbrackets]
    exact Iff.rfl
  | opening =>
    rw [show openings kept = openings stack + 1 from hbrackets]
    exact Iff.rfl
  | closing =>
    rw [show openings stack = openings kept + 1 from hbrackets.symm]
    exact Iff.rfl

/-! ## All symbols -/

/-- What has become of symbols: their numbers as they come, and their operators together with those that
were waiting. -/
structure Rearranges (stack : List Waiting) (w : List Symbol) (out : List Item) : Prop where
  numbers : numbersIn out = numbersOf w
  operators : (operatorsIn out).Perm (operatorsOf w ++ held stack)

theorem Rearranges.cons {stack kept : List Waiting} {symbol : Symbol} {w : List Symbol} {out more : List Item}
    (h : Rearranges kept w more) (hstep : Steps stack symbol out kept) :
    Rearranges stack (symbol :: w) (out ++ more) := by
  constructor
  · rw [numbersIn_append, hstep.numbers, h.numbers]
    exact List.filterMap_append.symm
  · have hsplit : operatorsOf (symbol :: w) = operatorsOf [symbol] ++ operatorsOf w :=
      List.filterMap_append (l := [symbol])
    refine List.perm_iff_count.mpr fun o => ?_
    have hone := hstep.operators.count_eq o
    have hrest := h.operators.count_eq o
    rw [operatorsIn_append, hsplit]
    simp only [List.count_append] at hone hrest ⊢
    omega

/-- Where the brackets pair up, nothing is lost; where they do not, that is the fault. -/
theorem arrange_spec (stack : List Waiting) (w : List Symbol) :
    (Balanced (openings stack) w → ∃ out, arrange none stack w = .ok out ∧ Rearranges stack w out) ∧
      (¬Balanced (openings stack) w → arrange none stack w = .error .brackets) := by
  induction w generalizing stack with
  | nil =>
    obtain ⟨hok, herror⟩ := arrange_end stack
    exact ⟨fun h => ⟨_, hok h, numbersIn_putOut _, by simp [operatorsOf]⟩, herror⟩
  | cons symbol w ih =>
    rcases steps_or_unopened stack symbol with ⟨out, kept, hstep⟩ | ⟨rfl, hnone⟩
    · obtain ⟨hok, herror⟩ := ih kept
      rw [hstep.arrange]
      constructor
      · intro h
        obtain ⟨more, hmore, hre⟩ := hok ((hstep.balanced_iff w).mp h)
        rw [hmore]
        exact ⟨out ++ more, rfl, hre.cons hstep⟩
      · intro h
        rw [herror fun hkept => h ((hstep.balanced_iff w).mpr hkept)]
        rfl
    · refine ⟨fun h => ?_, fun _ => arrange_unopened hnone none w⟩
      rw [hnone] at h
      exact absurd h id

/-- A fault of the text is the result, unless the brackets have failed before. -/
theorem arrange_fault (fault : CompileFault) (stack : List Waiting) (w : List Symbol) :
    arrange (some fault) stack w = .error fault ∨ arrange (some fault) stack w = .error .brackets := by
  induction w generalizing stack with
  | nil => exact Or.inl rfl
  | cons symbol w ih =>
    rcases steps_or_unopened stack symbol with ⟨out, kept, hstep⟩ | ⟨rfl, hnone⟩
    · rw [hstep.arrange]
      rcases ih kept with hkept | hkept
      · exact Or.inl (by rw [hkept]; rfl)
      · exact Or.inr (by rw [hkept]; rfl)
    · exact Or.inr (arrange_unopened hnone _ w)

end Postfix

namespace Plan

/-- Cutting a sequence into tasks fails in one way only. -/
theorem build_error {s : Setting} {n : Nat} {stack : List Argument} {items : List Postfix.Item}
    {fault : CompileFault} (h : build s n stack items = .error fault) : fault = .values := by
  induction items generalizing n stack with
  | nil =>
    rw [build_nil] at h
    split at h
    · exact absurd h (by simp)
    · exact (Except.error.inj h).symm
  | cons item rest ih =>
    cases item with
    | number value => exact ih h
    | operator o =>
      rcases stack with _ | ⟨right, _ | ⟨left, below⟩⟩
      · exact (Except.error.inj h).symm
      · exact (Except.error.inj h).symm
      · rw [build_operator_cons] at h
        split at h
        · exact absurd h (by simp)
        · rename_i hrest
          exact ih (hrest.trans h)

theorem ofText_of_unspelled {s : Setting} {text : String} (h : ∀ w, ¬Infix.Spells w text.toList) :
    ∃ fault, ofText s text = .error fault ∧ fault ≠ .values := by
  cases hfault : (Infix.scan text).fault with
  | none => exact absurd (Infix.spells_scanFrom hfault) (h _)
  | some fault =>
    have hkind : fault ≠ .values := by
      rcases Infix.fault_scanFrom hfault with ⟨c, place, rfl⟩ | ⟨run, rfl⟩ <;> simp
    rcases Postfix.arrange_fault fault [] (Infix.scan text).symbols with harr | harr
    · exact ⟨fault, by simp only [ofText, Postfix.ofText, hfault, harr], hkind⟩
    · exact ⟨.brackets, by simp only [ofText, Postfix.ofText, hfault, harr], by simp⟩

theorem ofText_of_unbalanced {s : Setting} {text : String} {w : List Symbol}
    (hw : Infix.Spells w text.toList) (h : ¬Balanced 0 w) : ofText s text = .error .brackets := by
  have harr := (Postfix.arrange_spec [] w).2 h
  simp only [ofText, Postfix.ofText, Infix.scan_spells hw, harr]

/-- What is spelled with brackets that pair up gets as far as the operands. -/
theorem ofText_of_balanced {s : Setting} {text : String} {w : List Symbol}
    (hw : Infix.Spells w text.toList) (h : Balanced 0 w) :
    ∃ out, Postfix.Rearranges [] w out ∧ Postfix.ofText text = .ok out ∧
      (ofText s text = .error .values ∨ ∃ tasks, ofText s text = .ok tasks) := by
  obtain ⟨out, harr, hout⟩ := (Postfix.arrange_spec [] w).1 h
  have hpostfix : Postfix.ofText text = .ok out := by
    rw [Postfix.ofText, Infix.scan_spells hw]
    exact harr
  refine ⟨out, hout, hpostfix, ?_⟩
  rw [ofText, hpostfix]
  dsimp only
  cases hbuilt : ofPostfix s out with
  | ok tasks => exact Or.inr ⟨tasks, rfl⟩
  | error fault => exact Or.inl (congrArg Except.error (build_error hbuilt))

/-- What compiles is spelled, its brackets pair up, and its plan is that of a tree over its numbers and with
its operators. -/
theorem exists_of_ofText {s : Setting} {text : String} {tasks : List Task} (h : ofText s text = .ok tasks) :
    ∃ w t, Infix.Spells w text.toList ∧ Balanced 0 w ∧ t.leaves = numbersOf w ∧
      t.operations.Perm (operatorsOf w) ∧ 0 < t.size ∧ tasks = tasksOf s 0 t := by
  have hspelled : ∃ w, Infix.Spells w text.toList := by
    by_contra hnone
    obtain ⟨fault, herror, -⟩ := ofText_of_unspelled (s := s) fun w hw => hnone ⟨w, hw⟩
    rw [h] at herror
    exact absurd herror (by simp)
  obtain ⟨w, hw⟩ := hspelled
  have hbalanced : Balanced 0 w := by
    by_contra hnot
    rw [ofText_of_unbalanced hw hnot] at h
    exact absurd h (by simp)
  obtain ⟨t, hitems, hsize, htasks⟩ := ofText_eq_ok_iff.mp h
  obtain ⟨out, hout, hpostfix, -⟩ := ofText_of_balanced (s := s) hw hbalanced
  obtain rfl : t.items = out := Except.ok.inj (hitems.symm.trans hpostfix)
  have hnumbers := hout.numbers
  have hoperators := hout.operators
  rw [Postfix.numbersIn_items] at hnumbers
  rw [Postfix.operatorsIn_items, show Postfix.held [] = [] from rfl, List.append_nil] at hoperators
  exact ⟨w, t, hw, hbalanced, hnumbers, hoperators, hsize, htasks⟩

theorem exists_operator {w : List Symbol} {t : Tree} (h : t.operations.Perm (operatorsOf w))
    (hsize : 0 < t.size) : ∃ o, Symbol.operator o ∈ w := by
  have hlength : 0 < (operatorsOf w).length := by
    rw [← h.length_eq, t.length_operations]
    exact hsize
  obtain ⟨o, ho⟩ := List.exists_mem_of_length_pos hlength
  obtain ⟨symbol, hmem, hsymbol⟩ := List.mem_filterMap.mp ho
  cases symbol with
  | operator p => exact ⟨p, hmem⟩
  | _ => exact absurd hsymbol (by simp)

/-- **Which texts compile.**  What compiles spells symbols whose brackets pair up; its plan is the plan of a
tree with these numbers at its leaves, in the order of the text, and with just these operators.  It is a
sentence with an operator if and only if operands and operators come in turn, and every such sentence compiles.
Of all other texts the fault says what is wrong: a text that spells no symbols is refused by its brackets, a
character or a numeral, one with brackets that do not pair up by them, and the rest by its values, unless every
operator finds its operands. -/
theorem ofText_spec (s : Setting) (text : String) :
    (∀ tasks, ofText s text = .ok tasks → ∃ w t, Infix.Spells w text.toList ∧ Balanced 0 w ∧
      t.leaves = numbersOf w ∧ t.operations.Perm (operatorsOf w) ∧ 0 < t.size ∧
      tasks = tasksOf s 0 t) ∧
    (∀ w, Infix.Spells w text.toList →
      (((∃ t, Derives .sum w t) ∧ ∃ o, Symbol.operator o ∈ w) ↔
        InTurn true w ∧ ∃ tasks, ofText s text = .ok tasks)) ∧
    ((∀ w, ¬Infix.Spells w text.toList) → ∃ fault, ofText s text = .error fault ∧ fault ≠ .values) ∧
    (∀ w, Infix.Spells w text.toList → ¬Balanced 0 w → ofText s text = .error .brackets) ∧
    ∀ w, Infix.Spells w text.toList → Balanced 0 w →
      ofText s text = .error .values ∨ ∃ tasks, ofText s text = .ok tasks := by
  refine ⟨fun tasks h => exists_of_ofText h, ?_, ofText_of_unspelled,
    fun w hw h => ofText_of_unbalanced hw h, ?_⟩
  · intro w hw
    constructor
    · rintro ⟨⟨t, ht⟩, o, ho⟩
      exact ⟨(inTurn_and_balanced_iff.mpr ⟨t, ht⟩).1, _,
        ofText_eq_ok_iff.mpr ⟨t, Postfix.ofText_sentence ht hw, ht.size_pos ho, rfl⟩⟩
    · rintro ⟨hturn, tasks, hok⟩
      obtain ⟨v, t, hv, hbalanced, -, hoperators, hsize, -⟩ := exists_of_ofText hok
      -- A text spells one sequence of symbols only.
      obtain rfl : v = w := congrArg Infix.Scan.symbols ((Infix.scan_spells hv).symm.trans (Infix.scan_spells hw))
      exact ⟨inTurn_and_balanced_iff.mp ⟨hturn, hbalanced⟩, exists_operator hoperators hsize⟩
  · intro w hw hbalanced
    obtain ⟨out, -, -, hcases⟩ := ofText_of_balanced (s := s) hw hbalanced
    exact hcases

/-- A sentence with brackets: its operands and operators come in turn, and it compiles to the plan of a tree
with its numbers and its operators. -/
theorem ofText_spec_sentence :
    let s : Setting := ⟨⟨0⟩, .standard, fun n => ⟨.ofNat 128 n⟩, .epoch⟩
    let w : List Symbol :=
      [.opening, .number 1, .operator .add, .number 2, .closing, .operator .multiply, .number 3]
    Infix.Spells w "(1+2)*3".toList ∧ InTurn true w ∧
      ∃ tasks t, ofText s "(1+2)*3" = .ok tasks ∧ tasks = tasksOf s 0 t ∧ t.leaves = [1, 2, 3] ∧
        t.operations.Perm [.add, .multiply] := by
  intro s w
  have hscan : (Infix.scan "(1+2)*3").symbols = w := by decide +kernel
  have hspells : Infix.Spells w "(1+2)*3".toList := hscan ▸ Infix.spells_scanFrom (by decide +kernel)
  have hsentence : ∃ t, Derives .sum w t := inTurn_and_balanced_iff.mp ⟨trivial, rfl⟩
  obtain ⟨hplan, hiff, -⟩ := ofText_spec s "(1+2)*3"
  obtain ⟨hturn, tasks, hok⟩ := (hiff w hspells).mp ⟨hsentence, .add, by simp [w]⟩
  obtain ⟨v, t, hv, -, hleaves, hoperations, -, htasks⟩ := hplan tasks hok
  obtain rfl : v = w :=
    congrArg Infix.Scan.symbols ((Infix.scan_spells hv).symm.trans (Infix.scan_spells hspells))
  exact ⟨hspells, hturn, tasks, t, hok, htasks, hleaves, hoperations⟩

/-- Two operands side by side with the operator behind them compile, and are no sentence. -/
theorem ofText_spec_juxtaposed :
    let s : Setting := ⟨⟨0⟩, .standard, fun n => ⟨.ofNat 128 n⟩, .epoch⟩
    ofText s "1 2 +" = .ok [s.task 0 .add (.literal 1) (.literal 2)] ∧
      ¬∃ w t, Infix.Spells w "1 2 +".toList ∧ Derives .sum w t := by
  intro s
  have hscan : (Infix.scan "1 2 +").symbols = [.number 1, .number 2, .operator .add] := by decide +kernel
  refine ⟨?_, ?_⟩
  · exact ofText_eq_ok_iff.mpr
      ⟨.node .add (.leaf 1) (.leaf 2), by decide +kernel, Nat.zero_lt_one, rfl⟩
  · rintro ⟨w, t, hw, ht⟩
    have hturn := (inTurn_and_balanced_iff.mpr ⟨t, ht⟩).1
    rw [Infix.scan_spells hw] at hscan
    subst hscan
    exact hturn

end Plan

end Piecework
