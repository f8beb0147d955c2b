/-
# Piecework.Proofs.Literals — the numbers in stored tasks are finite.

The scanner takes no numeral whose value is infinite, so no number of a text is (`Infix.isFinite_of_spells`).
Compiling takes the numbers over as they are, and nothing that happens to a task changes its operands: every
task that a service stores has the finite numbers of some text as its operands, or the outputs of tasks
(`Service.Reachable.hasFiniteOperands`).
-/
import Piecework.Proofs.Acceptance
import Piecework.Proofs.Argument
import Piecework.Proofs.Submission

namespace Piecework

open Number (isFinite)

/-! ## Numbers of a text -/

/-- Whatever number a text spells, it is finite. -/
theorem Infix.isFinite_of_spells {w : List Symbol} {text : List Char} (h : Spells w text) :
    ∀ x ∈ numbersOf w, isFinite x = true := by
  induction h with
  | done => exact fun x hx => absurd hx List.not_mem_nil
  | blank _ _ ih => exact ih
  | operator _ _ ih => exact ih
  | opening _ ih => exact ih
  | closing _ ih => exact ih
  | number _ hfinite _ _ ih =>
    intro x hx
    rcases List.mem_cons.mp hx with rfl | hx
    · exact hfinite
    · exact ih x hx

/-- Both operands are outputs of tasks or finite numbers. -/
def Task.HasFiniteOperands (t : Task) : Prop := t.left.IsFinite ∧ t.right.IsFinite

namespace Plan

variable {s : Setting}

theorem isFinite_argumentOf {n : Nat} {t : Tree} (h : ∀ x ∈ t.leaves, isFinite x = true) :
    (argumentOf s n t).IsFinite := by
  cases t with
  | leaf value => exact h value (List.mem_singleton_self value)
  | node o left right => exact trivial

theorem hasFiniteOperands_of_mem_tasksOf {n : Nat} {t : Tree} {task : Task}
    (h : ∀ x ∈ t.leaves, isFinite x = true) (htask : task ∈ tasksOf s n t) : task.HasFiniteOperands := by
  induction t generalizing n with
  | leaf value => exact absurd htask List.not_mem_nil
  | node o left right ihl ihr =>
    have hleft : ∀ x ∈ left.leaves, isFinite x = true := fun x hx => h x (List.mem_append_left _ hx)
    have hright : ∀ x ∈ right.leaves, isFinite x = true := fun x hx => h x (List.mem_append_right _ hx)
    simp only [tasksOf_node, List.mem_append, List.mem_singleton] at htask
    rcases htask with htask | htask | rfl
    · exact ihl hleft htask
    · exact ihr hright htask
    · exact ⟨isFinite_argumentOf hleft, isFinite_argumentOf hright⟩

/-- What a text compiles to works with finite numbers. -/
theorem hasFiniteOperands_of_mem_ofText {text : String} {tasks : List Task} {task : Task}
    (h : ofText s text = .ok tasks) (htask : task ∈ tasks) : task.HasFiniteOperands := by
  obtain ⟨w, t, hw, -, hleaves, -, -, rfl⟩ := exists_of_ofText h
  exact hasFiniteOperands_of_mem_tasksOf (hleaves ▸ Infix.isFinite_of_spells hw) htask

end Plan

/-! ## Stores behind a service -/

namespace Service

variable {s : Service}

/-- What a call changes in the store: it brings nothing but what a text compiles to, and it ends a task only as
its report says. -/
def Call.Makes : Call → Store.Change → Prop
  | .add .., .accept _ tasks => ∃ setting text, Plan.ofText setting text = .ok tasks
  | .next _, .dispatch .. => True
  | .report _ r, .finish _ o _ => r.outcome = .ok o
  | .reap _, .release .. => True
  | _, _ => False

/-- Only what a text compiles to comes into the store of a service. -/
theorem Call.Makes.exists_ofText {c : Call} {e : Expression} {tasks : List Task}
    (h : c.Makes (.accept e tasks)) : ∃ setting text, Plan.ofText setting text = .ok tasks := by
  cases c with
  | add mint now text => exact h
  | _ => exact False.elim h

/-- A call changes the store in no other way. -/
theorem path_carry (hs : s.store.Sound) (c : Call) :
    Store.Path (fun _ change => c.Makes change) s.store (s.carry c).2.store := by
  cases c with
  | add mint now text =>
    show Store.Path _ s.store (s.add mint now text).state.store
    cases htext : Plan.ofText (s.setting mint now) text with
    | error fault =>
      rw [(add_of_error htext).2]
      exact .refl _
    | ok tasks =>
      have hput := s.store.put_path (.fresh mint.expression text (tasks.map Task.id) now) tasks
      rw [store_add_of_ofText htext]
      refine hput.mono ?_
      rintro - _ rfl
      exact ⟨_, _, htext⟩
  | view id => exact .refl _
  | list => exact .refl _
  | next now =>
    refine (s.store.claim_path Selector.lawful_oldest s.policy now).mono ?_
    rintro - _ ⟨t, deadline, rfl⟩
    exact trivial
  | report now r =>
    show Store.Path _ s.store (s.report now r).state.store
    unfold Service.report
    cases houtcome : r.outcome with
    | error fault => exact .refl _
    | ok o =>
      refine (Store.report_path hs r.task o now).mono ?_
      rintro - _ ⟨t, rfl⟩
      exact houtcome
  | reap now =>
    refine (Store.reap_path hs now).mono ?_
    rintro - _ ⟨t, rfl⟩
    exact trivial

/-- **The operands of all stored tasks are finite.** -/
theorem Reachable.hasFiniteOperands (h : Reachable s) :
    ∀ id t, s.store.task? id = some t → t.HasFiniteOperands := by
  induction h with
  | start times policy =>
    intro id t ht
    have hnone : Store.empty.task? id = none := rfl
    exact absurd (hnone.symm.trans ht) (by simp)
  | @carry s c hs ih =>
    refine (path_carry hs.store.sound c).tasks hs.store.sound ?_ ?_ ih
    · rintro t t' hplain ⟨hleft, hright⟩
      obtain ⟨-, -, -, hleft', hright', -⟩ := Task.work_eq_of_plain_eq hplain
      exact ⟨hleft' ▸ hleft, hright' ▸ hright⟩
    · intro _ e tasks hmakes t ht
      obtain ⟨setting, text, htext⟩ := hmakes.exists_ofText
      exact Plan.hasFiniteOperands_of_mem_ofText htext ht

end Service

end Piecework
