/-
# Piecework.Proofs.Grammar — the infix grammar, and the postfix order of its sentences.

The grammar has three levels.  A sum is a product, or a sum, `+` or `-`, and a product; a product is a
factor, or a product, `*` or `/`, and a factor; a factor is a number or a sum in brackets.  A derivation
fixes a syntax tree: the multiplying operations bind tighter, chains of one level lean to the left, and
brackets leave no trace.

The rearrangement with a stack of waiting operators brings every sentence into the postfix listing of
its tree (`arrange_sentence`).  The induction speaks about a phrase in the middle of a text: behind it
part of its listing is put out, and the operators that are still missing stand on the stack, each of
them binding at least as tightly as the level of the phrase.
-/
import Piecework.Proofs.Tree

namespace Piecework

open Infix (Symbol)

/-- The levels of the grammar, the loosest first. -/
inductive Level where
  | sum
  | product
  | factor
deriving DecidableEq, Repr

/-- The infix grammar: which symbols are phrases of a level, and with which syntax tree. -/
inductive Derives : Level → List Symbol → Tree → Prop
  | number (value : Float) : Derives .factor [.number value] (.leaf value)
  | brackets {w : List Symbol} {t : Tree} :
      Derives .sum w t → Derives .factor (.opening :: (w ++ [.closing])) t
  | factor {w : List Symbol} {t : Tree} : Derives .factor w t → Derives .product w t
  | multiplying {u w : List Symbol} {l r : Tree} {o : Operation} :
      o = .multiply ∨ o = .divide → Derives .product u l → Derives .factor w r →
      Derives .product (u ++ .operator o :: w) (.node o l r)
  | product {w : List Symbol} {t : Tree} : Derives .product w t → Derives .sum w t
  | adding {u w : List Symbol} {l r : Tree} {o : Operation} :
      o = .add ∨ o = .subtract → Derives .sum u l → Derives .product w r →
      Derives .sum (u ++ .operator o :: w) (.node o l r)

namespace Postfix

/-! ## Releasing waiting operators -/

/-- The operators of a list as they wait on the stack, the topmost one first. -/
def waiting (operations : List Operation) : List Waiting := operations.map .operator

/-- The operators of a list as they are put out. -/
def putOut (operations : List Operation) : List Item := operations.map .operator

/-- A stack whose topmost operator, if an operator is on top, binds looser than `bound`. -/
def Fenced (bound : Nat) : List Waiting → Prop
  | .operator o :: _ => o.precedence < bound
  | _ => True

theorem Fenced.mono {bound wider : Nat} {stack : List Waiting} (h : Fenced bound stack)
    (hb : bound ≤ wider) : Fenced wider stack := by
  unfold Fenced at h ⊢
  split
  · exact Nat.lt_of_lt_of_le h hb
  · trivial

/-- A fenced stack releases nothing to an operator of the level of the fence. -/
theorem release_fenced {o : Operation} {stack : List Waiting} (h : Fenced o.precedence stack) :
    release o stack = ([], stack) := by
  unfold release
  split
  · rw [if_neg (Nat.not_le.mpr h)]
  · rfl

/-- Operators that bind at least as tightly as a new one are released down to the fence. -/
theorem release_waiting {o : Operation} {stack : List Waiting} (h : Fenced o.precedence stack)
    (operations : List Operation) (hb : ∀ p ∈ operations, o.precedence ≤ p.precedence) :
    release o (waiting operations ++ stack) = (putOut operations, stack) := by
  induction operations with
  | nil => exact release_fenced h
  | cons p more ih =>
    have hp : o.precedence ≤ p.precedence := hb p List.mem_cons_self
    have hmore := ih fun q hq => hb q (List.mem_cons_of_mem p hq)
    show release o (.operator p :: (waiting more ++ stack)) = _
    rw [release, if_pos hp, hmore]
    rfl

theorem unwind_waiting (stack : List Waiting) (operations : List Operation) :
    unwind (waiting operations ++ .opening :: stack) = .ok (putOut operations, stack) := by
  induction operations with
  | nil => rfl
  | cons p more ih =>
    show unwind (.operator p :: (waiting more ++ .opening :: stack)) = _
    rw [unwind, ih]
    rfl

theorem drain_waiting (operations : List Operation) :
    drain (waiting operations) = .ok (putOut operations) := by
  induction operations with
  | nil => rfl
  | cons p more ih =>
    show drain (.operator p :: waiting more) = _
    rw [drain, ih]
    rfl

theorem emit_emit (u v : List Item) (x : Except CompileFault (List Item)) :
    emit u (emit v x) = emit (u ++ v) x := by
  cases x with
  | error fault => rfl
  | ok rest => rw [emit, emit, emit, List.append_assoc]

/-! ## A phrase in the middle of a text -/

/-- What becomes of the symbols `w` with tree `t` on a stack that is fenced at `bound`: part of the
listing of `t` is put out, and the operators that end the listing wait above the fence. -/
def Arranges (bound : Nat) (w : List Symbol) (t : Tree) : Prop :=
  ∀ (fault : Option CompileFault) (stack : List Waiting) (rest : List Symbol), Fenced bound stack →
    ∃ (out : List Item) (held : List Operation),
      t.items = out ++ putOut held ∧ (∀ o ∈ held, bound ≤ o.precedence) ∧
        arrange fault stack (w ++ rest) = emit out (arrange fault (waiting held ++ stack) rest)

theorem arranges_number (bound : Nat) (value : Float) :
    Arranges bound [.number value] (.leaf value) := by
  intro fault stack rest _
  refine ⟨[.number value], [], rfl, by simp, ?_⟩
  rw [List.singleton_append, arrange]
  rfl

/-- Brackets close a phrase off: nothing of it is left on the stack. -/
theorem arranges_brackets (bound : Nat) {w : List Symbol} {t : Tree} (h : Arranges 1 w t) :
    Arranges bound (.opening :: (w ++ [.closing])) t := by
  intro fault stack rest _
  -- A bracket is a fence for every level, so the phrase inside may be a sum again.
  obtain ⟨out, held, hitems, -, harr⟩ := h fault (.opening :: stack) (.closing :: rest) trivial
  refine ⟨t.items, [], (List.append_nil _).symm, by simp, ?_⟩
  calc arrange fault stack (.opening :: (w ++ [.closing]) ++ rest)
      = arrange fault (.opening :: stack) (w ++ .closing :: rest) := by
        rw [List.cons_append, arrange, List.append_assoc, List.singleton_append]
    _ = emit out (arrange fault (waiting held ++ .opening :: stack) (.closing :: rest)) := harr
    _ = emit out (emit (putOut held) (arrange fault stack rest)) := by
        rw [arrange, unwind_waiting]
    _ = emit t.items (arrange fault stack rest) := by
        rw [emit_emit, hitems]

/-- A phrase that is none of the looser ones is held to the tighter bound. -/
theorem Arranges.loosen {bound tighter : Nat} {w : List Symbol} {t : Tree}
    (h : Arranges tighter w t) (hb : bound ≤ tighter) : Arranges bound w t := by
  intro fault stack rest hs
  obtain ⟨out, held, hitems, hheld, harr⟩ := h fault stack rest (hs.mono hb)
  exact ⟨out, held, hitems, fun o ho => Nat.le_trans hb (hheld o ho), harr⟩

/-- An operator between a phrase of its own level and a tighter one.  It releases all that the left
phrase has left on the stack and nothing below, and then waits for the right phrase. -/
theorem arranges_operator {bound : Nat} {o : Operation} {u w : List Symbol} {l r : Tree}
    (ho : o.precedence = bound) (hl : Arranges bound u l) (hr : Arranges (bound + 1) w r) :
    Arranges bound (u ++ .operator o :: w) (.node o l r) := by
  subst ho
  intro fault stack rest hs
  obtain ⟨outl, heldl, hitemsl, hheldl, harrl⟩ := hl fault stack (.operator o :: (w ++ rest)) hs
  -- Once it waits, the operator is the fence of the tighter phrase on its right.
  obtain ⟨outr, heldr, hitemsr, hheldr, harrr⟩ :=
    hr fault (.operator o :: stack) rest (Nat.lt_succ_self _)
  refine ⟨l.items ++ outr, heldr ++ [o], ?_, ?_, ?_⟩
  · simp only [Tree.items, hitemsr, putOut, List.map_append, List.append_assoc, List.map_cons,
      List.map_nil]
  · intro p hp
    rcases List.mem_append.mp hp with hp | hp
    · exact Nat.le_of_succ_le (hheldr p hp)
    · exact Nat.le_of_eq (congrArg Operation.precedence (List.mem_singleton.mp hp).symm)
  · calc arrange fault stack (u ++ .operator o :: w ++ rest)
        = emit outl (arrange fault (waiting heldl ++ stack) (.operator o :: (w ++ rest))) := by
          rw [List.append_assoc, List.cons_append, harrl]
      _ = emit outl (emit (putOut heldl) (arrange fault (.operator o :: stack) (w ++ rest))) := by
          rw [arrange, release_waiting hs heldl hheldl]
      _ = emit (l.items ++ outr) (arrange fault (waiting heldr ++ .operator o :: stack) rest) := by
          rw [harrr, emit_emit, emit_emit, hitemsl]
      _ = emit (l.items ++ outr) (arrange fault (waiting (heldr ++ [o]) ++ stack) rest) := by
          simp only [waiting, List.map_append, List.map_cons, List.map_nil, List.append_assoc,
            List.singleton_append]

/-! ## Derivations -/

/-- The loosest precedence of an operator outside all brackets of a phrase. -/
def bound : Level → Nat
  | .sum => 1
  | .product => 2
  | .factor => 3

theorem arranges_of_derives {level : Level} {w : List Symbol} {t : Tree}
    (h : Derives level w t) : Arranges (bound level) w t := by
  induction h with
  | number value => exact arranges_number _ value
  | brackets _ ih => exact arranges_brackets _ ih
  | factor _ ih => exact ih.loosen (Nat.le_succ 2)
  | product _ ih => exact ih.loosen (Nat.le_succ 1)
  | multiplying ho _ _ ihl ihr =>
    rcases ho with rfl | rfl <;> exact arranges_operator rfl ihl ihr
  | adding ho _ _ ihl ihr =>
    rcases ho with rfl | rfl <;> exact arranges_operator rfl ihl ihr

/-- A sentence is rearranged to the postfix listing of its tree. -/
theorem arrange_sentence {w : List Symbol} {t : Tree} (h : Derives .sum w t) :
    arrange none [] w = .ok t.items := by
  obtain ⟨out, held, hitems, -, harr⟩ := arranges_of_derives h none [] [] trivial
  rw [List.append_nil, List.append_nil] at harr
  rw [harr, arrange, drain_waiting, emit, hitems]

end Postfix

end Piecework
