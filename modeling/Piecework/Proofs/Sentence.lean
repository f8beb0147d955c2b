/-
# Piecework.Proofs.Sentence — sentences, told symbol by symbol.

Whether symbols are a sentence of the infix grammar can be told from left to right with one bit and one count:
operands and operators come in turn (`InTurn`), an opening bracket standing where an operand is awaited and a
closing one behind an operand, and the brackets pair up (`Balanced`).  Nothing else is needed
(`inTurn_and_balanced_iff`).

From a derivation both are read off.  The other way round a phrase is cut off the front at every level of the
grammar, as long as it goes on (`exists_phrase`).
-/
import Piecework.Proofs.Grammar

namespace Piecework

open Infix (Symbol)

/-- Operands and operators come in turn.  The flag says that an operand is awaited. -/
def InTurn : Bool → List Symbol → Prop
  | false, [] => True
  | true, .number _ :: rest => InTurn false rest
  | true, .opening :: rest => InTurn true rest
  | false, .operator _ :: rest => InTurn true rest
  | false, .closing :: rest => InTurn false rest
  | _, _ => False

/-- Every bracket is closed, and none that was not opened.  So many were open before. -/
def Balanced : Nat → List Symbol → Prop
  | depth, [] => depth = 0
  | depth, .opening :: rest => Balanced (depth + 1) rest
  | depth + 1, .closing :: rest => Balanced depth rest
  | 0, .closing :: _ => False
  | depth, .number _ :: rest => Balanced depth rest
  | depth, .operator _ :: rest => Balanced depth rest

/-! ## What sentences look like -/

theorem Derives.inTurn {level : Level} {w : List Symbol} {t : Tree} (h : Derives level w t)
    {rest : List Symbol} (hrest : InTurn false rest) : InTurn true (w ++ rest) := by
  induction h generalizing rest with
  | number value => exact hrest
  | brackets _ ih =>
    rw [List.cons_append, List.append_assoc]
    exact ih hrest
  | factor _ ih => exact ih hrest
  | product _ ih => exact ih hrest
  | multiplying _ _ _ ihl ihr =>
    rw [List.append_assoc]
    exact ihl (ihr hrest)
  | adding _ _ _ ihl ihr =>
    rw [List.append_assoc]
    exact ihl (ihr hrest)

theorem Derives.balanced {level : Level} {w : List Symbol} {t : Tree} (h : Derives level w t)
    {depth : Nat} {rest : List Symbol} (hrest : Balanced depth rest) : Balanced depth (w ++ rest) := by
  induction h generalizing depth rest with
  | number value => exact hrest
  | brackets _ ih =>
    rw [List.cons_append, List.append_assoc]
    have hclosed : Balanced (depth + 1) ([.closing] ++ rest) := hrest
    exact ih hclosed
  | factor _ ih => exact ih hrest
  | product _ ih => exact ih hrest
  | multiplying _ _ _ ihl ihr =>
    rw [List.append_assoc]
    exact ihl (ihr hrest)
  | adding _ _ _ ihl ihr =>
    rw [List.append_assoc]
    exact ihl (ihr hrest)

/-! ## Cutting phrases off the front -/

/-- A phrase of the level cannot go on here: what follows is no operator, or one that binds looser. -/
def Ends (level : Level) (rest : List Symbol) : Prop :=
  ∀ o more, rest = .operator o :: more → o.precedence < Postfix.bound level

/-- A phrase stands in front, as long as it can be, and what is behind it makes sense. -/
structure Cuts (level : Level) (depth : Nat) (w u rest : List Symbol) (t : Tree) : Prop where
  split : w = u ++ rest
  derives : Derives level u t
  inTurn : InTurn false rest
  balanced : Balanced depth rest
  ends : Ends level rest

/-- Behind a sum stands a closing bracket, if it is not the end. -/
theorem Cuts.eq_nil_or_closing {depth : Nat} {w u rest : List Symbol} {t : Tree}
    (h : Cuts .sum depth w u rest t) : rest = [] ∨ ∃ more, rest = .closing :: more := by
  have hturn := h.inTurn
  rcases rest with _ | ⟨_ | o | _ | _, more⟩
  · exact Or.inl rfl
  · exact absurd hturn (by simp [InTurn])
  · exact absurd (h.ends o more rfl) (by cases o <;> decide)
  · exact absurd hturn (by simp [InTurn])
  · exact Or.inr ⟨more, rfl⟩

/-- A sum behind an opening bracket stops at the closing one. -/
theorem Cuts.closes {depth : Nat} {w u rest : List Symbol} {t : Tree}
    (h : Cuts .sum (depth + 1) w u rest t) : ∃ more, rest = .closing :: more ∧ Balanced depth more := by
  have hbalanced := h.balanced
  rcases h.eq_nil_or_closing with rfl | ⟨more, rfl⟩
  · exact absurd hbalanced (Nat.succ_ne_zero depth)
  · exact ⟨more, rfl, hbalanced⟩

/-- A sum outside all brackets stops at the end. -/
theorem Cuts.eq_nil {w u rest : List Symbol} {t : Tree} (h : Cuts .sum 0 w u rest t) : rest = [] := by
  have hbalanced := h.balanced
  rcases h.eq_nil_or_closing with rfl | ⟨more, rfl⟩
  · rfl
  · exact absurd hbalanced id

theorem Derives.length_pos {level : Level} {w : List Symbol} {t : Tree} (h : Derives level w t) :
    0 < w.length := by
  induction h with
  | number value => exact Nat.one_pos
  | brackets _ _ => exact Nat.succ_pos _
  | factor _ ih => exact ih
  | product _ ih => exact ih
  | multiplying _ _ _ ihl _ =>
    rw [List.length_append]
    omega
  | adding _ _ _ ihl _ =>
    rw [List.length_append]
    omega

namespace Level

/-- The levels with operators, and the level of their right operands. -/
inductive Chains : Level → Level → Prop
  | sum : Chains .sum .product
  | product : Chains .product .factor

end Level

/-- An operator joins a phrase of its own level with a tighter one. -/
theorem Derives.join {level tighter : Level} (hl : Level.Chains level tighter) {o : Operation}
    (ho : o.precedence = Postfix.bound level) {u w : List Symbol} {l r : Tree} (hu : Derives level u l)
    (hw : Derives tighter w r) : Derives level (u ++ .operator o :: w) (.node o l r) := by
  cases hl with
  | sum => exact .adding (by cases o <;> simp_all [Operation.precedence, Postfix.bound]) hu hw
  | product => exact .multiplying (by cases o <;> simp_all [Operation.precedence, Postfix.bound]) hu hw

theorem Derives.loosen {level tighter : Level} (hl : Level.Chains level tighter) {w : List Symbol}
    {t : Tree} (h : Derives tighter w t) : Derives level w t := by
  cases hl with
  | sum => exact .product h
  | product => exact .factor h

/-- A phrase goes on with operators of its level as long as there are some.  Tighter phrases can be cut off
what is not longer. -/
theorem Derives.goesOn {level tighter : Level} (hl : Level.Chains level tighter) {depth : Nat} (n : Nat)
    (hcut : ∀ w, w.length < n → InTurn true w → Balanced depth w → ∃ u rest t, Cuts tighter depth w u rest t) :
    ∀ {u rest : List Symbol} {t : Tree}, rest.length ≤ n → Derives level u t → InTurn false rest →
      Balanced depth rest → Ends tighter rest → ∃ u' rest' t', Cuts level depth (u ++ rest) u' rest' t' := by
  intro u rest
  induction hlen : rest.length using Nat.strongRecOn generalizing u rest with
  | ind m ih =>
    intro t hn hu hturn hbalanced hends
    by_cases hgo : ∃ o more, rest = .operator o :: more ∧ o.precedence = Postfix.bound level
    · obtain ⟨o, more, rfl, ho⟩ := hgo
      rw [List.length_cons] at hlen
      obtain ⟨v, rest', r, hv⟩ := hcut more (by omega) hturn hbalanced
      have hshort : rest'.length ≤ more.length := by
        rw [hv.split, List.length_append]
        omega
      obtain ⟨u', rest'', t', hfinal⟩ := ih rest'.length (by omega) rfl (by omega)
        (hu.join hl ho hv.derives) hv.inTurn hv.balanced hv.ends
      refine ⟨u', rest'', t', ?_⟩
      rw [hv.split, ← List.cons_append, ← List.append_assoc]
      exact hfinal
    · refine ⟨u, rest, t, rfl, hu, hturn, hbalanced, ?_⟩
      -- The tighter phrase has stopped here, and an operator of this level does not follow.
      intro o more hrest
      have hlt := hends o more hrest
      have hne : o.precedence ≠ Postfix.bound level := fun he => hgo ⟨o, more, hrest, he⟩
      cases hl <;> simp only [Postfix.bound] at * <;> omega

/-- Where an operand is awaited, a phrase of every level can be cut off. -/
theorem exists_phrase (n : Nat) : ∀ {depth : Nat} {w : List Symbol}, w.length ≤ n → InTurn true w →
    Balanced depth w → ∀ level, ∃ u rest t, Cuts level depth w u rest t := by
  induction n with
  | zero =>
    intro depth w hn hturn
    rw [List.length_eq_zero_iff.mp (Nat.le_zero.mp hn)] at hturn
    exact absurd hturn (by simp [InTurn])
  | succ n ih =>
    intro depth w hn hturn hbalanced
    -- An operand is a number, or a bracket with a shorter sum in it.
    have hfactor : ∃ u rest t, Cuts .factor depth w u rest t := by
      rcases w with _ | ⟨_ | _ | _ | _, w⟩
      · exact absurd hturn (by simp [InTurn])
      · rename_i value
        refine ⟨[.number value], w, .leaf value, rfl, .number value, hturn, hbalanced, ?_⟩
        intro o more _
        cases o <;> decide
      · exact absurd hturn (by simp [InTurn])
      · obtain ⟨u, rest, t, hcuts⟩ := ih (Nat.le_of_succ_le_succ hn) hturn hbalanced .sum
        obtain ⟨rest', rfl, hbalanced'⟩ := hcuts.closes
        refine ⟨.opening :: (u ++ [.closing]), rest', t, ?_, .brackets hcuts.derives, hcuts.inTurn,
          hbalanced', ?_⟩
        · rw [hcuts.split, List.cons_append, List.append_assoc, List.singleton_append]
        · intro o more _
          cases o <;> decide
      · exact absurd hturn (by simp [InTurn])
    have hchain : ∀ {level tighter : Level}, Level.Chains level tighter →
        (∃ u rest t, Cuts tighter depth w u rest t) → ∃ u rest t, Cuts level depth w u rest t := by
      intro level tighter hl hcut
      obtain ⟨u, rest, t, hcuts⟩ := hcut
      have hpos := hcuts.derives.length_pos
      have hlength : w.length = u.length + rest.length := by rw [hcuts.split, List.length_append]
      rw [hcuts.split]
      exact (hcuts.derives.loosen hl).goesOn hl n
        (fun w hw hturn hbalanced => ih (Nat.le_of_lt hw) hturn hbalanced tighter) (by omega)
        hcuts.inTurn hcuts.balanced hcuts.ends
    have hproduct := hchain .product hfactor
    intro level
    cases level with
    | factor => exact hfactor
    | product => exact hproduct
    | sum => exact hchain .sum hproduct

/-- Sentences are what comes in turn with brackets that pair up. -/
theorem inTurn_and_balanced_iff {w : List Symbol} :
    InTurn true w ∧ Balanced 0 w ↔ ∃ t, Derives .sum w t := by
  constructor
  · rintro ⟨hturn, hbalanced⟩
    obtain ⟨u, rest, t, hcuts⟩ := exists_phrase w.length (Nat.le_refl _) hturn hbalanced .sum
    have hsplit := hcuts.split
    rw [hcuts.eq_nil, List.append_nil] at hsplit
    exact ⟨t, hsplit ▸ hcuts.derives⟩
  · rintro ⟨t, h⟩
    have hturn : InTurn true (w ++ []) := h.inTurn trivial
    have hbalanced : Balanced 0 (w ++ []) := h.balanced rfl
    rw [List.append_nil] at hturn hbalanced
    exact ⟨hturn, hbalanced⟩

end Piecework
