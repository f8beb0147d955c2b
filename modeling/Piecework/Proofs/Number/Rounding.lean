/-
# Piecework.Proofs.Number.Rounding — rounding a ratio to the nearest double.

A positive rational is rounded in two steps.  Its size picks a grid, the multiples of a power of two
(`OnGrid`), and on the grid it goes to the nearest integer (`Rounds`).  Both are determined by the
rational alone, and so is the magnitude that it is rounded to (`RoundsTo`), which is what `nearest`
computes (`nearest_eq`).  Every point of the interval around a double is rounded to the double
(`Interval.Holds.roundsTo`).
-/
import Mathlib.Algebra.Order.Field.Power
import Mathlib.Algebra.Order.Field.Rat
import Mathlib.Data.Rat.Cast.Order
import Mathlib.Tactic.FieldSimp
import Mathlib.Tactic.Linarith
import Mathlib.Tactic.Positivity
import Mathlib.Tactic.Ring
import Piecework.Number.Shortest

namespace Piecework.Number

/-! ## The nearest integer -/

/-- An integer is the nearest one to a rational, or the even one of the two nearest. -/
structure Rounds (q : ℚ) (k : ℕ) : Prop where
  low : (k : ℚ) - 1 / 2 ≤ q
  high : q ≤ k + 1 / 2
  tie : k % 2 = 0 ∨ (k : ℚ) - 1 / 2 < q ∧ q < k + 1 / 2

/-- There is one such integer. -/
theorem Rounds.unique {q : ℚ} {j k : ℕ} (hj : Rounds q j) (hk : Rounds q k) : j = k := by
  wlog hle : j ≤ k generalizing j k
  · exact (this hk hj (by omega)).symm
  have hclose : (k : ℚ) ≤ j + 1 := by linarith [hj.high, hk.low]
  have hnat : k ≤ j + 1 := by exact_mod_cast hclose
  by_contra hne
  have hnext : k = j + 1 := by omega
  have hcast : (k : ℚ) = j + 1 := by exact_mod_cast hnext
  -- Both are at the distance of a half, so both are even.
  have hjeven : j % 2 = 0 := hj.tie.resolve_right fun h => by linarith [h.2, hk.low]
  have hkeven : k % 2 = 0 := hk.tie.resolve_right fun h => by linarith [h.1, hj.high]
  omega

theorem rounds_roundRatio (num : ℕ) {den : ℕ} (hden : 0 < den) :
    Rounds (num / den) (roundRatio num den) := by
  have hdenq : (0 : ℚ) < den := by exact_mod_cast hden
  have hdiv : (num : ℚ) = den * (num / den : ℕ) + (num % den : ℕ) := by
    exact_mod_cast (Nat.div_add_mod num den).symm
  have hrest : (num : ℚ) / den = (num / den : ℕ) + (num % den : ℕ) / den := by
    rw [hdiv]
    field_simp
  have hpos : (0 : ℚ) ≤ (num % den : ℕ) / den := by positivity
  have hnext : ((num / den + 1 : ℕ) : ℚ) = (num / den : ℕ) + 1 := Nat.cast_succ _
  rw [hrest, roundRatio]
  split_ifs with hbelow habove
  · have hhalf : ((num % den : ℕ) : ℚ) / den < 1 / 2 := by
      rw [div_lt_iff₀ hdenq]
      have : (2 * (num % den : ℕ) : ℚ) < den := by exact_mod_cast hbelow
      linarith
    exact ⟨by linarith, by linarith, Or.inr ⟨by linarith, by linarith⟩⟩
  · have hhalf : 1 / 2 < ((num % den : ℕ) : ℚ) / den := by
      rw [lt_div_iff₀ hdenq]
      have : (den : ℚ) < 2 * (num % den : ℕ) := by exact_mod_cast habove
      linarith
    have hone : ((num % den : ℕ) : ℚ) / den < 1 := by
      rw [div_lt_one hdenq]
      exact_mod_cast Nat.mod_lt num hden
    exact ⟨by linarith, by linarith, Or.inr ⟨by linarith, by linarith⟩⟩
  · have htwice : 2 * (num % den) = den := by omega
    have hhalf : ((num % den : ℕ) : ℚ) / den = 1 / 2 := by
      rw [div_eq_iff hdenq.ne']
      have : (2 * (num % den : ℕ) : ℚ) = den := by exact_mod_cast htwice
      linarith
    rw [hhalf]
    rcases Nat.mod_two_eq_zero_or_one (num / den) with heven | hodd
    · rw [heven, Nat.add_zero]
      exact ⟨by linarith, by linarith, Or.inl heven⟩
    · rw [hodd]
      exact ⟨by linarith, by linarith, Or.inl (by omega)⟩

/-! ## The grid -/

/-- The multiples of `2 ^ e` are the doubles around a positive rational. -/
structure OnGrid (r : ℚ) (e : ℤ) : Prop where
  least : leastExponent ≤ e
  upper : r < 2 ^ (e + 53)
  lower : 2 ^ (e + 52) ≤ r ∨ e = leastExponent

/-- There is one such grid. -/
theorem OnGrid.unique {r : ℚ} {d e : ℤ} (hd : OnGrid r d) (he : OnGrid r e) : d = e := by
  wlog hle : d ≤ e generalizing d e
  · exact (this he hd (by omega)).symm
  rcases he.lower with hlow | hleast
  · have hpow : (2 : ℚ) ^ (e + 52) < 2 ^ (d + 53) := lt_of_le_of_lt hlow hd.upper
    have hexp := (zpow_lt_zpow_iff_right₀ (by norm_num : (1 : ℚ) < 2)).mp hpow
    omega
  · have := hd.least
    omega

/-- On the grid a rational lies between two powers of two, and so does its nearest integer. -/
theorem OnGrid.significand {r : ℚ} {e : ℤ} (h : OnGrid r e) {k : ℕ} (hk : Rounds (r / 2 ^ e) k) :
    k ≤ 2 ^ 53 ∧ (2 ^ 52 ≤ k ∨ e = leastExponent) := by
  have hunit : (0 : ℚ) < 2 ^ e := by positivity
  have hupper : r / 2 ^ e < 2 ^ 53 := by
    rw [div_lt_iff₀ hunit, ← zpow_natCast, ← zpow_add₀ two_ne_zero, add_comm]
    exact h.upper
  have hbelow : (k : ℚ) < 2 ^ 53 + 1 := by linarith [hk.low]
  refine ⟨Nat.le_of_lt_succ (by exact_mod_cast hbelow), h.lower.imp_left fun hlow => ?_⟩
  have hlower : 2 ^ 52 ≤ r / 2 ^ e := by
    rw [le_div_iff₀ hunit, ← zpow_natCast, ← zpow_add₀ two_ne_zero, add_comm]
    exact hlow
  have habove : (2 : ℚ) ^ 52 < k + 1 := by linarith [hk.high]
  exact Nat.le_of_lt_succ (by exact_mod_cast habove)

/-- A power with an integer exponent as a ratio of powers with natural ones. -/
theorem zpow_eq_pow_div_pow {b : ℚ} (hb : b ≠ 0) (e : ℤ) : b ^ e = b ^ e.toNat / b ^ (-e).toNat := by
  rw [← zpow_natCast, ← zpow_natCast, ← zpow_sub₀ hb]
  congr 1
  omega

/-- The comparison by which `floorLog2` and `nearest` place a ratio. -/
theorem two_zpow_le_div_iff (e : ℤ) (num : ℕ) {den : ℕ} (hden : 0 < den) :
    (2 : ℚ) ^ e ≤ num / den ↔ den * 2 ^ e.toNat ≤ num * 2 ^ (-e).toNat := by
  have hdenq : (0 : ℚ) < den := by exact_mod_cast hden
  rw [zpow_eq_pow_div_pow two_ne_zero, div_le_div_iff₀ (by positivity) hdenq, mul_comm]
  exact_mod_cast Iff.rfl

/-- The binade of a ratio. -/
theorem floorLog2_spec {num den : ℕ} (hnum : 0 < num) (hden : 0 < den) :
    (2 : ℚ) ^ floorLog2 num den ≤ num / den ∧ (num : ℚ) / den < 2 ^ (floorLog2 num den + 1) := by
  have hdenq : (0 : ℚ) < den := by exact_mod_cast hden
  have hnumLow : (2 : ℚ) ^ num.log2 ≤ num := by exact_mod_cast Nat.log2_self_le hnum.ne'
  have hnumHigh : (num : ℚ) < 2 ^ (num.log2 + 1) := by exact_mod_cast Nat.lt_log2_self
  have hdenLow : (2 : ℚ) ^ den.log2 ≤ den := by exact_mod_cast Nat.log2_self_le hden.ne'
  have hdenHigh : (den : ℚ) < 2 ^ (den.log2 + 1) := by exact_mod_cast Nat.lt_log2_self
  generalize hguess : (num.log2 : ℤ) - den.log2 = guess
  have hhigh : (num : ℚ) / den < 2 ^ (guess + 1) := by
    rw [div_lt_iff₀ hdenq]
    calc (num : ℚ) < 2 ^ (num.log2 + 1) := hnumHigh
      _ = 2 ^ (guess + 1) * 2 ^ den.log2 := by
        rw [← zpow_natCast, ← zpow_natCast, ← zpow_add₀ two_ne_zero]
        congr 1
        push_cast
        omega
      _ ≤ 2 ^ (guess + 1) * den := by gcongr
  have hlow : (2 : ℚ) ^ (guess - 1) ≤ num / den := by
    rw [le_div_iff₀ hdenq]
    calc (2 : ℚ) ^ (guess - 1) * den ≤ 2 ^ (guess - 1) * 2 ^ (den.log2 + 1) := by gcongr
      _ = 2 ^ num.log2 := by
        rw [← zpow_natCast, ← zpow_natCast, ← zpow_add₀ two_ne_zero]
        congr 1
        push_cast
        omega
      _ ≤ num := hnumLow
  have hiff := two_zpow_le_div_iff guess num hden
  rw [floorLog2, hguess]
  split_ifs with h
  · exact ⟨hiff.mpr h, hhigh⟩
  · rw [sub_add_cancel]
    exact ⟨hlow, not_le.mp fun hle => h (hiff.mp hle)⟩

/-- The grid of a ratio is found from its binade. -/
theorem onGrid_nearest {num den : ℕ} (hnum : 0 < num) (hden : 0 < den) :
    OnGrid (num / den) (max (floorLog2 num den - fractionBits) leastExponent) := by
  obtain ⟨hlow, hhigh⟩ := floorLog2_spec hnum hden
  have hbits : (fractionBits : ℤ) = 52 := rfl
  refine ⟨le_max_right _ _, ?_, ?_⟩
  · refine lt_of_lt_of_le hhigh (zpow_le_zpow_right₀ (by norm_num) ?_)
    omega
  · rcases le_total (floorLog2 num den - fractionBits) leastExponent with h | h
    · exact Or.inr (max_eq_right h)
    · left
      rw [max_eq_left h, hbits, sub_add_cancel]
      exact hlow

/-! ## The nearest double -/

/-- The place of `significand · 2 ^ exponent` among the magnitudes of doubles. -/
def pattern (significand : ℕ) (exponent : ℤ) : ℕ :=
  (exponent - leastExponent).toNat * 2 ^ fractionBits + significand

/-- A rational is rounded to the magnitude with this pattern: to the nearest integer on its grid, and
to infinity beyond the largest double. -/
def RoundsTo (r : ℚ) (magnitude : ℕ) : Prop :=
  ∃ e k, OnGrid r e ∧ Rounds (r / 2 ^ e) k ∧ magnitude = min (pattern k e) infinityBits

/-- There is one such magnitude. -/
theorem RoundsTo.unique {r : ℚ} {m n : ℕ} (hm : RoundsTo r m) (hn : RoundsTo r n) : m = n := by
  obtain ⟨d, j, hd, hj, rfl⟩ := hm
  obtain ⟨e, k, he, hk, rfl⟩ := hn
  obtain rfl := hd.unique he
  rw [hj.unique hk]

theorem RoundsTo.le {r : ℚ} {m : ℕ} (h : RoundsTo r m) : m ≤ infinityBits := by
  obtain ⟨e, k, -, -, rfl⟩ := h
  exact Nat.min_le_right _ _

/-- The nearest double to a ratio is found by rounding. -/
theorem exists_nearest {num den : ℕ} (hnum : 0 < num) (hden : 0 < den) :
    ∃ m, RoundsTo (num / den) m ∧ nearest num den = .ofNat m := by
  generalize hgrid : max (floorLog2 num den - fractionBits) leastExponent = e
  have hscaled : (num : ℚ) / den / 2 ^ e = (num * 2 ^ (-e).toNat : ℕ) / (den * 2 ^ e.toNat : ℕ) := by
    rw [zpow_eq_pow_div_pow two_ne_zero]
    push_cast
    field_simp
  have hround := rounds_roundRatio (num * 2 ^ (-e).toNat)
    (Nat.mul_pos hden (Nat.pow_pos (n := e.toNat) two_pos))
  refine ⟨_, ⟨e, _, hgrid ▸ onGrid_nearest hnum hden, hscaled ▸ hround, rfl⟩, ?_⟩
  rw [nearest]
  simp only [hgrid]
  rfl

/-- **`nearest` rounds a ratio.** -/
theorem nearest_eq {num den : ℕ} (hnum : 0 < num) (hden : 0 < den) {m : ℕ}
    (h : RoundsTo (num / den) m) : nearest num den = .ofNat m := by
  obtain ⟨n, hn, heq⟩ := exists_nearest hnum hden
  rw [heq, hn.unique h]

/-- Every positive rational is rounded to a magnitude. -/
theorem exists_roundsTo {r : ℚ} (h : 0 < r) : ∃ m, RoundsTo r m := by
  obtain ⟨m, hm, -⟩ := exists_nearest (Int.pos_iff_toNat_pos.mp (Rat.num_pos.mpr h)) r.pos
  have hnum : ((r.num.toNat : ℕ) : ℚ) = r.num := by
    exact_mod_cast Int.toNat_of_nonneg (Rat.num_nonneg.mpr h.le)
  rw [hnum, Rat.num_div_den] at hm
  exact ⟨m, hm⟩

/-! ## Doubles and their intervals -/

/-- The pairs of a significand and an exponent that finite doubles are read into. -/
structure IsDouble (significand : ℕ) (exponent : ℤ) : Prop where
  lt : significand < 2 ^ 53
  least : leastExponent ≤ exponent
  greatest : exponent ≤ 971
  normal : 2 ^ 52 ≤ significand ∨ exponent = leastExponent

theorem IsDouble.pattern_lt {s : ℕ} {e : ℤ} (h : IsDouble s e) : pattern s e < infinityBits := by
  have hs := h.lt
  have he := h.greatest
  have hplace : (e - leastExponent).toNat ≤ 2045 := by
    simp only [leastExponent]
    omega
  simp only [pattern, infinityBits, fractionBits]
  omega

/-- A rational lies in an interval, its ends included where they belong to it. -/
structure Interval.Holds (i : Interval) (r : ℚ) : Prop where
  low : i.low * 2 ^ i.exponent ≤ r
  high : r ≤ i.high * 2 ^ i.exponent
  inside : i.closed = true ∨ i.low * 2 ^ i.exponent < r ∧ r < i.high * 2 ^ i.exponent

/-- On the grid of the double, the points of its interval have the significand as nearest integer.
Below a power of two the interval is shorter still. -/
theorem Interval.Holds.rounds {s : ℕ} {e : ℤ} (hs : 0 < s) {q : ℚ}
    (h : (Interval.around s e).Holds (q * 2 ^ e)) :
    Rounds q s ∧ (s = 2 ^ 52 → leastExponent < e → (s : ℚ) - 1 / 4 ≤ q) := by
  have hquarter : (0 : ℚ) < 2 ^ (e - 2) := by positivity
  have hscale : q * 2 ^ e = 4 * q * 2 ^ (e - 2) := by
    rw [zpow_sub₀ two_ne_zero, zpow_two]
    ring
  rw [hscale] at h
  obtain ⟨hlow, hhigh, hopen⟩ := h
  simp only [Interval.around, decide_eq_true_eq, mul_le_mul_iff_left₀ hquarter,
    mul_lt_mul_iff_left₀ hquarter] at hlow hhigh hopen
  have hhighq : ((4 * s + 2 : ℕ) : ℚ) = 4 * s + 2 := by push_cast; ring
  have hlowq : (4 * s - 2 : ℚ) ≤ ((if s = 2 ^ fractionBits ∧ leastExponent < e then 4 * s - 1
      else 4 * s - 2 : ℕ) : ℚ) := by
    split_ifs
    · rw [Nat.cast_sub (by omega)]
      push_cast
      linarith
    · rw [Nat.cast_sub (by omega)]
      push_cast
      linarith
  rw [hhighq] at hhigh hopen
  refine ⟨⟨by linarith, by linarith, ?_⟩, ?_⟩
  · exact hopen.imp id fun h => ⟨by linarith [h.1], by linarith [h.2]⟩
  · intro hpower hleast
    rw [if_pos ⟨hpower, hleast⟩, Nat.cast_sub (by omega)] at hlow
    push_cast at hlow
    linarith

/-- A point of an interval is half a unit away from the double at most. -/
theorem Interval.Holds.half {s : ℕ} {e : ℤ} (hs : 0 < s) {r : ℚ} (h : (Interval.around s e).Holds r) :
    (s - 1 / 2) * 2 ^ e ≤ r ∧ r ≤ (s + 1 / 2) * 2 ^ e := by
  obtain ⟨q, rfl⟩ : ∃ q, r = q * 2 ^ e := ⟨r / 2 ^ e, (div_mul_cancel₀ _ (by positivity)).symm⟩
  obtain ⟨hround, -⟩ := h.rounds hs
  exact ⟨mul_le_mul_of_nonneg_right hround.low (by positivity),
    mul_le_mul_of_nonneg_right hround.high (by positivity)⟩

/-- Just below a power of two the grid is finer, and rounding carries over. -/
theorem roundsTo_below_power {e : ℤ} (h : leastExponent < e) (hgreatest : e ≤ 971) {q : ℚ}
    (hlow : 2 ^ 52 - 1 / 4 ≤ q) (hlt : q < 2 ^ 52) : RoundsTo (q * 2 ^ e) (pattern (2 ^ 52) e) := by
  have hunit : (0 : ℚ) < 2 ^ e := by positivity
  have hhalf : (2 : ℚ) ^ e = 2 * 2 ^ (e - 1) := by
    rw [zpow_sub₀ two_ne_zero, zpow_one]
    ring
  have hfine : q * 2 ^ e / 2 ^ (e - 1) = 2 * q := by
    rw [hhalf]
    field_simp
  have hgrid : OnGrid (q * 2 ^ e) (e - 1) := by
    refine ⟨by omega, ?_, Or.inl ?_⟩
    · rw [show e - 1 + 53 = 52 + e by omega, zpow_add₀ two_ne_zero]
      exact mul_lt_mul_of_pos_right (by exact_mod_cast hlt) hunit
    · rw [show e - 1 + 52 = 51 + e by omega, zpow_add₀ two_ne_zero]
      refine mul_le_mul_of_nonneg_right ?_ hunit.le
      norm_num
      linarith
  have hcarry : Rounds (q * 2 ^ e / 2 ^ (e - 1)) (2 ^ 53) := by
    rw [hfine]
    push_cast
    exact ⟨by linarith, by linarith, Or.inl (by decide)⟩
  have hsame : pattern (2 ^ 52) e = pattern (2 ^ 53) (e - 1) := by
    simp only [pattern, fractionBits]
    omega
  refine ⟨e - 1, 2 ^ 53, hgrid, hcarry, ?_⟩
  rw [← hsame]
  simp only [pattern, infinityBits, fractionBits, leastExponent] at h ⊢
  omega

/-- **A double comes back from every point of its interval.** -/
theorem Interval.Holds.roundsTo {s : ℕ} {e : ℤ} (h : IsDouble s e) (hs : 0 < s) {r : ℚ}
    (hr : (Interval.around s e).Holds r) : RoundsTo r (pattern s e) := by
  have hunit : (0 : ℚ) < 2 ^ e := by positivity
  have hmin : pattern s e = min (pattern s e) infinityBits := (Nat.min_eq_left h.pattern_lt.le).symm
  obtain ⟨q, rfl⟩ : ∃ q, r = q * 2 ^ e := ⟨r / 2 ^ e, (div_mul_cancel₀ _ hunit.ne').symm⟩
  obtain ⟨hround, hshort⟩ := hr.rounds hs
  have hslt : (s : ℚ) + 1 ≤ 2 ^ 53 := by exact_mod_cast h.lt
  by_cases hbinade : (2 : ℚ) ^ (e + 52) ≤ q * 2 ^ e ∨ e = leastExponent
  · have hgrid : OnGrid (q * 2 ^ e) e := by
      refine ⟨h.least, ?_, hbinade⟩
      rw [add_comm, zpow_add₀ two_ne_zero]
      have hlt : q < 2 ^ (53 : ℤ) := lt_of_le_of_lt hround.high (by norm_num; linarith)
      exact mul_lt_mul_of_pos_right hlt hunit
    refine ⟨e, s, hgrid, ?_, hmin⟩
    rw [mul_div_cancel_right₀ _ hunit.ne']
    exact hround
  · obtain ⟨hbelow, hleast⟩ := not_or.mp hbinade
    have hqlt : q < 2 ^ 52 := by
      rw [add_comm, zpow_add₀ two_ne_zero, not_le] at hbelow
      exact_mod_cast lt_of_mul_lt_mul_right hbelow hunit.le
    have hpower : s = 2 ^ 52 := by
      have hle : (s : ℚ) < 2 ^ 52 + 1 := by linarith [hround.low]
      have hsle : s < 2 ^ 52 + 1 := by exact_mod_cast hle
      have := h.normal.resolve_right hleast
      omega
    have hmore : leastExponent < e := lt_of_le_of_ne h.least (Ne.symm hleast)
    have hlow := hshort hpower hmore
    subst hpower
    push_cast at hlow
    exact roundsTo_below_power hmore h.greatest (by linarith) hqlt

/-- A double is the one that it is rounded to. -/
theorem IsDouble.roundsTo {s : ℕ} {e : ℤ} (h : IsDouble s e) (hs : 0 < s) :
    RoundsTo (s * 2 ^ e) (pattern s e) := by
  have hunit : (0 : ℚ) < 2 ^ (e - 2) := by positivity
  have hself : (s : ℚ) * 2 ^ e = (4 * s : ℕ) * 2 ^ (e - 2) := by
    rw [zpow_sub₀ two_ne_zero, zpow_two]
    push_cast
    ring
  have hlow : (Interval.around s e).low < 4 * s := by
    simp only [Interval.around]
    split <;> omega
  have hlowq : ((Interval.around s e).low : ℚ) < (4 * s : ℕ) := by exact_mod_cast hlow
  have hhigh : 4 * s < (Interval.around s e).high := by
    simp only [Interval.around]
    omega
  have hhighq : ((4 * s : ℕ) : ℚ) < (Interval.around s e).high := by exact_mod_cast hhigh
  have hbelow := mul_lt_mul_of_pos_right hlowq hunit
  have habove := mul_lt_mul_of_pos_right hhighq hunit
  refine Interval.Holds.roundsTo h hs ?_
  rw [hself]
  exact ⟨hbelow.le, habove.le, Or.inr ⟨hbelow, habove⟩⟩

end Piecework.Number
