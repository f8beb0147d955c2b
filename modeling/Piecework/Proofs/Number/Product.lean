/-
# Piecework.Proofs.Number.Product — products and quotients of doubles.

The core library computes a product or a quotient as digits with a round bit and a sticky bit, and shifts
them right until they fit.  The two bits always tell on which side of a half the exact value lies
(`Represents`), through every shift, so the result is the exact product or quotient, rounded once
(`mul_eq`, `div_eq`).
-/
import Piecework.Proofs.Number.Double

namespace Piecework.Number

open Float.Model (UnpackedFloat Format totalExponent)
open Float.Model.Format (binary64)
open Float.Model.UnpackedFloat

/-! ## What the two bits tell -/

/-- The digits that are still there, the round bit among them. -/
def kept (em : ExtendedMantissa) : ℚ := em.mantissa + if em.roundBit then 1 / 2 else 0

/-- A rational whose digits were cut behind the round bit, and what the sticky bit says about the rest. -/
structure Represents (em : ExtendedMantissa) (q : ℚ) : Prop where
  low : kept em ≤ q
  high : q < kept em + 1 / 2
  exact : em.stickyBit = false ↔ q = kept em

theorem represents_exact (m : ℕ) : Represents (.ofMantissaAndAccuracy m .exact) m := by
  have hkept : kept (.ofMantissaAndAccuracy m .exact) = m := add_zero _
  rw [← hkept]
  exact ⟨le_rfl, by linarith, iff_of_true rfl rfl⟩

/-- The remainder of a division decides the bits. -/
theorem represents_div (num : ℕ) {den : ℕ} (hden : 0 < den) :
    Represents (.ofMantissaAndAccuracy (num / den) (accuracyOfFraction (num % den) den))
      (num / den) := by
  have hdenq : (0 : ℚ) < den := by exact_mod_cast hden
  have hdiv : (num : ℚ) = den * (num / den : ℕ) + (num % den : ℕ) := by
    exact_mod_cast (Nat.div_add_mod num den).symm
  have hrest : (num : ℚ) / den = (num / den : ℕ) + (num % den : ℕ) / den := by
    rw [hdiv]
    field_simp
  have hlt := Nat.mod_lt num hden
  generalize num / den = quotient at hrest
  generalize num % den = rest at hrest hlt
  rw [hrest, accuracyOfFraction]
  split_ifs with hzero
  · subst hzero
    rw [Nat.cast_zero, zero_div, add_zero]
    exact represents_exact quotient
  · have hpos : (0 : ℚ) < rest / den := div_pos (by exact_mod_cast Nat.pos_of_ne_zero hzero) hdenq
    have hone : (rest : ℚ) / den < 1 := (div_lt_one hdenq).mpr (by exact_mod_cast hlt)
    rcases Nat.lt_trichotomy (2 * rest) den with hbelow | hhalf | habove
    · have hhalf : (rest : ℚ) / den < 1 / 2 := by
        rw [div_lt_iff₀ hdenq]
        have : (2 * rest : ℚ) < den := by exact_mod_cast hbelow
        linarith
      rw [Nat.compare_eq_lt.mpr hbelow]
      refine ⟨?_, ?_, ?_⟩ <;> simp only [kept, ExtendedMantissa.ofMantissaAndAccuracy]
      · simpa using hpos.le
      · simpa using hhalf
      · simpa using hpos.ne'
    · have hhalf : (rest : ℚ) / den = 1 / 2 := by
        rw [div_eq_iff hdenq.ne']
        have : (2 * rest : ℚ) = den := by exact_mod_cast hhalf
        linarith
      rw [Nat.compare_eq_eq.mpr ‹_›, hhalf]
      refine ⟨?_, ?_, ?_⟩ <;> simp [kept, ExtendedMantissa.ofMantissaAndAccuracy]
    · have hhalf : 1 / 2 < (rest : ℚ) / den := by
        rw [lt_div_iff₀ hdenq]
        have : (den : ℚ) < 2 * rest := by exact_mod_cast habove
        linarith
      rw [Nat.compare_eq_gt.mpr habove]
      refine ⟨?_, ?_, ?_⟩ <;> simp only [kept, ExtendedMantissa.ofMantissaAndAccuracy, if_true]
      · linarith
      · linarith
      · simpa using hhalf.ne'

theorem Represents.shiftRightOne {em : ExtendedMantissa} {q : ℚ} (h : Represents em q) :
    Represents em.shiftRightOne (q / 2) := by
  obtain ⟨m, round, sticky⟩ := em
  obtain ⟨hlow, hhigh, hexact⟩ := h
  have hkept : kept (ExtendedMantissa.mk m round sticky).shiftRightOne = m / 2 := by
    have hhalves : (m : ℚ) = 2 * (m / 2 : ℕ) + (m % 2 : ℕ) := by
      exact_mod_cast (Nat.div_add_mod m 2).symm
    rcases Nat.mod_two_eq_zero_or_one m with heven | hodd
    · rw [heven] at hhalves
      simp only [kept, ExtendedMantissa.shiftRightOne, heven]
      rw [hhalves]
      simp
    · rw [hodd] at hhalves
      simp only [kept, ExtendedMantissa.shiftRightOne, hodd]
      rw [hhalves]
      push_cast
      simp
      ring
  simp only [kept] at hlow hhigh hexact
  refine ⟨?_, ?_, ?_⟩
  · rw [hkept]
    split_ifs at hlow <;> linarith
  · rw [hkept]
    split_ifs at hhigh <;> linarith
  · rw [hkept]
    simp only [ExtendedMantissa.shiftRightOne, Bool.or_eq_false_iff]
    cases round with
    | false =>
      simp only [Bool.false_eq_true, if_false, add_zero, true_and] at hexact ⊢
      rw [hexact]
      constructor <;> intro h <;> linarith
    | true =>
      simp only [if_true, Bool.true_eq_false, false_and, false_iff] at hlow ⊢
      intro h
      linarith

theorem Represents.shiftRight {em : ExtendedMantissa} {q : ℚ} (h : Represents em q) :
    ∀ n : ℕ, Represents (em >>> n) (q / 2 ^ n)
  | 0 => by
    rw [pow_zero, div_one]
    exact h
  | n + 1 => by
    have hstep := (h.shiftRight n).shiftRightOne
    rw [div_div, ← pow_succ] at hstep
    exact hstep

theorem Represents.mantissa {em : ExtendedMantissa} {q : ℚ} (h : Represents em q) :
    (em.mantissa : ℚ) ≤ q ∧ q < em.mantissa + 1 := by
  obtain ⟨hlow, hhigh, -⟩ := h
  simp only [kept] at hlow hhigh
  split_ifs at hlow hhigh <;> exact ⟨by linarith, by linarith⟩

/-- The bits decide the nearest integer. -/
theorem Represents.rounds {em : ExtendedMantissa} {q : ℚ} (h : Represents em q) :
    Rounds q em.roundedMantissa := by
  obtain ⟨m, round, sticky⟩ := em
  obtain ⟨hlow, hhigh, hexact⟩ := h
  simp only [kept] at hlow hhigh hexact
  cases round with
  | false =>
    simp only [Bool.false_eq_true, if_false, add_zero] at hlow hhigh
    have hround : (ExtendedMantissa.mk m false sticky).roundedMantissa = m := by cases sticky <;> rfl
    rw [hround]
    exact ⟨by linarith, by linarith, Or.inr ⟨by linarith, by linarith⟩⟩
  | true =>
    simp only [if_true] at hlow hhigh hexact
    cases sticky with
    | false =>
      -- Half-way, the even neighbour is taken.
      have hhalf := hexact.mp rfl
      have hround : (ExtendedMantissa.mk m true false).roundedMantissa = m + m % 2 := rfl
      rw [hround]
      rcases Nat.mod_two_eq_zero_or_one m with heven | hodd
      · rw [heven, Nat.add_zero]
        exact ⟨by linarith, by linarith, Or.inl heven⟩
      · rw [hodd]
        refine ⟨?_, ?_, Or.inl (by omega)⟩ <;> push_cast <;> linarith
    | true =>
      have hmore : (m : ℚ) + 1 / 2 < q := lt_of_le_of_ne hlow fun heq => by simp [← heq] at hexact
      have hround : (ExtendedMantissa.mk m true true).roundedMantissa = m + 1 := rfl
      rw [hround]
      refine ⟨?_, ?_, Or.inr ⟨?_, ?_⟩⟩ <;> push_cast <;> linarith

/-! ## Rounding and packing -/

theorem targetExponent_eq (m : ℕ) (e : ℤ) :
    binary64.targetExponent (totalExponent m e) = max (m.log2 + e - 52) leastExponent := by
  have hleast : binary64.minExponent = leastExponent := rfl
  have hbits : ((binary64.mantissaBits : ℕ) : ℤ) = 53 := rfl
  rw [Format.targetExponent, totalExponent, hleast, hbits]
  congr 1
  omega

/-- A significand on its grid is packed, or it is infinity. -/
theorem toNat_pack_significand (negative : Bool) {s : ℕ} {e : ℤ} (hs : 0 < s) (hlt : s < 2 ^ 53)
    (hleast : leastExponent ≤ e) (hnormal : 2 ^ 52 ≤ s ∨ e = leastExponent) :
    (pack binary64 (.finite (signOf negative) s e hs)).toNat
      = signed negative (min (pattern s e) infinityBits) := by
  by_cases hgreatest : e ≤ 971
  · have hdouble : IsDouble s e := ⟨hlt, hleast, hgreatest, hnormal⟩
    rw [toNat_pack_finite negative hdouble hs, Nat.min_eq_left hdouble.pattern_lt.le]
  · have hlarge : 2 ^ 52 ≤ s := by
      simp only [leastExponent] at hnormal
      omega
    have hinfinite : infinityBits ≤ pattern s e := by
      simp only [infinityBits, pattern, leastExponent, fractionBits]
      omega
    have hbeyond : 2 ^ binary64.exponentBits
        ≤ (e + binary64.exponentBias + binary64.mantissaBitsWithoutImplicit).toNat + 1 := by
      simp only [Format.exponentBias]
      omega
    rw [Nat.min_eq_right hinfinite, pack]
    simp only [hbeyond, if_true]
    cases negative <;> rfl

/-- Digits that fit already are not shifted, and a carry into the next binade is shifted once. -/
theorem shiftToTargetExponent_exact {k : ℕ} {g : ℤ} (hk : k ≤ 2 ^ 53) (hleast : leastExponent ≤ g) :
    (shiftToTargetExponent binary64 k g .exact).1.mantissa = (if k = 2 ^ 53 then 2 ^ 52 else k) ∧
      (shiftToTargetExponent binary64 k g .exact).2 = (if k = 2 ^ 53 then g + 1 else g) := by
  rw [shiftToTargetExponent, targetExponent_eq]
  split_ifs with hcarry
  · have hshift : (max (((2 ^ 53).log2 : ℤ) + g - 52) leastExponent - g).toNat = 1 := by
      rw [Nat.log2_two_pow]
      omega
    simp only [hcarry, shiftToExponent, hshift]
    exact ⟨rfl, rfl⟩
  · have hlog : k.log2 ≤ 52 := by
      rcases Nat.eq_zero_or_pos k with rfl | hpos
      · decide
      · have := (Nat.log2_lt hpos.ne').mpr (show k < 2 ^ 53 by omega)
        omega
    have hshift : (max ((k.log2 : ℤ) + g - 52) leastExponent - g).toNat = 0 := by omega
    simp only [shiftToExponent, hshift]
    exact ⟨rfl, add_zero g⟩

theorem mantissa_ofMantissaAndAccuracy (m : ℕ) (accuracy : Accuracy) :
    (ExtendedMantissa.ofMantissaAndAccuracy m accuracy).mantissa = m := by
  rcases accuracy with _ | (_ | _ | _) <;> rfl

/-- The digits of a rational decide its grid. -/
theorem targetExponent_of_onGrid {m : ℕ} {e g : ℤ} {q : ℚ} (hlow : (m : ℚ) ≤ q) (hhigh : q < m + 1)
    (hgrid : OnGrid (q * 2 ^ e) g) (hle : e ≤ g) :
    binary64.targetExponent (totalExponent m e) = g := by
  have hunit : (0 : ℚ) < 2 ^ e := by positivity
  rw [targetExponent_eq]
  rcases Nat.eq_zero_or_pos m with rfl | hpos
  · -- Less than one unit of the digits is left, so the grid is the least one.
    have hbelow : q * 2 ^ e < 2 ^ e := by
      have : q < 1 := by simpa using hhigh
      exact (mul_lt_iff_lt_one_left hunit).mpr this
    have hleast : g = leastExponent := by
      refine hgrid.lower.resolve_left fun h => ?_
      have := (zpow_lt_zpow_iff_right₀ (by norm_num : (1 : ℚ) < 2)).mp (lt_of_le_of_lt h hbelow)
      omega
    rw [Nat.log2_zero]
    omega
  · refine OnGrid.unique ?_ hgrid
    have hdigitsLow : (2 : ℚ) ^ m.log2 ≤ m := by exact_mod_cast Nat.log2_self_le hpos.ne'
    have hdigitsHigh : (m : ℚ) + 1 ≤ 2 ^ (m.log2 + 1) := by exact_mod_cast Nat.lt_log2_self
    refine ⟨le_max_right _ _, ?_, ?_⟩
    · calc q * 2 ^ e < 2 ^ (m.log2 + 1) * 2 ^ e :=
            mul_lt_mul_of_pos_right (by linarith) hunit
        _ = 2 ^ ((m.log2 : ℤ) + e + 1) := by
            rw [← zpow_natCast, ← zpow_add₀ two_ne_zero]
            congr 1
            push_cast
            omega
        _ ≤ 2 ^ (max ((m.log2 : ℤ) + e - 52) leastExponent + 53) :=
            zpow_le_zpow_right₀ (by norm_num) (by omega)
    · refine (le_total leastExponent ((m.log2 : ℤ) + e - 52)).imp (fun h => ?_) max_eq_right
      calc (2 : ℚ) ^ (max ((m.log2 : ℤ) + e - 52) leastExponent + 52) = 2 ^ m.log2 * 2 ^ e := by
            rw [max_eq_left h, sub_add_cancel, zpow_add₀ two_ne_zero, zpow_natCast]
        _ ≤ q * 2 ^ e := mul_le_mul_of_nonneg_right (by linarith) hunit.le

/-- **Digits whose two bits represent the exact result** are rounded to the double of the exact result,
when they reach down to its grid. -/
theorem toNat_pack_round (negative : Bool) {m : ℕ} {e : ℤ} {accuracy : Accuracy} {q : ℚ}
    (h : Represents (.ofMantissaAndAccuracy m accuracy) q) {g : ℤ} {k : ℕ}
    (hgrid : OnGrid (q * 2 ^ e) g) (hround : Rounds (q * 2 ^ e / 2 ^ g) k) (hle : e ≤ g) :
    (pack binary64 (roundWithAccuracy binary64 (signOf negative) m e accuracy)).toNat
      = signed negative (min (pattern k g) infinityBits) := by
  obtain ⟨hlow, hhigh⟩ := h.mantissa
  rw [mantissa_ofMantissaAndAccuracy] at hlow hhigh
  have hshift : q * 2 ^ e / 2 ^ g = q / 2 ^ (g - e).toNat := by
    have hexponent : g = e + ((g - e).toNat : ℤ) := by omega
    conv_lhs => rw [hexponent, zpow_add₀ two_ne_zero, zpow_natCast]
    field_simp
  obtain ⟨hcarry, hlarge⟩ := hgrid.significand hround
  rw [hshift] at hround
  have hk := (h.shiftRight (g - e).toNat).rounds.unique hround
  obtain ⟨hmantissa, hexponent⟩ := shiftToTargetExponent_exact hcarry hgrid.least
  have hfirst : shiftToTargetExponent binary64 m e accuracy
      = (ExtendedMantissa.ofMantissaAndAccuracy m accuracy >>> (g - e).toNat, g) := by
    have hsum : e + ((g - e).toNat : ℤ) = g := by omega
    simp only [shiftToTargetExponent, targetExponent_of_onGrid hlow hhigh hgrid hle,
      shiftToExponent, hsum]
  rw [roundWithAccuracy, hfirst]
  simp only [hk, hmantissa, hexponent]
  have hleast := hgrid.least
  by_cases hcarried : k = 2 ^ 53
  · have hpattern : pattern (2 ^ 53) g = pattern (2 ^ 52) (g + 1) := by
      simp only [pattern, fractionBits]
      omega
    simp only [hcarried, if_true]
    rw [dif_neg (by decide), hpattern]
    exact toNat_pack_significand negative _ (by decide) (by omega) (Or.inl le_rfl)
  · simp only [hcarried, if_false]
    by_cases hzero : k = 0
    · have hg : g = leastExponent := hlarge.resolve_left (by omega)
      rw [dif_pos hzero, hzero, hg]
      cases negative <;> rfl
    · rw [dif_neg hzero]
      exact toNat_pack_significand negative _ (by omega) hleast hlarge

/-! ## The two operations -/

section Operations

variable {x y : Float} {v w : ℚ}

/-- **A product** is the exact one, rounded. -/
theorem mul_eq (hx : HasValue x v) (hy : HasValue y w) {m : ℕ} (h : RoundsTo (v * w) m) :
    x * y = double false m := by
  obtain ⟨s, d, hs, hspos, rfl, rfl⟩ := hx
  obtain ⟨t, e, ht, htpos, rfl, rfl⟩ := hy
  obtain ⟨g, k, hgrid, hround, rfl⟩ := h
  have hproduct : (s : ℚ) * 2 ^ d * (t * 2 ^ e) = (s * t : ℕ) * 2 ^ (d + e) := by
    rw [zpow_add₀ two_ne_zero]
    push_cast
    ring
  rw [hproduct] at hgrid hround
  have hle : d + e ≤ g := by
    by_cases hleast : d = leastExponent ∧ e = leastExponent
    · rw [hleast.1, hleast.2]
      exact le_trans (by decide) hgrid.least
    · -- One factor is normal, so the product has digits enough.
      have hdigits : 2 ^ 52 ≤ s * t := by
        rcases not_and_or.mp hleast with hd | he
        · exact (hs.normal.resolve_right hd).trans (Nat.le_mul_of_pos_right s htpos)
        · exact (ht.normal.resolve_right he).trans (Nat.le_mul_of_pos_left t hspos)
      have hdigitsq : (2 : ℚ) ^ 52 ≤ (s * t : ℕ) := by exact_mod_cast hdigits
      have hpow : (2 : ℚ) ^ (52 + (d + e)) < 2 ^ (g + 53) := by
        refine lt_of_le_of_lt ?_ hgrid.upper
        rw [zpow_add₀ two_ne_zero]
        exact mul_le_mul_of_nonneg_right hdigitsq (by positivity)
      have := (zpow_lt_zpow_iff_right₀ (by norm_num : (1 : ℚ) < 2)).mp hpow
      omega
  refine ofModel_pack_eq (Nat.min_le_right _ _) ?_
  rw [unpack_toModel_double false hs hspos, unpack_toModel_double false ht htpos]
  exact toNat_pack_round false (represents_exact (s * t)) hgrid hround hle

/-- **A quotient** is the exact one, rounded. -/
theorem div_eq (hx : HasValue x v) (hy : HasValue y w) {m : ℕ} (h : RoundsTo (v / w) m) :
    x / y = double false m := by
  obtain ⟨s, d, hs, hspos, rfl, rfl⟩ := hx
  obtain ⟨t, e, ht, htpos, rfl, rfl⟩ := hy
  obtain ⟨g, k, hgrid, hround, rfl⟩ := h
  generalize hstart : min (d - e) (binary64.targetExponent (totalExponent s d - totalExponent t e))
    = start
  generalize hshift : (d - e - start).toNat = shift
  have htq : (0 : ℚ) < t := by exact_mod_cast htpos
  have hle : start ≤ g := by
    -- The quotient lies less than one binade below the difference of the two exponents.
    have hsLow : (2 : ℚ) ^ s.log2 ≤ s := by exact_mod_cast Nat.log2_self_le hspos.ne'
    have htHigh : (t : ℚ) < 2 ^ (t.log2 + 1) := by exact_mod_cast Nat.lt_log2_self
    have hpow : (2 : ℚ) ^ (s.log2 + d - (t.log2 + 1 + e)) < 2 ^ (g + 53) := by
      refine lt_of_le_of_lt ?_ hgrid.upper
      rw [zpow_sub₀ two_ne_zero, zpow_add₀ two_ne_zero, zpow_add₀ two_ne_zero, ← Nat.cast_succ,
        zpow_natCast, zpow_natCast]
      gcongr
    have hexponent := (zpow_lt_zpow_iff_right₀ (by norm_num : (1 : ℚ) < 2)).mp hpow
    have hbits : ((binary64.mantissaBits : ℕ) : ℤ) = 53 := rfl
    have hleast : binary64.minExponent ≤ g := hgrid.least
    rw [Format.targetExponent, totalExponent, totalExponent, hbits] at hstart
    omega
  have hquotient : (s : ℚ) * 2 ^ d / (t * 2 ^ e) = (s <<< shift : ℕ) / t * 2 ^ start := by
    have hsum : d = shift + start + e := by omega
    rw [Nat.shiftLeft_eq, hsum, zpow_add₀ two_ne_zero, zpow_add₀ two_ne_zero, zpow_natCast]
    push_cast
    field_simp
  rw [hquotient] at hgrid hround
  refine ofModel_pack_eq (Nat.min_le_right _ _) ?_
  rw [unpack_toModel_double false hs hspos, unpack_toModel_double false ht htpos]
  have := toNat_pack_round false (represents_div (s <<< shift) htpos) hgrid hround hle
  rw [← hshift, ← hstart] at this
  exact this

end Operations

end Piecework.Number
