/-
# Piecework.Proofs.Number.Shortest — the decimals that doubles are written with.

A candidate on a decimal grid is taken only when it lies in the rounding interval (`Interval.onGrid_eq_some`).
A grid without one has steps that reach to the end of the interval (`Interval.le_of_onGrid_eq_none`), so one that
is finer than half a unit of the double has a candidate, and the search comes to such a grid before it runs out of
fuel, whichever the double is.  So the decimal that is written
is in the interval, and it has few digits, since the grid before had no candidate (`exists_shortest`).
-/
import Piecework.Proofs.Number.Rounding

namespace Piecework.Number

/-! ## Powers of two and of ten -/

/-- An inequality of two powers is one of powers of theirs. -/
theorem zpow_le_zpow_of_pow {a b : ℚ} (ha : 0 < a) (hb : 0 < b) {n : ℕ} (hn : n ≠ 0) {t k : ℤ}
    (h : (a ^ n) ^ t ≤ b ^ (n * k)) : a ^ t ≤ b ^ k := by
  rw [← pow_le_pow_iff_left₀ (zpow_pos ha t).le (zpow_pos hb k).le hn]
  calc (a ^ t) ^ n = (a ^ n) ^ t := by
        rw [← zpow_natCast, ← zpow_natCast, ← zpow_mul, ← zpow_mul, mul_comm]
    _ ≤ b ^ (n * k) := h
    _ = (b ^ k) ^ n := by rw [← zpow_natCast, ← zpow_mul, mul_comm]

/-- The logarithm of two lies between 59/196 and 28/93. -/
theorem two_zpow_le_ten_zpow {t k : ℤ} (hlow : 59 * t ≤ 196 * k) (hhigh : 28 * t ≤ 93 * k) :
    (2 : ℚ) ^ t ≤ 10 ^ k := by
  have hbelow : (10 : ℚ) ^ 59 ≤ 2 ^ 196 := by norm_num
  have habove : (2 : ℚ) ^ 93 ≤ 10 ^ 28 := by norm_num
  rcases le_total 0 t with ht | ht
  · refine zpow_le_zpow_of_pow two_pos (by norm_num) (by decide : 93 ≠ 0) ?_
    calc ((2 : ℚ) ^ 93) ^ t ≤ (10 ^ 28) ^ t := zpow_le_zpow_left₀ ht (by positivity) habove
      _ = 10 ^ (28 * t) := by rw [zpow_mul]; rfl
      _ ≤ 10 ^ (93 * k) := zpow_le_zpow_right₀ (by norm_num) hhigh
  · refine zpow_le_zpow_of_pow two_pos (by norm_num) (by decide : 196 ≠ 0) ?_
    calc ((2 : ℚ) ^ 196) ^ t = ((2 ^ 196)⁻¹) ^ (-t) := by rw [inv_zpow', neg_neg]
      _ ≤ ((10 ^ 59)⁻¹) ^ (-t) :=
          zpow_le_zpow_left₀ (by omega) (by positivity) (inv_anti₀ (by positivity) hbelow)
      _ = 10 ^ (59 * t) := by rw [inv_zpow', neg_neg, zpow_mul]; rfl
      _ ≤ 10 ^ (196 * k) := zpow_le_zpow_right₀ (by norm_num) hlow

theorem ten_zpow_le_two_zpow {t k : ℤ} (hlow : 196 * k ≤ 59 * t) (hhigh : 93 * k ≤ 28 * t) :
    (10 : ℚ) ^ k ≤ 2 ^ t := by
  have h := two_zpow_le_ten_zpow (t := -t) (k := -k) (by omega) (by omega)
  rwa [zpow_neg, zpow_neg, inv_le_inv₀ (by positivity) (by positivity)] at h

/-! ## Candidates -/

/-- Whether a multiple of `10 ^ p` lies in an interval, with both sides multiplied out. -/
def Interval.inside (i : Interval) (p : ℤ) (c : ℕ) : Bool :=
  let scale := 2 ^ i.exponent.toNat * 10 ^ (-p).toNat
  let step := 2 ^ (-i.exponent).toNat * 10 ^ p.toNat
  if i.closed then i.low * scale ≤ c * step && c * step ≤ i.high * scale
  else i.low * scale < c * step && c * step < i.high * scale

/-- The neighbour below the value on the grid of step `10 ^ p`. -/
def Interval.below (i : Interval) (p : ℤ) : ℕ :=
  i.value * (2 ^ i.exponent.toNat * 10 ^ (-p).toNat) / (2 ^ (-i.exponent).toNat * 10 ^ p.toNat)

/-- Multiplied out, a part of the interval compares with a multiple of the grid's step as before. -/
theorem Interval.le_iff (i : Interval) (p : ℤ) (a c : ℕ) :
    (a * (2 ^ i.exponent.toNat * 10 ^ (-p).toNat) ≤ c * (2 ^ (-i.exponent).toNat * 10 ^ p.toNat) ↔
        (a : ℚ) * 2 ^ i.exponent ≤ c * 10 ^ p) ∧
      (c * (2 ^ (-i.exponent).toNat * 10 ^ p.toNat) ≤ a * (2 ^ i.exponent.toNat * 10 ^ (-p).toNat) ↔
        (c : ℚ) * 10 ^ p ≤ a * 2 ^ i.exponent) := by
  have hunit : (0 : ℚ) < 2 ^ (-i.exponent).toNat * 10 ^ (-p).toNat := by positivity
  have hpart : ((a * (2 ^ i.exponent.toNat * 10 ^ (-p).toNat) : ℕ) : ℚ)
      = a * 2 ^ i.exponent * (2 ^ (-i.exponent).toNat * 10 ^ (-p).toNat) := by
    rw [zpow_eq_pow_div_pow two_ne_zero i.exponent]
    push_cast
    field_simp
  have hmultiple : ((c * (2 ^ (-i.exponent).toNat * 10 ^ p.toNat) : ℕ) : ℚ)
      = c * 10 ^ p * (2 ^ (-i.exponent).toNat * 10 ^ (-p).toNat) := by
    rw [zpow_eq_pow_div_pow (by norm_num) p]
    push_cast
    field_simp
  rw [← Nat.cast_le (α := ℚ), ← Nat.cast_le (α := ℚ), hpart, hmultiple,
    mul_le_mul_iff_left₀ hunit, mul_le_mul_iff_left₀ hunit]
  exact ⟨Iff.rfl, Iff.rfl⟩

theorem Interval.inside_iff (i : Interval) (p : ℤ) (c : ℕ) :
    i.inside p c = true ↔ i.Holds (c * 10 ^ p) := by
  have hlow := i.le_iff p i.low c
  have hhigh := i.le_iff p i.high c
  rw [inside]
  split_ifs with hclosed
  · rw [Bool.and_eq_true, decide_eq_true_eq, decide_eq_true_eq, hlow.1, hhigh.2]
    exact ⟨fun h => ⟨h.1, h.2, Or.inl hclosed⟩, fun h => ⟨h.low, h.high⟩⟩
  · rw [Bool.and_eq_true, decide_eq_true_eq, decide_eq_true_eq, ← not_le, ← not_le, hlow.2, hhigh.1,
      not_le, not_le]
    exact ⟨fun h => ⟨h.1.le, h.2.le, Or.inr h⟩, fun h => h.inside.resolve_left hclosed⟩

/-- What is taken is one of the two neighbours, where it lies in the interval. -/
theorem Interval.onGrid_eq_some {i : Interval} {tie : Tie} {p : ℤ} {digits : ℕ}
    (h : i.onGrid tie p = some digits) : i.inside p digits = true := by
  simp only [onGrid] at h
  split at h
  case h_1 hbelow habove =>
    split_ifs at h
    · exact Option.some.inj h ▸ hbelow
    · exact Option.some.inj h ▸ habove
    · cases tie with
      | up => exact Option.some.inj h ▸ habove
      | even =>
        rcases Nat.mod_two_eq_zero_or_one (i.below p) with heven | hodd
        · have hdigits : i.below p + i.below p % 2 = digits := Option.some.inj h
          rw [heven, Nat.add_zero] at hdigits
          exact hdigits ▸ hbelow
        · have hdigits : i.below p + i.below p % 2 = digits := Option.some.inj h
          rw [hodd] at hdigits
          exact hdigits ▸ habove
  case h_2 hbelow habove => exact Option.some.inj h ▸ hbelow
  case h_3 hbelow habove => exact Option.some.inj h ▸ habove
  case h_4 => cases h

theorem Interval.onGrid_eq_none {i : Interval} {tie : Tie} {p : ℤ} (h : i.onGrid tie p = none) :
    i.inside p (i.below p + 1) = false := by
  simp only [onGrid] at h
  split at h
  case h_1 hbelow habove =>
    split_ifs at h
    cases tie <;> cases h
  case h_2 hbelow habove => exact habove
  case h_3 hbelow habove => cases h
  case h_4 hbelow habove => exact habove

/-- A grid without a candidate has steps that reach from the value to the end of the interval. -/
theorem Interval.le_of_onGrid_eq_none {i : Interval} {tie : Tie} {p : ℤ} (hlow : i.low ≤ i.value)
    (h : i.onGrid tie p = none) : ((i.high : ℚ) - i.value) * 2 ^ i.exponent ≤ 10 ^ p := by
  have hstep : 0 < 2 ^ (-i.exponent).toNat * 10 ^ p.toNat := by positivity
  have hfloor := Nat.div_mul_le_self (i.value * (2 ^ i.exponent.toNat * 10 ^ (-p).toNat))
    (2 ^ (-i.exponent).toNat * 10 ^ p.toNat)
  have hceil : i.value * (2 ^ i.exponent.toNat * 10 ^ (-p).toNat)
      < (i.below p + 1) * (2 ^ (-i.exponent).toNat * 10 ^ p.toNat) := by
    rw [mul_comm (i.below p + 1)]
    exact Nat.lt_mul_div_succ _ hstep
  have hbelow : (i.below p : ℚ) * 10 ^ p ≤ i.value * 2 ^ i.exponent :=
    (i.le_iff p i.value (i.below p)).2.mp hfloor
  have habove : i.value * 2 ^ i.exponent < ((i.below p + 1 : ℕ) : ℚ) * 10 ^ p :=
    not_le.mp fun hle => absurd ((i.le_iff p i.value (i.below p + 1)).2.mpr hle) (not_le.mpr hceil)
  by_contra hshort
  have hunit : (0 : ℚ) < 2 ^ i.exponent := by positivity
  have hlowq : (i.low : ℚ) * 2 ^ i.exponent ≤ i.value * 2 ^ i.exponent :=
    mul_le_mul_of_nonneg_right (by exact_mod_cast hlow) hunit.le
  have hhigh : ((i.below p + 1 : ℕ) : ℚ) * 10 ^ p < i.high * 2 ^ i.exponent := by
    push_cast at habove ⊢
    linarith
  have hinside := (i.inside_iff p (i.below p + 1)).mpr
    ⟨by linarith, hhigh.le, Or.inr ⟨by linarith, hhigh⟩⟩
  rw [onGrid_eq_none h] at hinside
  cases hinside

/-! ## The search -/

/-- The search finds the first grid with a candidate, when there is one within its fuel. -/
theorem Interval.search_spec {i : Interval} {tie : Tie} :
    ∀ (fuel : ℕ) (p : ℤ), i.onGrid tie (p - fuel) ≠ none →
      ∃ digits q, i.search tie (fuel + 1) p = (digits, q) ∧ p - fuel ≤ q ∧ q ≤ p ∧
        i.onGrid tie q = some digits ∧ (q = p ∨ i.onGrid tie (q + 1) = none)
  | fuel, p, h => by
    rw [search]
    cases hgrid : i.onGrid tie p with
    | some digits => exact ⟨digits, p, rfl, by omega, le_rfl, hgrid, Or.inl rfl⟩
    | none =>
      cases fuel with
      | zero => exact absurd hgrid (by simpa using h)
      | succ fuel =>
        have hrest : p - 1 - fuel = p - (fuel + 1 : ℕ) := by push_cast; ring
        obtain ⟨digits, q, heq, hlow, hhigh, hfound, hfirst⟩ :=
          search_spec fuel (p - 1) (hrest ▸ h)
        refine ⟨digits, q, heq, by omega, by omega, hfound, Or.inr ?_⟩
        rcases hfirst with rfl | hnone
        · rwa [sub_add_cancel]
        · exact hnone

/-- From the interval's value to its end it is half a unit of the double. -/
theorem Interval.around_half (s : ℕ) (e : ℤ) :
    (((Interval.around s e).high : ℚ) - (Interval.around s e).value) * 2 ^ (Interval.around s e).exponent
      = 2 ^ (e - 1) := by
  have hhalf : (2 : ℚ) ^ (e - 1) = 2 * 2 ^ (e - 2) := by
    rw [← zpow_one_add₀ two_ne_zero]
    congr 1
    omega
  simp only [around, hhalf]
  push_cast
  ring

/-- The search starts above the double, and ends below its unit. -/
theorem gridAbove_spec {s : ℕ} {e : ℤ} (h : IsDouble s e) (hs : 0 < s) :
    (2 : ℚ) ^ (e - 1) ≤ 10 ^ (gridAbove s e + 1) ∧ (10 : ℚ) ^ (gridAbove s e - 23) < 2 ^ (e - 1) ∧
      -323 ≤ gridAbove s e ∧ gridAbove s e ≤ 311 := by
  have hlog : s.log2 ≤ 52 := Nat.le_of_lt_succ ((Nat.log2_lt hs.ne').mpr h.lt)
  have hleast := h.least
  have hgreatest := h.greatest
  simp only [leastExponent] at hleast
  have hfine : (2 : ℚ) ^ (e - 2) < 2 ^ (e - 1) := zpow_lt_zpow_right₀ (by norm_num) (by omega)
  refine ⟨two_zpow_le_ten_zpow ?_ ?_, lt_of_le_of_lt (ten_zpow_le_two_zpow ?_ ?_) hfine, ?_, ?_⟩ <;>
    simp only [gridAbove] <;> omega

section Decimal

variable {s : ℕ} {e : ℤ} {digits : ℕ} {power : ℤ}

/-- The interval of a positive double does not reach down to zero. -/
theorem Interval.around_low_pos (e : ℤ) (hs : 0 < s) :
    (0 : ℚ) < (Interval.around s e).low * 2 ^ (Interval.around s e).exponent := by
  refine mul_pos (Nat.cast_pos.mpr ?_) (by positivity)
  simp only [around]
  split <;> omega

/-- A decimal in the interval is at most half a unit above the double. -/
theorem Interval.Holds.le_unit (hs : 0 < s) {r : ℚ} (h : (Interval.around s e).Holds r) :
    r ≤ (2 * s + 1) * 2 ^ (e - 1) := by
  refine (h.half hs).2.trans_eq ?_
  rw [zpow_sub_one₀ two_ne_zero]
  ring

theorem Interval.Holds.digits_pos (hs : 0 < s) (h : (Interval.around s e).Holds (digits * 10 ^ power)) :
    0 < digits := by
  have hdigits := lt_of_lt_of_le (Interval.around_low_pos e hs) h.low
  rw [mul_pos_iff_of_pos_right (by positivity)] at hdigits
  exact_mod_cast hdigits

/-- On a grid that is at most ten times as fine as needed, the digits fit into 58 bits. -/
theorem Interval.Holds.digits_lt (hdouble : IsDouble s e) (hs : 0 < s)
    (h : (Interval.around s e).Holds (digits * 10 ^ power)) (hcoarse : (2 : ℚ) ^ (e - 1) ≤ 10 ^ (power + 1)) :
    digits < 2 ^ 58 := by
  have hbound : (digits : ℚ) * 10 ^ power ≤ (2 * s + 1) * 10 * 10 ^ power := by
    calc (digits : ℚ) * 10 ^ power ≤ (2 * s + 1) * 2 ^ (e - 1) := h.le_unit hs
      _ ≤ (2 * s + 1) * 10 ^ (power + 1) := by gcongr
      _ = (2 * s + 1) * 10 * 10 ^ power := by rw [zpow_add_one₀ (by norm_num)]; ring
  have hdigits : digits ≤ (2 * s + 1) * 10 := by
    exact_mod_cast le_of_mul_le_mul_right hbound (by positivity)
  have := hdouble.lt
  omega

/-- No double reaches the power of ten behind the last one. -/
theorem Interval.Holds.power_le (hdouble : IsDouble s e) (hs : 0 < s)
    (h : (Interval.around s e).Holds (digits * 10 ^ power)) : power ≤ 308 := by
  have hone : (1 : ℚ) ≤ digits := by exact_mod_cast h.digits_pos hs
  have hlt := hdouble.lt
  have hslt : (2 * s + 1 : ℚ) < 2 ^ 54 := by
    have : 2 * s + 1 < 2 ^ 54 := by omega
    exact_mod_cast this
  have hten : (10 : ℚ) ^ power < 10 ^ (309 : ℤ) := by
    calc (10 : ℚ) ^ power ≤ digits * 10 ^ power := le_mul_of_one_le_left (by positivity) hone
      _ ≤ (2 * s + 1) * 2 ^ (e - 1) := h.le_unit hs
      _ < 2 ^ 54 * 2 ^ (e - 1) := mul_lt_mul_of_pos_right hslt (by positivity)
      _ = 2 ^ (54 + (e - 1)) := (zpow_add₀ two_ne_zero 54 (e - 1)).symm
      _ ≤ 10 ^ (309 : ℤ) := by
          have := hdouble.greatest
          exact two_zpow_le_ten_zpow (by omega) (by omega)
  have := (zpow_lt_zpow_iff_right₀ (by norm_num : (1 : ℚ) < 10)).mp hten
  omega

/-- **Every double is written** with digits that lead back into its interval, that fit into a word, and
with a small power of ten. -/
theorem exists_shortest (tie : Tie) (h : IsDouble s e) (hs : 0 < s) :
    ∃ digits power, shortest tie s e = (digits, power) ∧ 0 < digits ∧ digits < 2 ^ 58 ∧
      -346 ≤ power ∧ power ≤ 308 ∧ (Interval.around s e).Holds (digits * 10 ^ power) := by
  obtain ⟨hstart, hend, hlow, hhigh⟩ := gridAbove_spec h hs
  have hvalue : (Interval.around s e).low ≤ (Interval.around s e).value := by
    simp only [Interval.around]
    split <;> omega
  have hfuel : (Interval.around s e).onGrid tie (gridAbove s e - (23 : ℕ)) ≠ none := by
    intro hnone
    have hle := Interval.le_of_onGrid_eq_none hvalue hnone
    rw [Interval.around_half] at hle
    exact absurd hend (not_lt.mpr hle)
  obtain ⟨digits, power, heq, hpowerLow, -, hfound, hfirst⟩ :=
    Interval.search_spec 23 (gridAbove s e) hfuel
  have hholds := ((Interval.around s e).inside_iff power digits).mp (Interval.onGrid_eq_some hfound)
  -- The grid before was coarser than the interval, or the first one.
  have hcoarse : (2 : ℚ) ^ (e - 1) ≤ 10 ^ (power + 1) := by
    rcases hfirst with rfl | hnone
    · exact hstart
    · exact Interval.around_half s e ▸ Interval.le_of_onGrid_eq_none hvalue hnone
  exact ⟨digits, power, heq, hholds.digits_pos hs, hholds.digits_lt h hs hcoarse, by omega,
    hholds.power_le h hs, hholds⟩

end Decimal

end Piecework.Number
