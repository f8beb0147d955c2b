/-
# Piecework.Proofs.Number.Error — how far rounding goes.

Rounding keeps order (`RoundsTo.mono`).  What stays well below the middle behind the largest double does
not become infinite (`RoundsTo.lt_infinity`), and above the subnormal numbers the double that a rational
is rounded to is off by one part in `2 ^ 53` at most (`RoundsTo.exists_near`).  A rational within a few
units of a double is rounded to one of its neighbours (`RoundsTo.near`).
-/
import Piecework.Proofs.Number.Rounding

namespace Piecework.Number

/-! ## Order -/

theorem Rounds.mono {q r : ℚ} {j k : ℕ} (hj : Rounds q j) (hk : Rounds r k) (hle : q ≤ r) : j ≤ k := by
  rcases hle.eq_or_lt with rfl | hlt
  · exact (hj.unique hk).le
  · have hclose : (j : ℚ) < k + 1 := by linarith [hj.low, hk.high]
    exact Nat.le_of_lt_succ (by exact_mod_cast hclose)

theorem OnGrid.mono {q r : ℚ} {d e : ℤ} (hd : OnGrid q d) (he : OnGrid r e) (hle : q ≤ r) : d ≤ e := by
  rcases hd.lower with hlow | hleast
  · have hpow : (2 : ℚ) ^ (d + 52) < 2 ^ (e + 53) := lt_of_le_of_lt (hlow.trans hle) he.upper
    have := (zpow_lt_zpow_iff_right₀ (by norm_num : (1 : ℚ) < 2)).mp hpow
    omega
  · exact hleast ▸ he.least

/-- **Rounding keeps order.** -/
theorem RoundsTo.mono {q r : ℚ} {m n : ℕ} (hm : RoundsTo q m) (hn : RoundsTo r n) (hle : q ≤ r) :
    m ≤ n := by
  obtain ⟨d, j, hd, hj, rfl⟩ := hm
  obtain ⟨e, k, he, hk, rfl⟩ := hn
  refine min_le_min_right _ ?_
  have hleast := hd.least
  rcases (hd.mono he hle).eq_or_lt with rfl | hlt
  · have hround : j ≤ k := hj.mono hk (div_le_div_of_nonneg_right hle (by positivity))
    simp only [pattern]
    omega
  · -- The finer grid ends where the coarser one begins.
    obtain ⟨hcarry, -⟩ := hd.significand hj
    obtain ⟨-, hlarge⟩ := he.significand hk
    have hnormal := hlarge.resolve_right (by omega)
    simp only [pattern, fractionBits]
    omega

/-! ## The largest double -/

/-- Below the middle between the largest double and the next power of two nothing becomes infinite. -/
theorem RoundsTo.lt_infinity {r : ℚ} {m : ℕ} (h : RoundsTo r m) (hr : r < (2 ^ 54 - 1) * 2 ^ (970 : ℤ)) :
    m < infinityBits := by
  obtain ⟨e, k, he, hk, rfl⟩ := h
  refine lt_of_le_of_lt (min_le_left _ _) ?_
  obtain ⟨hcarry, hlarge⟩ := he.significand hk
  have hgrid : e ≤ 971 := by
    rcases he.lower with hlow | hleast
    · have hpow : (2 : ℚ) ^ (e + 52) < 2 ^ (1024 : ℤ) := by
        calc (2 : ℚ) ^ (e + 52) < (2 ^ 54 - 1) * 2 ^ (970 : ℤ) := lt_of_le_of_lt hlow hr
          _ < 2 ^ (54 : ℤ) * 2 ^ (970 : ℤ) := mul_lt_mul_of_pos_right (by norm_num) (by positivity)
          _ = 2 ^ (1024 : ℤ) := (zpow_add₀ two_ne_zero 54 970).symm
      have := (zpow_lt_zpow_iff_right₀ (by norm_num : (1 : ℚ) < 2)).mp hpow
      omega
    · rw [hleast]
      decide
  have hdouble : e < 971 ∨ k < 2 ^ 53 := by
    refine or_iff_not_imp_left.mpr fun hnot => ?_
    have he971 : e = 971 := by omega
    have hhalf : (2 : ℚ) ^ (971 : ℤ) = 2 * 2 ^ (970 : ℤ) := (zpow_one_add₀ two_ne_zero 970)
    have hlow := hk.low
    rw [he971, le_div_iff₀ (by positivity), hhalf] at hlow
    have hlt : ((k : ℚ) - 1 / 2) * 2 * 2 ^ (970 : ℤ) < (2 ^ 54 - 1) * 2 ^ (970 : ℤ) := by
      calc ((k : ℚ) - 1 / 2) * 2 * 2 ^ (970 : ℤ) = (k - 1 / 2) * (2 * 2 ^ (970 : ℤ)) := by ring
        _ ≤ r := hlow
        _ < (2 ^ 54 - 1) * 2 ^ (970 : ℤ) := hr
    have hk53 : (k : ℚ) < 2 ^ 53 := by
      have hhalves := lt_of_mul_lt_mul_right hlt (by positivity)
      linarith only [hhalves]
    exact_mod_cast hk53
  have hleast := he.least
  simp only [leastExponent] at hleast
  simp only [pattern, infinityBits, leastExponent, fractionBits]
  omega

/-! ## Relative error -/

/-- A finite result is a double, and its distance from the exact value is half a unit of the grid. -/
theorem RoundsTo.exists_isDouble {r : ℚ} {m : ℕ} (h : RoundsTo r m) (hm : m < infinityBits) :
    ∃ s e g, IsDouble s e ∧ m = pattern s e ∧ OnGrid r g ∧ |(s : ℚ) * 2 ^ e - r| ≤ 2 ^ g / 2 := by
  obtain ⟨g, k, hg, hk, rfl⟩ := h
  obtain ⟨hcarry, hlarge⟩ := hg.significand hk
  have hunit : (0 : ℚ) < 2 ^ g := by positivity
  have hleast := hg.least
  have hplace := (min_lt_iff.mp hm).resolve_right (lt_irrefl _)
  rw [Nat.min_eq_left hplace.le]
  have hclose : |(k : ℚ) * 2 ^ g - r| ≤ 2 ^ g / 2 := by
    have hlow := hk.low
    have hhigh := hk.high
    rw [le_div_iff₀ hunit] at hlow
    rw [div_le_iff₀ hunit] at hhigh
    rw [abs_le]
    constructor <;> linarith
  simp only [pattern, infinityBits, leastExponent, fractionBits] at hplace hleast
  by_cases hcarried : k = 2 ^ 53
  · refine ⟨2 ^ 52, g + 1, g, ⟨by decide, by simp only [leastExponent]; omega, by omega,
      Or.inl le_rfl⟩, ?_, hg, ?_⟩
    · simp only [pattern, leastExponent, fractionBits, hcarried]
      omega
    · have hsame : ((2 ^ 52 : ℕ) : ℚ) * 2 ^ (g + 1) = k * 2 ^ g := by
        rw [hcarried, zpow_add_one₀ two_ne_zero]
        push_cast
        ring
      rwa [hsame]
  · have hgreatest : g ≤ 971 := by
      rcases hlarge with hnormal | hg
      · omega
      · rw [hg]
        decide
    exact ⟨k, g, g, ⟨by omega, hg.least, hgreatest, hlarge⟩, rfl, hg, hclose⟩

/-- A rational is off from another by a part of it at most. -/
structure Near (part v r : ℚ) : Prop where
  low : r * (1 - part) ≤ v
  high : v ≤ r * (1 + part)

theorem near_of_abs {part v r : ℚ} (h : |v - r| ≤ r * part) : Near part v r := by
  obtain ⟨hlow, hhigh⟩ := abs_le.mp h
  constructor <;> linarith

theorem near_self (r : ℚ) : Near 0 r r := ⟨by linarith, by linarith⟩

theorem Near.mono {a b v r : ℚ} (h : Near a v r) (hr : 0 ≤ r) (hle : a ≤ b) : Near b v r := by
  have := mul_le_mul_of_nonneg_left hle hr
  exact ⟨by linarith [h.low], by linarith [h.high]⟩

section Near

variable {a b v w r q : ℚ}

theorem Near.pos (h : Near a v r) (hr : 0 < r) (ha : a < 1) : 0 < v :=
  (mul_pos hr (sub_pos.mpr ha)).trans_le h.low

theorem Near.trans (hv : Near a v r) (hr : Near b r q) (hq : 0 ≤ q) (ha : 0 ≤ a) (ha' : a ≤ 1)
    (hb : 0 ≤ b) : Near (a + b + a * b) v q := by
  have hlow := mul_le_mul_of_nonneg_right hr.low (sub_nonneg.mpr ha')
  have hhigh := mul_le_mul_of_nonneg_right hr.high (by linarith : 0 ≤ 1 + a)
  have hab : 0 ≤ q * (a * b) := by positivity
  constructor
  · linarith [hv.low]
  · linarith [hv.high]

theorem Near.mul (hv : Near a v r) (hw : Near b w q) (hr : 0 < r) (hq : 0 < q) (ha : 0 ≤ a) (ha' : a < 1)
    (hb : 0 ≤ b) (hb' : b < 1) : Near (a + b + a * b) (v * w) (r * q) := by
  have hlowv : 0 < r * (1 - a) := mul_pos hr (by linarith)
  have hloww : 0 < q * (1 - b) := mul_pos hq (by linarith)
  have hab : 0 ≤ r * q * (a * b) := by positivity
  constructor
  · calc r * q * (1 - (a + b + a * b)) ≤ r * (1 - a) * (q * (1 - b)) := by linarith
      _ ≤ v * w := mul_le_mul hv.low hw.low hloww.le (hlowv.le.trans hv.low)
  · calc v * w ≤ r * (1 + a) * (q * (1 + b)) :=
          mul_le_mul hv.high hw.high (hloww.le.trans hw.low) (by positivity)
      _ = r * q * (1 + (a + b + a * b)) := by ring

theorem Near.div (hv : Near a v r) (hw : Near b w q) (hr : 0 < r) (hq : 0 < q) (ha : 0 ≤ a) (ha' : a < 1)
    (hb : 0 ≤ b) (hb' : b < 1) : Near ((a + b) / (1 - b)) (v / w) (r / q) := by
  have hlowv : 0 < r * (1 - a) := mul_pos hr (by linarith)
  have hloww : 0 < q * (1 - b) := mul_pos hq (by linarith)
  have hhighw : 0 < q * (1 + b) := by positivity
  have hwpos : 0 < w := hloww.trans_le hw.low
  have hone : 0 < 1 - b := by linarith
  constructor
  · have hpart : (a + b) / (1 + b) ≤ (a + b) / (1 - b) :=
      div_le_div_of_nonneg_left (by positivity) hone (by linarith)
    calc r / q * (1 - (a + b) / (1 - b)) ≤ r / q * (1 - (a + b) / (1 + b)) :=
          mul_le_mul_of_nonneg_left (by linarith) (by positivity)
      _ = r * (1 - a) / (q * (1 + b)) := by field_simp; ring
      _ ≤ v / w := div_le_div₀ (hlowv.le.trans hv.low) hv.low hwpos hw.high
  · calc v / w ≤ r * (1 + a) / (q * (1 - b)) := div_le_div₀ (by positivity) hv.high hloww hw.low
      _ = r / q * (1 + (a + b) / (1 - b)) := by field_simp; ring

end Near

/-- A double that is off from a positive rational by less than the whole of it is positive. -/
theorem Near.significand_pos {part r : ℚ} {s : ℕ} {e : ℤ} (h : Near part (s * 2 ^ e) r) (hr : 0 < r)
    (hpart : part < 1) : 0 < s :=
  Nat.cast_pos.mp (pos_of_mul_pos_left (h.pos hr hpart) (by positivity))

/-- **Above the subnormal numbers** rounding is off by one part in `2 ^ 53` at most. -/
theorem RoundsTo.exists_near {r : ℚ} {m : ℕ} (h : RoundsTo r m) (hm : m < infinityBits)
    (hr : 2 ^ (-1022 : ℤ) ≤ r) :
    ∃ s e, IsDouble s e ∧ 0 < s ∧ m = pattern s e ∧ Near (1 / 2 ^ 53) (s * 2 ^ e) r := by
  obtain ⟨s, e, g, hdouble, hplace, hg, hclose⟩ := h.exists_isDouble hm
  have hunit : (2 : ℚ) ^ g * 2 ^ 52 ≤ r := by
    rw [← zpow_natCast, ← zpow_add₀ two_ne_zero]
    refine hg.lower.elim id fun hleast => ?_
    rwa [hleast]
  have hhalf : (2 : ℚ) ^ g / 2 ≤ r / 2 ^ 53 := by
    rw [le_div_iff₀ (by positivity)]
    linarith
  have hnear : Near (1 / 2 ^ 53) ((s : ℚ) * 2 ^ e) r :=
    near_of_abs (by rw [mul_one_div]; exact hclose.trans hhalf)
  exact ⟨s, e, hdouble, hnear.significand_pos (lt_of_lt_of_le (by positivity) hr) (by norm_num), hplace,
    hnear⟩

/-- **Just below them** rounding goes to the unit of the least double, which is five such parts at most. -/
theorem RoundsTo.exists_near_subnormal {r : ℚ} {m : ℕ} (h : RoundsTo r m) (hm : m < infinityBits)
    (hlow : 4 / 5 * 2 ^ (-1024 : ℤ) ≤ r) (hhigh : r < 2 ^ (-1022 : ℤ)) :
    ∃ s e, IsDouble s e ∧ 0 < s ∧ m = pattern s e ∧ Near (5 / 2 ^ 53) (s * 2 ^ e) r := by
  obtain ⟨s, e, g, hdouble, hplace, hg, hclose⟩ := h.exists_isDouble hm
  have hgrid : g = leastExponent := by
    refine hg.lower.resolve_left fun hnormal => ?_
    have := (zpow_lt_zpow_iff_right₀ (by norm_num : (1 : ℚ) < 2)).mp (hnormal.trans_lt hhigh)
    have := hg.least
    simp only [leastExponent] at this
    omega
  have hunit : (2 : ℚ) ^ g / 2 = 2 ^ (-1024 : ℤ) * (4 / 2 ^ 53) := by
    rw [hgrid, leastExponent, show (-1074 : ℤ) = -1024 + -50 from rfl, zpow_add₀ two_ne_zero,
      mul_div_assoc]
    congr 1
    norm_num
  have hnear : Near (5 / 2 ^ 53) ((s : ℚ) * 2 ^ e) r := by
    refine near_of_abs (hclose.trans ?_)
    rw [hunit]
    linarith
  have hpos : 0 < r := lt_of_lt_of_le (by positivity) hlow
  exact ⟨s, e, hdouble, hnear.significand_pos hpos (by norm_num), hplace, hnear⟩

/-! ## Neighbours -/

/-- The places above a double are at least whole units apart. -/
theorem IsDouble.above {s : ℕ} {e : ℤ} (h : IsDouble s e) {j : ℕ} (hj : j ≤ 2 ^ 52)
    (hplace : pattern s e + j < infinityBits) :
    ∃ t d, IsDouble t d ∧ pattern t d = pattern s e + j ∧ (s + j : ℚ) * 2 ^ e ≤ t * 2 ^ d := by
  have hlt := h.lt
  have hleast := h.least
  have hgreatest := h.greatest
  by_cases hcarry : s + j < 2 ^ 53
  · refine ⟨s + j, e, ⟨hcarry, hleast, hgreatest, h.normal.imp_left (by omega)⟩, ?_, ?_⟩
    · simp only [pattern]
      omega
    · push_cast
      exact le_rfl
  · have hdouble : IsDouble (s + j - 2 ^ 52) (e + 1) := by
      simp only [pattern, infinityBits, leastExponent, fractionBits] at hplace hleast
      exact ⟨by omega, by simp only [leastExponent]; omega, by omega, Or.inl (by omega)⟩
    refine ⟨s + j - 2 ^ 52, e + 1, hdouble, ?_, ?_⟩
    · simp only [pattern, leastExponent, fractionBits] at hleast ⊢
      omega
    · rw [zpow_add_one₀ two_ne_zero, ← mul_assoc, mul_right_comm]
      refine mul_le_mul_of_nonneg_right ?_ (by positivity)
      have : s + j ≤ (s + j - 2 ^ 52) * 2 := by omega
      exact_mod_cast this

/-- The places below a double are at least half units apart, and whole units within its binade. -/
theorem IsDouble.below {s : ℕ} {e : ℤ} (h : IsDouble s e) {j : ℕ} (hj : j ≤ 2 ^ 50)
    (hplace : j < pattern s e) :
    ∃ t d, IsDouble t d ∧ 0 < t ∧ pattern t d = pattern s e - j ∧
      (t : ℚ) * 2 ^ d ≤ (s - (if e = leastExponent ∨ 2 ^ 52 + j ≤ s then j else j / 2 : ℚ)) * 2 ^ e := by
  have hlt := h.lt
  have hleast := h.least
  split_ifs with hbinade
  · have hjs : j < s := by
      rcases hbinade with rfl | hlarge
      · simpa [pattern] using hplace
      · omega
    refine ⟨s - j, e, ⟨by omega, hleast, h.greatest, hbinade.symm.imp_left (by omega)⟩, by omega,
      ?_, ?_⟩
    · simp only [pattern]
      omega
    · rw [Nat.cast_sub hjs.le]
  · obtain ⟨hmore, hsmall⟩ := not_or.mp hbinade
    have hnormal := h.normal.resolve_right hmore
    have hgreatest := h.greatest
    refine ⟨2 ^ 52 + s - j, e - 1, ⟨by omega, by omega, by omega, Or.inl (by omega)⟩, by omega,
      ?_, ?_⟩
    · simp only [pattern, leastExponent, fractionBits] at hleast hmore ⊢
      omega
    · have hunit : (2 : ℚ) ^ e = 2 * 2 ^ (e - 1) := by
        rw [← zpow_one_add₀ two_ne_zero]
        congr 1
        omega
      rw [hunit, ← mul_assoc]
      refine mul_le_mul_of_nonneg_right ?_ (by positivity)
      have hnormalq : (2 : ℚ) ^ 52 ≤ s := by exact_mod_cast hnormal
      rw [Nat.cast_sub (by omega)]
      push_cast
      linarith

/-- **A rational within four units of a double** is rounded to one of its neighbours, four places away
at most.  Near the lower end of a binade the units below are halves. -/
theorem RoundsTo.near {s : ℕ} {e : ℤ} (h : IsDouble s e) {q : ℚ} {m : ℕ} (hm : RoundsTo (q * 2 ^ e) m)
    (hhigh : q ≤ s + 4) (hlow : s - 4 ≤ q)
    (hbinade : leastExponent < e → s < 2 ^ 52 + 4 → (s : ℚ) - 2 ≤ q) :
    m ≤ pattern s e + 4 ∧ pattern s e ≤ m + 4 := by
  have hunit : (0 : ℚ) < 2 ^ e := by positivity
  constructor
  · by_cases hplace : pattern s e + 4 < infinityBits
    · obtain ⟨t, d, hdouble, hpattern, hvalue⟩ := h.above (j := 4) (by decide) hplace
      rw [← hpattern]
      refine hm.mono (hdouble.roundsTo (Nat.pos_of_ne_zero fun hzero => ?_)) ?_
      · rw [hzero, Nat.cast_zero, zero_mul] at hvalue
        have : (0 : ℚ) < (s + (4 : ℕ)) * 2 ^ e := by positivity
        linarith
      · refine le_trans (mul_le_mul_of_nonneg_right ?_ hunit.le) hvalue
        exact_mod_cast hhigh
    · exact hm.le.trans (not_lt.mp hplace)
  · by_cases hplace : 4 < pattern s e
    · obtain ⟨t, d, hdouble, htpos, hpattern, hvalue⟩ := h.below (j := 4) (by decide) hplace
      have hle := (hdouble.roundsTo htpos).mono hm (hvalue.trans (mul_le_mul_of_nonneg_right ?_ hunit.le))
      · omega
      · split_ifs with hcase
        · exact_mod_cast hlow
        · obtain ⟨hmore, hsmall⟩ := not_or.mp hcase
          have := hbinade (lt_of_le_of_ne h.least (Ne.symm hmore)) (by omega)
          push_cast
          linarith
    · omega

/-- What is off from a point of the interval by a small part is still within four units. -/
theorem Near.neighbours {s : ℕ} {e : ℤ} (h : IsDouble s e) (hs : 0 < s) {part r t : ℚ} {m : ℕ}
    (hr : (Interval.around s e).Holds r) (hnear : Near part t r) (hm : RoundsTo t m)
    (hpart : 0 ≤ part) (hpart' : part ≤ 1) (hfar : (s + 1 / 2) * part ≤ 7 / 2)
    (hbinade : leastExponent < e → s < 2 ^ 52 + 4 → (s + 1 / 2) * part ≤ 3 / 2) :
    m ≤ pattern s e + 4 ∧ pattern s e ≤ m + 4 := by
  have hunit : (0 : ℚ) < 2 ^ e := by positivity
  obtain ⟨q, rfl⟩ : ∃ q, t = q * 2 ^ e := ⟨t / 2 ^ e, (div_mul_cancel₀ _ hunit.ne').symm⟩
  obtain ⟨hlow, hhigh⟩ := hr.half hs
  have habove : q ≤ (s + 1 / 2) * (1 + part) := by
    refine le_of_mul_le_mul_right ?_ hunit
    calc q * 2 ^ e ≤ r * (1 + part) := hnear.high
      _ ≤ (s + 1 / 2) * 2 ^ e * (1 + part) := mul_le_mul_of_nonneg_right hhigh (by linarith)
      _ = (s + 1 / 2) * (1 + part) * 2 ^ e := by ring
  have hbelow : (s - 1 / 2) * (1 - part) ≤ q := by
    refine le_of_mul_le_mul_right ?_ hunit
    calc (s - 1 / 2) * (1 - part) * 2 ^ e = (s - 1 / 2) * 2 ^ e * (1 - part) := by ring
      _ ≤ r * (1 - part) := mul_le_mul_of_nonneg_right hlow (by linarith)
      _ ≤ q * 2 ^ e := hnear.low
  refine hm.near h (by linarith) (by linarith) fun hmore hsmall => ?_
  have := hbinade hmore hsmall
  linarith

/-! ## Exact values -/

/-- A product of a number of 53 bits and a power of two is a double. -/
theorem exists_isDouble_eq {a : ℕ} {b : ℤ} (ha : 0 < a) (hlt : a < 2 ^ 53) (hlow : leastExponent ≤ b)
    (hhigh : b ≤ 971) : ∃ s e, IsDouble s e ∧ 0 < s ∧ (s : ℚ) * 2 ^ e = a * 2 ^ b := by
  have hlog : a.log2 ≤ 52 := Nat.le_of_lt_succ ((Nat.log2_lt ha.ne').mpr hlt)
  -- The digits are moved to the left, as far as the least exponent allows.
  generalize hshift : min (52 - a.log2) (b - leastExponent).toNat = shift
  have hlower : 2 ^ (a.log2 + shift) ≤ a * 2 ^ shift := by
    rw [Nat.pow_add]
    exact Nat.mul_le_mul_right _ (Nat.log2_self_le ha.ne')
  have hupper : a * 2 ^ shift < 2 ^ (a.log2 + 1 + shift) := by
    rw [Nat.pow_add]
    exact Nat.mul_lt_mul_of_pos_right Nat.lt_log2_self (Nat.pow_pos two_pos)
  refine ⟨a * 2 ^ shift, b - shift, ⟨?_, by omega, by omega, ?_⟩, ?_, ?_⟩
  · exact hupper.trans_le (Nat.pow_le_pow_right two_pos (by omega))
  · rcases Nat.le_total (52 - a.log2) (b - leastExponent).toNat with hfull | hpart
    · left
      refine le_trans (Nat.pow_le_pow_right two_pos ?_) hlower
      omega
    · right
      omega
  · exact Nat.mul_pos ha (Nat.pow_pos two_pos)
  · rw [zpow_sub₀ two_ne_zero, zpow_natCast]
    push_cast
    field_simp

end Piecework.Number
