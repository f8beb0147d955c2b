/-
# Piecework.Proofs.Json.Scale — words that are scaled by powers of ten.

Reading a number makes a double of its word and a double of its power of ten, and multiplies or divides
them.  Each of the steps may round.  When both doubles are exact the result is rounded once, and so it is
the nearest double (`scaled_eq`); in general the roundings add up to less than four units
(`exists_scaled`).
-/
import Piecework.Json.Number
import Piecework.Proofs.Number.Error
import Piecework.Proofs.Number.Product
import Piecework.Proofs.Number.Shortest

namespace Piecework.Json

open Number

/-- The double made of a word and a power of ten: from a power below `-308` on, in two steps. -/
def scaled (word : ℕ) (power : ℤ) : Float :=
  let f := ofDecimal false word 0
  if 0 ≤ power then f * powerOfTen power.toNat
  else if -308 ≤ power then f / powerOfTen (-power).toNat
  else f / powerOfTen 308 / powerOfTen (-power - 308).toNat

/-! ## Words and powers of ten as doubles -/

theorem ten_pow_lt : (10 : ℚ) ^ 308 < (2 ^ 54 - 1) * 2 ^ (970 : ℤ) := by
  have hsplit : ((2 : ℚ) ^ 93) ^ 11 = 2 ^ 53 * 2 ^ (970 : ℤ) := by
    rw [← pow_mul, show (970 : ℤ) = (970 : ℕ) from rfl, zpow_natCast, ← pow_add]
  calc (10 : ℚ) ^ 308 = (10 ^ 28) ^ 11 := pow_mul 10 28 11
    _ ≤ (101 / 100 * 2 ^ 93) ^ 11 := pow_le_pow_left₀ (by positivity) (by norm_num) 11
    _ = (101 / 100) ^ 11 * 2 ^ 53 * 2 ^ (970 : ℤ) := by rw [mul_pow, hsplit, mul_assoc]
    _ < (2 ^ 54 - 1) * 2 ^ (970 : ℤ) := mul_lt_mul_of_pos_right (by norm_num) (by positivity)

/-- A decimal of moderate size is a double, off by one part in `2 ^ 53` at most, and not at all where the
decimal is a double itself. -/
theorem exists_hasValue {digits : ℕ} {exponent : ℤ} (hpos : 0 < digits)
    (hexponent : -400 ≤ exponent + (digits.log2 : ℤ) * 30103 / 100000 ∧
      exponent + (digits.log2 : ℤ) * 30103 / 100000 ≤ 400)
    (hlow : 1 ≤ (digits : ℚ) * 10 ^ exponent)
    (hhigh : (digits : ℚ) * 10 ^ exponent < (2 ^ 54 - 1) * 2 ^ (970 : ℤ)) :
    ∃ v, HasValue (ofDecimal false digits exponent) v ∧ Near (1 / 2 ^ 53) v (digits * 10 ^ exponent) ∧
      ((∃ s e, IsDouble s e ∧ 0 < s ∧ (s : ℚ) * 2 ^ e = digits * 10 ^ exponent) →
        v = digits * 10 ^ exponent) := by
  have hrpos : 0 < (digits : ℚ) * 10 ^ exponent := one_pos.trans_le hlow
  by_cases hexact : ∃ s e, IsDouble s e ∧ 0 < s ∧ (s : ℚ) * 2 ^ e = digits * 10 ^ exponent
  · obtain ⟨s, e, hdouble, hs, heq⟩ := hexact
    have hround := hdouble.roundsTo hs
    rw [heq] at hround
    rw [ofDecimal_eq false hpos hexponent.2 hexponent.1 hround, ← heq]
    exact ⟨_, hasValue_double hdouble hs, (near_self _).mono (by positivity) (by norm_num), fun _ => rfl⟩
  · obtain ⟨m, hm⟩ := exists_roundsTo hrpos
    have hnormal : (2 : ℚ) ^ (-1022 : ℤ) ≤ digits * 10 ^ exponent :=
      le_trans (zpow_le_one_of_nonpos₀ (by norm_num) (by norm_num)) hlow
    obtain ⟨s, e, hdouble, hs, rfl, hnear⟩ := hm.exists_near (hm.lt_infinity hhigh) hnormal
    rw [ofDecimal_eq false hpos hexponent.2 hexponent.1 hm]
    exact ⟨_, hasValue_double hdouble hs, hnear, fun h => absurd h hexact⟩

/-- **A word** as a double. -/
theorem exists_hasValue_word {word : ℕ} (hpos : 0 < word) (hlt : word < 2 ^ 64) :
    ∃ v, HasValue (ofDecimal false word 0) v ∧ Near (1 / 2 ^ 53) v word ∧
      (word < 2 ^ 53 → v = word) := by
  have hlog : word.log2 < 64 := (Nat.log2_lt hpos.ne').mpr hlt
  have hone : (1 : ℚ) ≤ word := by exact_mod_cast hpos
  have hltq : (word : ℚ) < 2 ^ 64 := by exact_mod_cast hlt
  have hself : (word : ℚ) * 10 ^ (0 : ℤ) = word := by rw [zpow_zero, mul_one]
  have hsmall : (2 : ℚ) ^ 64 < 10 ^ 308 := by
    calc (2 : ℚ) ^ 64 < 10 ^ 20 := by norm_num
      _ ≤ 10 ^ 308 := pow_le_pow_right₀ (by norm_num) (by decide)
  obtain ⟨v, hvalue, hnear, hexact⟩ := @exists_hasValue word 0 hpos (by omega)
    (hone.trans_eq hself.symm) (hself.trans_lt ((hltq.trans hsmall).trans ten_pow_lt))
  rw [hself] at hnear hexact
  refine ⟨v, hvalue, hnear, fun hshort => hexact ?_⟩
  obtain ⟨s, e, hdouble, hs, heq⟩ := exists_isDouble_eq (b := 0) hpos hshort (by decide) (by decide)
  exact ⟨s, e, hdouble, hs, by rw [heq, zpow_zero, mul_one]⟩

/-- **A power of ten** as a double. -/
theorem exists_hasValue_powerOfTen {n : ℕ} (h : n ≤ 308) :
    ∃ v, HasValue (powerOfTen n) v ∧ Near (1 / 2 ^ 53) v (10 ^ n) ∧ (n ≤ 22 → v = 10 ^ n) := by
  have hself : ((1 : ℕ) : ℚ) * 10 ^ (n : ℤ) = 10 ^ n := by rw [Nat.cast_one, one_mul, zpow_natCast]
  have hlog : Nat.log2 1 = 0 := by decide
  obtain ⟨v, hvalue, hnear, hexact⟩ := @exists_hasValue 1 n one_pos
    (by rw [hlog]; omega) (by rw [hself]; exact one_le_pow₀ (by norm_num))
    (by rw [hself]; exact (pow_le_pow_right₀ (by norm_num) h).trans_lt ten_pow_lt)
  rw [hself] at hnear hexact
  refine ⟨v, hvalue, hnear, fun hshort => hexact ?_⟩
  -- The odd part of the power is a power of five, and it has 53 bits up to here.
  have hfive : 5 ^ n < 2 ^ 53 := (Nat.pow_le_pow_right (by decide) hshort).trans_lt (by decide)
  obtain ⟨s, e, hdouble, hs, heq⟩ := exists_isDouble_eq (b := n) (Nat.pow_pos (by decide)) hfive
    (by simp only [leastExponent]; omega) (by omega)
  refine ⟨s, e, hdouble, hs, ?_⟩
  rw [heq, zpow_natCast, Nat.cast_pow, ← mul_pow]
  norm_num

/-- The largest power of ten that is formed is closer than others are. -/
theorem exists_hasValue_last : ∃ v, HasValue (powerOfTen 308) v ∧ Near (1 / 2 ^ 56) v (10 ^ 308) := by
  have hdouble : IsDouble 5010420900022432 971 := ⟨by decide, by decide, by decide, Or.inl (by decide)⟩
  have hpower : powerOfTen 308 = double false (pattern 5010420900022432 971) := by decide +kernel
  have hten : (10 : ℚ) ^ 308 = (10 ^ 44) ^ 7 := pow_mul 10 44 7
  have htwo : (2 : ℚ) ^ (971 : ℤ) = 2 * (2 ^ 97) ^ 10 := by
    rw [← pow_mul, ← pow_succ', show (971 : ℤ) = (971 : ℕ) from rfl, zpow_natCast]
  refine ⟨_, hpower ▸ hasValue_double hdouble (by decide), ?_⟩
  rw [hten, htwo]
  constructor <;> norm_num

/-! ## The scaling that reading does -/

/-- **Reading scales a word** as `scaled` says, when the product does not leave the doubles. -/
theorem scale_eq {word : ℕ} (hpos : 0 < word) (hlt : word < 2 ^ 64) {power : ℤ} (hlow : -346 ≤ power)
    (hhigh : power ≤ 308) (hfinite : 0 ≤ power → isFinite (scaled word power) = true) :
    scale 5 (ofDecimal false word 0) power = some (scaled word power) := by
  simp only [scaled] at hfinite ⊢
  by_cases hup : 0 ≤ power
  · have hfinite := hfinite hup
    rw [if_pos hup] at hfinite ⊢
    rw [scale, if_pos (by omega), if_pos hup]
    simp only [hfinite, if_true]
  rw [if_neg hup]
  by_cases hone : -308 ≤ power
  · rw [if_pos hone, scale, if_pos (by omega), if_neg hup, show power.natAbs = (-power).toNat by omega]
  · obtain ⟨v, hvalue, -, -⟩ := exists_hasValue_word hpos hlt
    rw [if_neg hone, scale, if_neg (by omega), hvalue.beq_zero, if_neg Bool.false_ne_true, if_neg hup,
      scale, if_pos (by omega), if_neg (by omega),
      show (power + 308).natAbs = (-power - 308).toNat by omega]

/-! ## How far off it is -/

section Scaled

variable {word : ℕ} {power : ℤ}

/-- The exact value that is rounded at the end, how far it is from the decimal, and the result. -/
structure Scales (word : ℕ) (power : ℤ) (part t : ℚ) (m : ℕ) : Prop where
  eq : scaled word power = double false m
  rounds : RoundsTo t m
  near : Near part t (word * 10 ^ power)

/-- A product with a power of ten is a product or a quotient. -/
theorem mul_ten_zpow (r : ℚ) (power : ℤ) :
    r * 10 ^ power = if 0 ≤ power then r * 10 ^ power.natAbs else r / 10 ^ power.natAbs := by
  split_ifs with hup
  · rw [← zpow_natCast, show (power.natAbs : ℤ) = power by omega]
  · rw [div_eq_mul_inv, ← zpow_natCast, ← zpow_neg, show -(power.natAbs : ℤ) = power by omega]

/-- In one step the product or the quotient of the two doubles is rounded. -/
theorem scaled_eq (hpower : power.natAbs ≤ 308) {v w : ℚ} {m : ℕ}
    (hvalue : HasValue (ofDecimal false word 0) v) (hten : HasValue (powerOfTen power.natAbs) w)
    (hm : RoundsTo (if 0 ≤ power then v * w else v / w) m) : scaled word power = double false m := by
  rw [scaled]
  split_ifs at hm ⊢ with hup hone
  · rw [show power.toNat = power.natAbs by omega]
    exact mul_eq hvalue hten hm
  · rw [show (-power).toNat = power.natAbs by omega]
    exact div_eq hvalue hten hm
  · omega

/-- **With an exact word and an exact power** there is only the last rounding. -/
theorem exists_scales_exact (hpos : 0 < word) (hword : word < 2 ^ 53) (hpower : power.natAbs ≤ 22) :
    ∃ m, Scales word power 0 (word * 10 ^ power) m := by
  obtain ⟨v, hvalue, -, hexact⟩ := exists_hasValue_word hpos (hword.trans (by decide))
  obtain ⟨w, hten, -, hexact'⟩ := exists_hasValue_powerOfTen (hpower.trans (by decide))
  rw [hexact hword] at hvalue
  rw [hexact' hpower] at hten
  have hpositive : (0 : ℚ) < word * 10 ^ power := mul_pos (by exact_mod_cast hpos) (by positivity)
  obtain ⟨m, hm⟩ := exists_roundsTo hpositive
  exact ⟨m, scaled_eq (hpower.trans (by decide)) hvalue hten (mul_ten_zpow word power ▸ hm), hm,
    near_self _⟩

/-- A product or a quotient is rounded from a value that two roundings have moved. -/
theorem exists_scales_one (hpos : 0 < word) (hlt : word < 2 ^ 64) (hpower : power.natAbs ≤ 308) :
    ∃ t m, Scales word power ((2 + 1 / 64) / 2 ^ 53) t m := by
  obtain ⟨v, hvalue, hnear, -⟩ := exists_hasValue_word hpos hlt
  obtain ⟨w, hten, hnear', -⟩ := exists_hasValue_powerOfTen hpower
  have hwordpos : (0 : ℚ) < word := by exact_mod_cast hpos
  have htenpos : (0 : ℚ) < 10 ^ power.natAbs := by positivity
  have hpositive : 0 < if 0 ≤ power then v * w else v / w := by
    split_ifs
    · exact mul_pos hvalue.pos hten.pos
    · exact div_pos hvalue.pos hten.pos
  obtain ⟨m, hm⟩ := exists_roundsTo hpositive
  refine ⟨_, m, scaled_eq hpower hvalue hten hm, hm, ?_⟩
  rw [mul_ten_zpow]
  split_ifs
  · exact (hnear.mul hnear' hwordpos htenpos (by norm_num) (by norm_num) (by norm_num)
      (by norm_num)).mono (by positivity) (by norm_num)
  · exact (hnear.div hnear' hwordpos htenpos (by norm_num) (by norm_num) (by norm_num)
      (by norm_num)).mono (by positivity) (by norm_num)

/-- A word over the largest power of ten is at most one, and not far below the normal numbers. -/
theorem div_ten_pow_bounds (hpos : 0 < word) (hlt : word < 2 ^ 64) :
    (2 : ℚ) ^ (-1024 : ℤ) ≤ word / 10 ^ 308 ∧ (word : ℚ) / 10 ^ 308 ≤ 1 := by
  have htenpos : (0 : ℚ) < 10 ^ 308 := by positivity
  constructor
  · rw [le_div_iff₀ htenpos, zpow_neg, inv_mul_le_iff₀ (by positivity)]
    calc (10 : ℚ) ^ 308 = 10 ^ (308 : ℤ) := (zpow_natCast 10 308).symm
      _ ≤ 2 ^ (1024 : ℤ) := ten_zpow_le_two_zpow (by decide) (by decide)
      _ ≤ 2 ^ (1024 : ℤ) * word := le_mul_of_one_le_right (by positivity) (by exact_mod_cast hpos)
  · rw [div_le_one htenpos]
    calc (word : ℚ) ≤ 2 ^ 64 := by exact_mod_cast hlt.le
      _ ≤ 10 ^ 20 := by norm_num
      _ ≤ 10 ^ 308 := pow_le_pow_right₀ (by norm_num) (by decide)

/-- The first of two quotients is off by two roundings, or by more where it is subnormal. -/
theorem exists_hasValue_quotient (hpos : 0 < word) (hlt : word < 2 ^ 64) :
    ∃ v, HasValue (ofDecimal false word 0 / powerOfTen 308) v ∧
      (Near (9 / 4 / 2 ^ 53) v (word / 10 ^ 308) ∨
        Near (25 / 4 / 2 ^ 53) v (word / 10 ^ 308) ∧ (word : ℚ) / 10 ^ 308 < 2 ^ (-1021 : ℤ)) := by
  obtain ⟨v, hvalue, hnear, -⟩ := exists_hasValue_word hpos hlt
  obtain ⟨w, hten, hnear'⟩ := exists_hasValue_last
  obtain ⟨hleast, hone⟩ := div_ten_pow_bounds hpos hlt
  have hdiv : Near (19 / 16 / 2 ^ 53) (v / w) (word / 10 ^ 308) :=
    (hnear.div hnear' (by exact_mod_cast hpos) (by positivity) (by norm_num) (by norm_num) (by norm_num)
      (by norm_num)).mono (by positivity) (by norm_num)
  have hratiopos : (0 : ℚ) < word / 10 ^ 308 := lt_of_lt_of_le (by positivity) hleast
  generalize (word : ℚ) / 10 ^ 308 = ratio at hdiv hone hleast hratiopos ⊢
  obtain ⟨m, hm⟩ := exists_roundsTo (div_pos hvalue.pos hten.pos)
  have hfinite : m < infinityBits := by
    refine hm.lt_infinity ?_
    calc v / w ≤ 2 * 1 := by linarith [hdiv.high]
      _ < (2 ^ 54 - 1) * 2 ^ (970 : ℤ) :=
        mul_lt_mul (by norm_num) (one_le_zpow₀ (by norm_num) (by norm_num)) one_pos (by norm_num)
  rw [div_eq hvalue hten hm]
  -- The error of the second rounding comes on top of those that are in the quotient.
  have hboth {part part' u : ℚ} (hround : Near part u (v / w)) (hpart : 0 ≤ part) (hpart' : part ≤ 1)
      (hle : part + 19 / 16 / 2 ^ 53 + part * (19 / 16 / 2 ^ 53) ≤ part') : Near part' u ratio :=
    (hround.trans hdiv hratiopos.le hpart hpart' (by norm_num)).mono hratiopos.le hle
  rcases le_or_gt (2 ^ (-1022 : ℤ)) (v / w) with hnormal | hsubnormal
  · obtain ⟨s, e, hdouble, hs, rfl, hround⟩ := hm.exists_near hfinite hnormal
    exact ⟨_, hasValue_double hdouble hs, Or.inl (hboth hround (by norm_num) (by norm_num) (by norm_num))⟩
  · obtain ⟨s, e, hdouble, hs, rfl, hround⟩ :=
      hm.exists_near_subnormal hfinite (by linarith [hdiv.low]) hsubnormal
    have htwice : (2 : ℚ) ^ (-1021 : ℤ) = 2 * 2 ^ (-1022 : ℤ) := by
      rw [show (-1021 : ℤ) = 1 + -1022 from rfl, zpow_one_add₀ two_ne_zero]
    refine ⟨_, hasValue_double hdouble hs, Or.inr ⟨hboth hround (by norm_num) (by norm_num) (by norm_num), ?_⟩⟩
    linarith [hdiv.low]

/-- A power of ten beyond the last one is taken in two steps. -/
theorem mul_ten_zpow_two (r : ℚ) (n : ℕ) : r * 10 ^ (-308 - n : ℤ) = r / 10 ^ 308 / 10 ^ n := by
  rw [zpow_sub₀ (by norm_num), zpow_natCast, zpow_neg, show (308 : ℤ) = (308 : ℕ) from rfl, zpow_natCast,
    ← mul_div_assoc, ← div_eq_mul_inv]

/-- Where the second power of ten is not exact, the decimal is far below the normal numbers. -/
theorem mul_ten_zpow_lt (hlt : word < 2 ^ 58) (hpower : power < -330) :
    (word : ℚ) * 10 ^ power < 2 ^ (-1024 : ℤ) := by
  have hten : (10 : ℚ) ^ power ≤ 2 ^ (-1082 : ℤ) := by
    calc (10 : ℚ) ^ power ≤ 10 ^ (-331 : ℤ) := zpow_le_zpow_right₀ (by norm_num) (by omega)
      _ ≤ 2 ^ (-1082 : ℤ) := ten_zpow_le_two_zpow (by decide) (by decide)
  calc (word : ℚ) * 10 ^ power < 2 ^ (58 : ℤ) * 10 ^ power :=
        mul_lt_mul_of_pos_right (by exact_mod_cast hlt) (by positivity)
    _ ≤ 2 ^ (58 : ℤ) * 2 ^ (-1082 : ℤ) := mul_le_mul_of_nonneg_left hten (by positivity)
    _ = 2 ^ (-1024 : ℤ) := (zpow_add₀ two_ne_zero 58 (-1082)).symm

/-- **In two steps** the value that is rounded at the end is off by three roundings at most, unless it is
far below the normal numbers. -/
theorem exists_scales_two (hpos : 0 < word) (hlt : word < 2 ^ 58) (hlow : -346 ≤ power)
    (hhigh : power < -308) :
    ∃ part t m, Scales word power part t m ∧ 0 ≤ part ∧ (part ≤ 5 / 2 / 2 ^ 53 ∨
      part ≤ 15 / 2 / 2 ^ 53 ∧ (word : ℚ) * 10 ^ power < 2 ^ (-1024 : ℤ)) := by
  obtain ⟨n, rfl⟩ : ∃ n : ℕ, power = -308 - n := ⟨(-power - 308).toNat, by omega⟩
  obtain ⟨v, hvalue, hfirst⟩ := exists_hasValue_quotient hpos (hlt.trans (by decide))
  obtain ⟨w, hten, hnear, hexact⟩ := @exists_hasValue_powerOfTen n (by omega)
  obtain ⟨m, hm⟩ := exists_roundsTo (div_pos hvalue.pos hten.pos)
  have hresult : scaled word (-308 - n) = double false m := by
    rw [scaled, if_neg (by omega), if_neg (by omega), show (-(-308 - n : ℤ) - 308).toNat = n by omega]
    exact div_eq hvalue hten hm
  have hsmall := @mul_ten_zpow_lt word (-308 - n) hlt
  have hsplit := mul_ten_zpow_two word n
  have hratiopos : (0 : ℚ) < word / 10 ^ 308 := div_pos (by exact_mod_cast hpos) (by positivity)
  have htenpos : (0 : ℚ) < 10 ^ n := by positivity
  have hten' : (10 : ℚ) ≤ 10 ^ n := le_self_pow₀ (by norm_num) (by omega)
  rw [hsplit] at hsmall ⊢
  generalize (word : ℚ) / 10 ^ 308 = ratio at hfirst hratiopos hsplit hsmall ⊢
  generalize (10 : ℚ) ^ n = step at hnear hexact htenpos hten' hsplit hsmall ⊢
  have hscales {part : ℚ} (h : Near part (v / w) (ratio / step)) :
      Scales word (-308 - n) part (v / w) m := ⟨hresult, hm, hsplit ▸ h⟩
  rcases hfirst with hfirst | ⟨hfirst, hlast⟩
  · by_cases hshort : n ≤ 22
    · rw [hexact hshort] at hscales
      have hdiv := hfirst.div (near_self step) hratiopos htenpos (by norm_num) (by norm_num) le_rfl
        one_pos
      exact ⟨_, _, m, hscales hdiv, by norm_num, Or.inl (by norm_num)⟩
    · have hdiv := hfirst.div hnear hratiopos htenpos (by norm_num) (by norm_num) (by norm_num)
        (by norm_num)
      exact ⟨_, _, m, hscales hdiv, by norm_num, Or.inr ⟨by norm_num, hsmall (by omega)⟩⟩
  · have hdiv := hfirst.div hnear hratiopos htenpos (by norm_num) (by norm_num) (by norm_num)
      (by norm_num)
    refine ⟨_, _, m, hscales hdiv, by norm_num, Or.inr ⟨by norm_num, ?_⟩⟩
    have height : (2 : ℚ) ^ (-1021 : ℤ) = 2 ^ (-1024 : ℤ) * 8 := by
      rw [show (-1021 : ℤ) = -1024 + 3 from rfl, zpow_add₀ two_ne_zero]
      norm_num
    rw [div_lt_iff₀ htenpos]
    calc ratio < 2 ^ (-1024 : ℤ) * 8 := height ▸ hlast
      _ ≤ 2 ^ (-1024 : ℤ) * step := mul_le_mul_of_nonneg_left (by linarith) (by positivity)

/-! ## Near the double -/

/-- A decimal that stands for a double: a word, a power of ten, and that they lead back. -/
structure Stands (word : ℕ) (power : ℤ) (s : ℕ) (e : ℤ) : Prop where
  pos : 0 < word
  lt : word < 2 ^ 58
  low : -346 ≤ power
  high : power ≤ 308
  holds : (Interval.around s e).Holds (word * 10 ^ power)

variable {s : ℕ} {e : ℤ}

/-- **Short decimals** lead back to the double. -/
theorem Stands.scaled_eq_of_short (h : Stands word power s e) (hdouble : IsDouble s e) (hs : 0 < s)
    (hword : word < 2 ^ 53) (hpower : power.natAbs ≤ 22) :
    scaled word power = double false (pattern s e) := by
  obtain ⟨m, hscales⟩ := exists_scales_exact h.pos hword hpower
  rw [hscales.eq, hscales.rounds.unique (h.holds.roundsTo hdouble hs)]

/-- **Other decimals** lead to a neighbour of the double, four places away at most, or to infinity. -/
theorem Stands.exists_scaled (h : Stands word power s e) (hdouble : IsDouble s e) (hs : 0 < s) :
    ∃ m, scaled word power = double false m ∧ m ≤ infinityBits ∧ m ≤ pattern s e + 4 ∧
      pattern s e ≤ m + 4 := by
  have hslt : (s : ℚ) + 1 ≤ 2 ^ 53 := by exact_mod_cast hdouble.lt
  by_cases hone : -308 ≤ power
  · have hhigh := h.high
    obtain ⟨t, m, hscales⟩ := exists_scales_one h.pos (h.lt.trans (by decide))
      (show power.natAbs ≤ 308 by omega)
    refine ⟨m, hscales.eq, hscales.rounds.le, ?_⟩
    refine hscales.near.neighbours hdouble hs h.holds hscales.rounds (by norm_num) (by norm_num) ?_ ?_
    · linarith
    · intro _ hsmall
      have hsmallq : (s : ℚ) < 2 ^ 52 + 4 := by exact_mod_cast hsmall
      linarith
  · obtain ⟨part, t, m, hscales, hpart, hbound⟩ := exists_scales_two h.pos h.lt h.low (by omega)
    refine ⟨m, hscales.eq, hscales.rounds.le, ?_⟩
    have hwide : (0 : ℚ) ≤ s + 1 / 2 := by positivity
    rcases hbound with hbound | ⟨hbound, hsmall⟩
    · have hfar := mul_le_mul_of_nonneg_left hbound hwide
      refine hscales.near.neighbours hdouble hs h.holds hscales.rounds hpart (by linarith) (by linarith) ?_
      intro _ hlow
      have hlowq : (s : ℚ) < 2 ^ 52 + 4 := by exact_mod_cast hlow
      linarith
    · -- So far down the significand is short.
      have hfar := mul_le_mul_of_nonneg_left hbound hwide
      have hshort : (s : ℚ) - 1 / 2 < 2 ^ 50 := by
        have hunit : (0 : ℚ) < 2 ^ leastExponent := by positivity
        refine lt_of_mul_lt_mul_right ?_ hunit.le
        calc ((s : ℚ) - 1 / 2) * 2 ^ leastExponent ≤ (s - 1 / 2) * 2 ^ e := by
              refine mul_le_mul_of_nonneg_left (zpow_le_zpow_right₀ (by norm_num) hdouble.least) ?_
              have : (1 : ℚ) ≤ s := by exact_mod_cast hs
              linarith
          _ ≤ word * 10 ^ power := (h.holds.half hs).1
          _ < 2 ^ (-1024 : ℤ) := hsmall
          _ = 2 ^ 50 * 2 ^ leastExponent := by
              rw [leastExponent, show (-1024 : ℤ) = (50 : ℕ) + -1074 from rfl,
                zpow_add₀ two_ne_zero, zpow_natCast]
      exact hscales.near.neighbours hdouble hs h.holds hscales.rounds hpart (by linarith) (by linarith)
        fun _ _ => by linarith

end Scaled

end Piecework.Json
