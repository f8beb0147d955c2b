/-
# Piecework.Proofs.Json.Finite — what is read as a number is finite.

Between the digits and the double nothing can become infinite without being seen.  The word that collects the
digits has 64 bits and is finite; a product with a power of ten is checked, and a number that leaves the
doubles there is refused; a quotient by a power of ten is no larger than what is divided
(`IsMagnitude.div_powerOfTen`).  So every number that is read is finite (`isFinite_of_readNumber`), whatever
the text.
-/
import Piecework.Proofs.Json.Scale

namespace Piecework.Json

open Number

/-! ## Magnitudes -/

/-- A finite double without a sign, zero included. -/
def IsMagnitude (f : Float) : Prop := ∃ m < infinityBits, f = double false m

theorem IsMagnitude.isFinite {f : Float} (h : IsMagnitude f) : Number.isFinite f = true := by
  obtain ⟨m, hm, rfl⟩ := h
  exact isFinite_double false hm

/-- The opposite of a finite double is finite. -/
theorem isFinite_neg {x : Float} (h : isFinite x = true) : isFinite (-x) = true := by
  rw [isFinite] at h
  split at h
  case h_1 negative s e hmeaning =>
    obtain ⟨hdouble, rfl⟩ := eq_double_of_meaning hmeaning
    rw [neg_double negative hdouble.pattern_lt]
    exact isFinite_double _ hdouble.pattern_lt
  case h_2 => cases h

/-- A word is a finite double, whatever its sign. -/
theorem exists_ofDecimal_word (negative : Bool) {word : ℕ} (h : word < 2 ^ 64) :
    ∃ m < infinityBits, ofDecimal negative word 0 = double negative m := by
  rcases Nat.eq_zero_or_pos word with rfl | hpos
  · exact ⟨0, by decide, by cases negative <;> rfl⟩
  · have hlog : word.log2 < 64 := (Nat.log2_lt hpos.ne').mpr h
    have hself : (word : ℚ) * 10 ^ (0 : ℤ) = word := by rw [zpow_zero, mul_one]
    have hltq : (word : ℚ) < 2 ^ 64 := by exact_mod_cast h
    obtain ⟨m, hm⟩ := exists_roundsTo (show (0 : ℚ) < word * 10 ^ (0 : ℤ) by
      rw [hself]
      exact_mod_cast hpos)
    refine ⟨m, hm.lt_infinity ?_, ofDecimal_eq negative hpos (by omega) (by omega) hm⟩
    calc (word : ℚ) * 10 ^ (0 : ℤ) < 2 ^ 64 := hself.trans_lt hltq
      _ ≤ 10 ^ 308 := by
        calc (2 : ℚ) ^ 64 ≤ 10 ^ 20 := by norm_num
          _ ≤ 10 ^ 308 := pow_le_pow_right₀ (by norm_num) (by decide)
      _ ≤ (2 ^ 54 - 1) * 2 ^ (970 : ℤ) := ten_pow_lt.le

theorem isMagnitude_word {word : ℕ} (h : word < 2 ^ 64) : IsMagnitude (ofDecimal false word 0) :=
  exists_ofDecimal_word false h

/-! ## Quotients -/

/-- The powers of ten that are formed are not below one. -/
theorem one_le_powerOfTen {n : ℕ} (h : n ≤ 308) : ∃ w, HasValue (powerOfTen n) w ∧ 1 ≤ w := by
  obtain ⟨w, hvalue, hnear, hexact⟩ := exists_hasValue_powerOfTen h
  refine ⟨w, hvalue, ?_⟩
  by_cases hshort : n ≤ 22
  · rw [hexact hshort]
    exact one_le_pow₀ (by norm_num)
  · calc (1 : ℚ) ≤ 10 * (1 - 1 / 2 ^ 53) := by norm_num
      _ ≤ 10 ^ n * (1 - 1 / 2 ^ 53) :=
        mul_le_mul_of_nonneg_right (le_self_pow₀ (by norm_num) (by omega)) (by norm_num)
      _ ≤ w := hnear.low

/-- Nothing becomes infinite by a division by a power of ten. -/
theorem IsMagnitude.div_powerOfTen {f : Float} (h : IsMagnitude f) {n : ℕ} (hn : n ≤ 308) :
    IsMagnitude (f / powerOfTen n) := by
  obtain ⟨m, hm, rfl⟩ := h
  obtain ⟨w, hten, hone⟩ := one_le_powerOfTen hn
  rcases Nat.eq_zero_or_pos m with rfl | hpos
  · obtain ⟨t, e, hdouble, ht, -, hpower⟩ := hten.holds
    refine ⟨0, by decide, ?_⟩
    rw [hpower]
    refine ofModel_pack_eq (by decide) ?_
    rw [unpack_toModel_double false hdouble ht]
    rfl
  · obtain ⟨s, e, hdouble, hs, rfl⟩ := exists_isDouble hpos hm
    have hvalue := hasValue_double hdouble hs
    obtain ⟨k, hk⟩ := exists_roundsTo (div_pos hvalue.pos hten.pos)
    refine ⟨k, hk.lt_infinity ?_, div_eq hvalue hten hk⟩
    have hslt : (s : ℚ) ≤ 2 ^ 53 - 1 := by
      have : (s : ℚ) + 1 ≤ 2 ^ 53 := by exact_mod_cast hdouble.lt
      linarith
    calc (s : ℚ) * 2 ^ e / w ≤ s * 2 ^ e := div_le_self hvalue.pos.le hone
      _ ≤ (2 ^ 53 - 1) * 2 ^ (971 : ℤ) := by
        refine mul_le_mul hslt (zpow_le_zpow_right₀ (by norm_num) hdouble.greatest) (by positivity) ?_
        norm_num
      _ < (2 ^ 54 - 1) * 2 ^ (970 : ℤ) := by
        rw [show (971 : ℤ) = 1 + 970 from rfl, zpow_one_add₀ two_ne_zero, ← mul_assoc]
        exact mul_lt_mul_of_pos_right (by norm_num) (by positivity)

/-- What scaling comes to is finite. -/
theorem isFinite_of_scale {f g : Float} {exponent : ℤ} :
    ∀ fuel : ℕ, IsMagnitude f → scale fuel f exponent = some g → isFinite g = true := by
  intro fuel
  induction fuel generalizing f exponent with
  | zero =>
    intro hf h
    obtain rfl := Option.some.inj h
    exact hf.isFinite
  | succ fuel ih =>
    intro hf h
    unfold scale at h
    dsimp only at h
    split_ifs at h with hstep hup hfinite hzero
    · obtain rfl := Option.some.inj h
      exact hfinite
    · obtain rfl := Option.some.inj h
      exact (hf.div_powerOfTen hstep).isFinite
    · obtain rfl := Option.some.inj h
      exact hf.isFinite
    · exact ih (hf.div_powerOfTen le_rfl) h

/-! ## Numbers from their texts -/

/-- Whatever number comes of it is finite. -/
def FindsFinite (reading : Reading Numeral) : Prop :=
  ∀ n rest, reading = .ok (n, rest) → isFinite n.toFloat = true

theorem findsFinite_error (fault : Fault) : FindsFinite (.error fault) := fun _ _ h => by cases h

theorem findsFinite_ok {n : Numeral} (h : isFinite n.toFloat = true) (rest : List Char) :
    FindsFinite (.ok (n, rest)) := by
  rintro n' rest' h'
  obtain ⟨rfl, rfl⟩ := Prod.mk.inj (Except.ok.inj h')
  exact h

section Words

variable (negative : Bool) {word : ℕ}

theorem findsFinite_assemble (h : word < 2 ^ 64) (exponent : ℤ) (rest : List Char) :
    FindsFinite (assemble negative word exponent rest) := by
  unfold assemble
  cases hscale : scale 5 (ofDecimal false word 0) exponent with
  | none => exact findsFinite_error _
  | some f =>
    have hf := isFinite_of_scale 5 (isMagnitude_word h) hscale
    refine findsFinite_ok ?_ rest
    cases negative with
    | false => exact hf
    | true => exact isFinite_neg hf

/-- An exponent that is out of all bounds leads to a fault or to zero. -/
theorem findsFinite_readScaled (h : word < 2 ^ 64) (start : ℤ) (text : List Char) :
    FindsFinite (readScaled negative word start text) := by
  unfold readScaled
  rcases splitSign text with ⟨down, _ | ⟨c, rest⟩⟩
  · exact findsFinite_error _
  · dsimp only
    by_cases hdigit : c.isDigit = true
    · rw [if_pos hdigit]
      rcases exponentDigits (digitValue c) rest with ⟨_ | n, tail⟩
      · dsimp only
        split_ifs
        · exact findsFinite_error _
        · exact findsFinite_ok (by decide) _
        · exact findsFinite_ok (by decide) _
      · exact findsFinite_assemble negative h _ _
    · rw [if_neg hdigit]
      exact findsFinite_error _

theorem findsFinite_finishNumber (h : word < 2 ^ 64) (exponent : ℤ) (text : List Char) :
    FindsFinite (finishNumber negative word exponent text) := by
  unfold finishNumber
  split
  · split_ifs
    · exact findsFinite_readScaled negative h _ _
    · exact findsFinite_assemble negative h _ _
  · exact findsFinite_assemble negative h _ _

/-- A digit goes into the word only if the word has room for it. -/
theorem word_lt_of_not_overflows {digit : ℕ} (h : overflows word digit = false) :
    word * 10 + digit < 2 ^ 64 := by
  simpa [overflows] using h

theorem findsFinite_readPlaces (text : List Char) :
    ∀ {word : ℕ}, word < 2 ^ 64 → ∀ (exponent : ℤ) (any : Bool),
      FindsFinite (readPlaces negative word exponent any text) := by
  induction text with
  | nil =>
    intro word h exponent any
    unfold readPlaces
    split_ifs
    · exact findsFinite_finishNumber negative h _ _
    · exact findsFinite_error _
  | cons c rest ih =>
    intro word h exponent any
    unfold readPlaces
    split_ifs with hdigit hfull hany
    · exact findsFinite_finishNumber negative h _ _
    · exact ih (word_lt_of_not_overflows (Bool.eq_false_iff.mpr hfull)) _ _
    · exact findsFinite_finishNumber negative h _ _
    · exact findsFinite_error _

theorem findsFinite_readTail (h : word < 2 ^ 64) (exponent : ℤ) (text : List Char) :
    FindsFinite (readTail negative word exponent text) := by
  unfold readTail
  split
  · exact findsFinite_readPlaces negative _ h _ _
  · exact findsFinite_finishNumber negative h _ _

/-- Without a point and an exponent the word itself is the number. -/
theorem findsFinite_finishInteger (h : word < 2 ^ 64) (text : List Char) :
    FindsFinite (finishInteger negative word text) := by
  have hinteger : ∀ value : ℤ, value.natAbs = word → isFinite (Numeral.integer value).toFloat = true := by
    rintro value hvalue
    obtain ⟨m, hm, heq⟩ := exists_ofDecimal_word (decide (value < 0)) h
    rw [Numeral.toFloat, hvalue, heq]
    exact isFinite_double _ hm
  have hzero : isFinite (Numeral.float (-(ofDecimal false word 0))).toFloat = true :=
    isFinite_neg (isMagnitude_word h).isFinite
  have hwhole : FindsFinite (if ¬negative then .ok (.integer word, text)
      else if word = 0 ∨ 2 ^ 63 < word then .ok (.float (-(ofDecimal false word 0)), text)
      else .ok (.integer (-word), text)) := by
    by_cases hnegative : ¬negative = true
    · rw [if_pos hnegative]
      exact findsFinite_ok (hinteger _ (Int.natAbs_natCast word)) text
    · rw [if_neg hnegative]
      by_cases hfits : word = 0 ∨ 2 ^ 63 < word
      · rw [if_pos hfits]
        exact findsFinite_ok hzero text
      · rw [if_neg hfits]
        exact findsFinite_ok (hinteger _ (by simp)) text
  unfold finishInteger
  rcases text with _ | ⟨c, rest⟩
  · exact hwhole
  · dsimp only
    by_cases hmore : c = '.' ∨ c = 'e' ∨ c = 'E'
    · rw [if_pos hmore]
      exact findsFinite_readTail negative h _ _
    · rw [if_neg hmore]
      exact hwhole

theorem findsFinite_readWhole (text : List Char) :
    ∀ {word : ℕ}, word < 2 ^ 64 → FindsFinite (readWhole negative word text) := by
  induction text with
  | nil =>
    intro word h
    exact findsFinite_finishInteger negative h _
  | cons c rest ih =>
    intro word h
    unfold readWhole
    split_ifs with hdigit hfull
    · exact findsFinite_readTail negative h _ _
    · exact ih (word_lt_of_not_overflows (Bool.eq_false_iff.mpr hfull))
    · exact findsFinite_finishInteger negative h _

end Words

theorem digitValue_lt (c : Char) : digitValue c < 2 ^ 64 :=
  (Nat.sub_le _ _).trans_lt (c.val.toNat_lt.trans (by decide))

theorem findsFinite_readUnsigned (negative : Bool) (text : List Char) :
    FindsFinite (readUnsigned negative text) := by
  unfold readUnsigned
  rcases text with _ | ⟨c, rest⟩
  · exact findsFinite_error _
  · dsimp only
    split_ifs with hzero hdigit
    · rcases rest with _ | ⟨d, tail⟩
      · exact findsFinite_finishInteger negative (by decide) _
      · dsimp only
        split_ifs
        · exact findsFinite_error _
        · exact findsFinite_finishInteger negative (by decide) _
    · exact findsFinite_readWhole negative _ (digitValue_lt c)
    · exact findsFinite_error _

/-- **A number that is read is finite.** -/
theorem isFinite_of_readNumber {text rest : List Char} {n : Numeral} (h : readNumber text = .ok (n, rest)) :
    isFinite n.toFloat = true := by
  unfold readNumber at h
  split at h
  · exact findsFinite_readUnsigned true _ n rest h
  · exact findsFinite_readUnsigned false _ n rest h

end Piecework.Json
