/-
# Piecework.Proofs.Json.Float — what a double becomes on its way through JSON.

A double is written with the fewest digits that stand for it, and read as a word that is scaled by a power
of ten.  The way there is exact and the way back is rounded in steps, so a finite double arrives as
`carried` says (`Codec.carries_float`): with its sign, finite, and four places away at most
(`exists_carried`), and as itself when its decimal is short (`carried_eq_of_isShort`).
-/
import Piecework.Proofs.Json.Number
import Piecework.Proofs.Json.Scale

namespace Piecework.Json

open Number

/-! ## Decimals of doubles -/

/-- The word and the power of ten as which the text of a magnitude is read.  A whole number without an
exponent has a zero behind its point, which goes into the word too. -/
def spelled (significand : ℕ) (exponent : ℤ) : ℕ × ℤ :=
  if significand = 0 then (0, -1)
  else
    let (digits, power) := shortest .even significand exponent
    let leading := power + ((decimal digits).length - 1 : ℕ)
    if numberLayout.isPositional leading = true ∧ 0 ≤ power then (digits * 10 ^ (power.toNat + 1), -1)
    else (digits, power)

/-- What a double becomes when it is written as JSON and read again. -/
def carried (x : Float) : Float :=
  match meaning x with
  | .finite negative significand exponent =>
    let (word, power) := spelled significand exponent
    if negative then -scaled word power else scaled word power
  | _ => x

/-- The decimal of a double is short: its word has 53 bits, and its power of ten is a double too. -/
def IsShort (x : Float) : Prop :=
  ∃ negative significand exponent, meaning x = .finite negative significand exponent ∧
    (spelled significand exponent).1 < 2 ^ 53 ∧ (spelled significand exponent).2.natAbs ≤ 22

section Positive

variable {s : ℕ} {e : ℤ}

/-- A whole number below `1e16` has room for one more zero. -/
theorem mul_pow_lt {digits : ℕ} {power : ℤ} (hup : 0 ≤ power)
    (hpositional : numberLayout.isPositional (power + ((decimal digits).length - 1 : ℕ)) = true) :
    digits * 10 ^ (power.toNat + 1) < 2 ^ 58 := by
  have hleading : power + ((decimal digits).length - 1 : ℕ) < 16 := by
    simp only [Layout.isPositional, numberLayout, Bool.and_eq_true, decide_eq_true_eq] at hpositional
    exact hpositional.2
  have hdigits := (length_decimal_le_iff (length_decimal_pos digits)).mp le_rfl
  calc digits * 10 ^ (power.toNat + 1)
      < 10 ^ (decimal digits).length * 10 ^ (power.toNat + 1) :=
        Nat.mul_lt_mul_of_pos_right hdigits (by positivity)
    _ = 10 ^ ((decimal digits).length + (power.toNat + 1)) := (Nat.pow_add _ _ _).symm
    _ ≤ 10 ^ 17 := Nat.pow_le_pow_right (by decide) (by omega)
    _ < 2 ^ 58 := by decide

/-- **The decimal of a double** leads back to it. -/
theorem stands_spelled (h : IsDouble s e) (hs : 0 < s) :
    Stands (spelled s e).1 (spelled s e).2 s e := by
  obtain ⟨digits, power, hshortest, hpos, hlt, hlow, hhigh, hholds⟩ := exists_shortest .even h hs
  simp only [spelled, hs.ne', if_false, hshortest]
  split_ifs with hcase
  · refine ⟨Nat.mul_pos hpos (by positivity), mul_pow_lt hcase.2 hcase.1, ?_, ?_, ?_⟩
    · change (-346 : ℤ) ≤ -1
      decide
    · change (-1 : ℤ) ≤ 308
      decide
    have hsame : ((digits * 10 ^ (power.toNat + 1) : ℕ) : ℚ) * 10 ^ (-1 : ℤ) = digits * 10 ^ power := by
      have hpower : (10 : ℚ) ^ power = 10 ^ power.toNat := by
        rw [← zpow_natCast, Int.toNat_of_nonneg hcase.2]
      rw [hpower, zpow_neg_one]
      push_cast
      field_simp
      ring
    rw [hsame]
    exact hholds
  · exact ⟨hpos, hlt, hlow, hhigh, hholds⟩

/-! ## Reading what was written -/

variable (negative : Bool) {rest : List Char}

theorem readUnsigned_zero (hrest : IsBoundary rest) :
    readUnsigned negative (numberLayout.magnitude 0 e ++ rest) = assemble negative 0 (-1) rest :=
  readUnsigned_places negative (isWhole_decimal 0) ['0'] (List.forall_mem_singleton.mpr rfl) (by simp) rfl
    (by decide) hrest

/-- **The text of a magnitude** is read as its word and its power of ten. -/
theorem readUnsigned_magnitude (h : IsDouble s e) (hs : 0 < s) (hrest : IsBoundary rest) :
    readUnsigned negative (numberLayout.magnitude s e ++ rest)
      = assemble negative (spelled s e).1 (spelled s e).2 rest := by
  obtain ⟨digits, power, hshortest, hpos, hlt, hlow, hhigh, -⟩ := exists_shortest .even h hs
  have htie : numberLayout.tie = .even := rfl
  have hmarks : numberLayout.pointZero = true ∧ numberLayout.exponentPlus = true := ⟨rfl, rfl⟩
  simp only [spelled, Layout.magnitude, hs.ne', if_false, htie, hshortest, hmarks]
  generalize hleading : power + (((decimal digits).length - 1 : ℕ) : ℤ) = leading
  by_cases hpositional : numberLayout.isPositional leading = true
  · have hroom : (if 0 ≤ power then digits * 10 ^ (power.toNat + 1) else digits) < 2 ^ 64 := by
      split_ifs with hup
      · exact (mul_pow_lt hup (hleading ▸ hpositional)).trans (by decide)
      · exact hlt.trans (by decide)
    have hread := readUnsigned_positional negative hpos hroom hrest
    simp only [hpositional, if_true, true_and]
    rw [hread]
    split_ifs <;> rfl
  · simp only [hpositional, Bool.false_eq_true, if_false, false_and]
    have hlength : (decimal digits).length ≤ 58 :=
      (length_decimal_le_iff (by decide)).mpr (hlt.trans_le (by decide))
    exact readUnsigned_scientific negative hpos (hlt.trans (by decide)) hleading.symm (by omega) hrest

end Positive

/-! ## What arrives -/

/-- The four largest doubles stay finite, which their distance to infinity does not tell by itself. -/
theorem isFinite_scaled_largest :
    ∀ i < 4, isFinite (scaled (spelled (2 ^ 53 - 1 - i) 971).1 (spelled (2 ^ 53 - 1 - i) 971).2) = true := by
  decide +kernel

/-- Zero is read as zero. -/
theorem scaled_spelled_zero :
    scaled (spelled 0 leastExponent).1 (spelled 0 leastExponent).2 = double false 0 := by
  decide +kernel

/-- **The decimal of a double** is read as a finite neighbour, four places away at most. -/
theorem exists_scaled_spelled {s : ℕ} {e : ℤ} (h : IsDouble s e) :
    ∃ m, scaled (spelled s e).1 (spelled s e).2 = double false m ∧ m < infinityBits ∧
      m ≤ pattern s e + 4 ∧ pattern s e ≤ m + 4 := by
  rcases Nat.eq_zero_or_pos s with rfl | hs
  · have he : e = leastExponent := h.normal.resolve_left (by decide)
    subst he
    exact ⟨0, scaled_spelled_zero, by decide, by decide, by decide⟩
  obtain ⟨m, hscaled, hle, hhigh, hlow⟩ := (stands_spelled h hs).exists_scaled h hs
  refine ⟨m, hscaled, ?_, hhigh, hlow⟩
  by_cases hplace : pattern s e + 4 < infinityBits
  · exact hhigh.trans_lt hplace
  · have hlt := h.lt
    have hgreatest := h.greatest
    have hleast := h.least
    simp only [pattern, infinityBits, leastExponent, fractionBits] at hplace hleast
    have hlargest := isFinite_scaled_largest (2 ^ 53 - 1 - s) (by omega)
    rw [show 2 ^ 53 - 1 - (2 ^ 53 - 1 - s) = s by omega, show 971 = e by omega, hscaled] at hlargest
    refine lt_of_le_of_ne hle fun hinfinite => ?_
    rw [hinfinite] at hlargest
    exact absurd hlargest (by decide +kernel)

/-- **What arrives** for a finite double is finite, has its sign, and is four places away at most. -/
theorem exists_carried {x : Float} (h : isFinite x = true) :
    ∃ negative m n, x = double negative m ∧ carried x = double negative n ∧ m < infinityBits ∧
      n < infinityBits ∧ n ≤ m + 4 ∧ m ≤ n + 4 := by
  rw [isFinite] at h
  split at h
  case h_1 negative s e hmeaning =>
    obtain ⟨hdouble, hx⟩ := eq_double_of_meaning hmeaning
    obtain ⟨n, hscaled, hfinite, hhigh, hlow⟩ := exists_scaled_spelled hdouble
    refine ⟨negative, pattern s e, n, hx, ?_, hdouble.pattern_lt, hfinite, hhigh, hlow⟩
    simp only [carried, hmeaning, hscaled]
    cases negative with
    | false => rfl
    | true => exact neg_double false hfinite
  case h_2 => cases h

/-- **A double with a short decimal arrives as itself.** -/
theorem carried_eq_of_isShort {x : Float} (h : IsShort x) : carried x = x := by
  obtain ⟨negative, s, e, hmeaning, hword, hpower⟩ := h
  obtain ⟨hdouble, hx⟩ := eq_double_of_meaning hmeaning
  have hscaled : scaled (spelled s e).1 (spelled s e).2 = double false (pattern s e) := by
    rcases Nat.eq_zero_or_pos s with rfl | hs
    · have he : e = leastExponent := hdouble.normal.resolve_left (by decide)
      subst he
      exact scaled_spelled_zero
    · exact (stands_spelled hdouble hs).scaled_eq_of_short hdouble hs hword hpower
  simp only [carried, hmeaning, hscaled]
  rw [hx]
  cases negative with
  | false => rfl
  | true => exact neg_double false hdouble.pattern_lt

/-! ## The codec -/

theorem assemble_eq (negative : Bool) {s : ℕ} {e : ℤ} (h : IsDouble s e) (rest : List Char) :
    assemble negative (spelled s e).1 (spelled s e).2 rest
      = .ok (.float (if negative then -scaled (spelled s e).1 (spelled s e).2
          else scaled (spelled s e).1 (spelled s e).2), rest) := by
  have hscale : scale 5 (ofDecimal false (spelled s e).1 0) (spelled s e).2
      = some (scaled (spelled s e).1 (spelled s e).2) := by
    rcases Nat.eq_zero_or_pos s with rfl | hs
    · rfl
    · have hstands := stands_spelled h hs
      refine scale_eq hstands.pos (hstands.lt.trans (by decide)) hstands.low hstands.high fun _ => ?_
      obtain ⟨m, hscaled, hfinite, -, -⟩ := exists_scaled_spelled h
      rw [hscaled]
      exact isFinite_double false hfinite
  rw [assemble, hscale]

/-- What is read as a number starts with a digit. -/
theorem exists_isDigit_of_readUnsigned {negative : Bool} {text : List Char} {n : Numeral × List Char}
    (h : readUnsigned negative text = .ok n) : ∃ c rest, text = c :: rest ∧ c.isDigit = true := by
  cases text with
  | nil => cases h
  | cons c rest =>
    refine ⟨c, rest, rfl, ?_⟩
    by_contra hdigit
    have hzero : c ≠ '0' := by
      rintro rfl
      exact hdigit (by decide)
    simp [readUnsigned, hzero, hdigit] at h

/-- The text of a magnitude is read as `scaled` says, and it starts with a digit. -/
theorem readUnsigned_layout (negative : Bool) {s : ℕ} {e : ℤ} (h : IsDouble s e) {rest : List Char}
    (hrest : IsBoundary rest) :
    readUnsigned negative (numberLayout.magnitude s e ++ rest)
      = .ok (.float (if negative then -scaled (spelled s e).1 (spelled s e).2
          else scaled (spelled s e).1 (spelled s e).2), rest) := by
  rw [← assemble_eq negative h rest]
  rcases Nat.eq_zero_or_pos s with rfl | hs
  · exact readUnsigned_zero negative hrest
  · exact readUnsigned_magnitude negative h hs hrest

/-- The text of a finite double is read as what it is carried as, and it starts like a number. -/
theorem readNumber_writeFloat {x : Float} (h : isFinite x = true) {rest : List Char}
    (hrest : IsBoundary rest) :
    ∃ c text, writeFloat x ++ rest = c :: text ∧ startsNumber c = true ∧
      readNumber (c :: text) = .ok (.float (carried x), rest) := by
  rw [isFinite] at h
  split at h
  case h_1 negative s e hmeaning =>
    obtain ⟨hdouble, -⟩ := eq_double_of_meaning hmeaning
    have hread := readUnsigned_layout negative hdouble hrest
    simp only [writeFloat, Layout.characters, carried, hmeaning]
    cases negative with
    | false =>
      obtain ⟨c, text, htext, hdigit⟩ := exists_isDigit_of_readUnsigned hread
      refine ⟨c, text, htext, by simp [startsNumber, hdigit], ?_⟩
      rw [readNumber_of_isDigit hdigit, ← htext, hread]
    | true => exact ⟨'-', _, rfl, by decide, hread⟩
  case h_2 => cases h

/-- **A finite double is carried** through JSON, as what `carried` says. -/
theorem Codec.carries_float {x : Float} (h : isFinite x = true) : Codec.float.Carries x (carried x) := by
  intro rest hrest
  obtain ⟨c, text, htext, hstart, hread⟩ := readNumber_writeFloat h hrest
  simp only [Codec.float]
  rw [htext]
  exact readFitting_of_startsNumber "f64" hstart hread rfl

theorem isPresent_writeFloat {x : Float} (h : isFinite x = true) : IsPresent (writeFloat x) := by
  obtain ⟨c, text, htext, hstart, -⟩ := @readNumber_writeFloat x h [] trivial
  rw [List.append_nil] at htext
  refine ⟨c, text, htext, isSpace_of_startsNumber hstart, ?_⟩
  rintro rfl
  exact absurd hstart (by decide)

/-! ## Doubles that arrive as they are -/

/-- The double arrives as it is: its text is read back as itself. -/
def IsExact (x : Float) : Prop := Codec.float.decode (Codec.float.encode x) = .ok x

/-- What is not finite is written as `null`, and `null` is no double. -/
theorem IsExact.isFinite {x : Float} (h : IsExact x) : Number.isFinite x = true := by
  by_contra hnot
  have hnull : writeFloat x = "null".toList := by
    cases hmeaning : meaning x with
    | nan => simp only [writeFloat, Layout.characters, hmeaning, numberLayout]
    | infinite negative => cases negative <;> simp only [writeFloat, Layout.characters, hmeaning, numberLayout]
    | finite negative significand exponent => simp [Number.isFinite, hmeaning] at hnot
  have hrefused : ∃ fault, Codec.float.decode "null" = .error fault := ⟨_, rfl⟩
  obtain ⟨fault, hfault⟩ := hrefused
  have hencode : Codec.float.encode x = "null" := congrArg String.ofList hnull
  rw [IsExact, hencode, hfault] at h
  cases h

theorem IsExact.carried_eq {x : Float} (h : IsExact x) : carried x = x :=
  Except.ok.inj ((Codec.carries_float h.isFinite).decode.symm.trans h)

theorem Codec.carries_exact {x : Float} (h : IsExact x) : Codec.float.Carries x x := by
  have hcarries := Codec.carries_float h.isFinite
  rwa [h.carried_eq] at hcarries

/-- A result that may be absent arrives as it is. -/
theorem Codec.carries_exact_option {r : Option Float} (h : ∀ x, r = Option.some x → IsExact x) :
    Codec.float.option.Carries r r :=
  Codec.carries_option fun x hx => ⟨Codec.carries_exact (h x hx), isPresent_writeFloat (h x hx).isFinite⟩

end Piecework.Json
