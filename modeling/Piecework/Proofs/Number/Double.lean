/-
# Piecework.Proofs.Number.Double — doubles as signs and magnitudes.

A double that is a number is its sign and the place of its magnitude (`double`).  The arithmetic of the
core library unpacks the pattern into sign, significand and exponent, computes, and packs the result
again; packing and unpacking are inverse on the pairs of `IsDouble` (`toNat_pack_finite`,
`unpack_signed`).
-/
import Mathlib
import Piecework.Proofs.Number.Rounding

namespace Piecework.Number

open Float.Model (UnpackedFloat Format)
open Float.Model.Format (binary64)
open Float.Model.UnpackedFloat

/-! ## The three fields of a pattern -/

/-- The sign of the core library. -/
def signOf (negative : Bool) : Sign := if negative then .negative else .positive

/-- A magnitude with a sign. -/
def signed (negative : Bool) (magnitude : ℕ) : ℕ := (if negative then 2 ^ 63 else 0) + magnitude

theorem signed_lt {negative : Bool} {magnitude : ℕ} (h : magnitude ≤ infinityBits) :
    signed negative magnitude < 2 ^ 64 := by
  simp only [infinityBits, fractionBits] at h
  simp only [signed]
  split <;> omega

theorem toNat_unpackMantissa (b : BitVec 64) :
    (@unpackMantissa binary64 b).toNat = b.toNat % 2 ^ 52 := by
  simp [unpackMantissa, BitVec.extractLsb]

theorem toNat_unpackExponent (b : BitVec 64) :
    (@unpackExponent binary64 b).toNat = b.toNat / 2 ^ 52 % 2 ^ 11 := by
  simp [unpackExponent, BitVec.extractLsb, Nat.shiftRight_eq_div_pow]

theorem toNat_unpackSign (b : BitVec 64) :
    (@unpackSign binary64 b).toNat = b.toNat / 2 ^ 63 := by
  have := b.isLt
  simp [unpackSign, BitVec.extractLsb, Nat.shiftRight_eq_div_pow]
  omega

theorem toNat_packComponents (negative : Bool) (e : BitVec 11) (m : BitVec 52) :
    (packComponents binary64 (signOf negative) e m).toNat
      = signed negative (e.toNat * 2 ^ 52 + m.toNat) := by
  have he := e.isLt
  have hm := m.isLt
  have hsign : (signOf negative).toBitVec.toNat = if negative then 1 else 0 := by
    cases negative <;> rfl
  rw [packComponents, BitVec.toNat_append, BitVec.toNat_append, hsign,
    ← Nat.shiftLeft_add_eq_or_of_lt hm, ← Nat.shiftLeft_add_eq_or_of_lt he, Nat.shiftLeft_eq,
    Nat.shiftLeft_eq, signed]
  split <;> omega

/-- The sign, the exponent field and the fraction of a magnitude with a sign. -/
theorem fields_signed (negative : Bool) {field fraction : ℕ} (hfield : field < 2 ^ 11)
    (hfraction : fraction < 2 ^ 52) :
    Sign.ofBitVec (@unpackSign binary64 (.ofNat 64 (signed negative (field * 2 ^ 52 + fraction))))
        = signOf negative ∧
      @unpackExponent binary64 (.ofNat 64 (signed negative (field * 2 ^ 52 + fraction)))
        = .ofNat 11 field ∧
      @unpackMantissa binary64 (.ofNat 64 (signed negative (field * 2 ^ 52 + fraction)))
        = .ofNat 52 fraction := by
  have hword : (BitVec.ofNat 64 (signed negative (field * 2 ^ 52 + fraction))).toNat
      = signed negative (field * 2 ^ 52 + fraction) := by
    rw [BitVec.toNat_ofNat, Nat.mod_eq_of_lt]
    simp only [signed]
    split <;> omega
  refine ⟨?_, ?_, ?_⟩
  · have hsign : @unpackSign binary64 (.ofNat 64 (signed negative (field * 2 ^ 52 + fraction)))
        = .ofNat 1 (if negative then 1 else 0) := by
      apply BitVec.eq_of_toNat_eq
      rw [toNat_unpackSign, hword, signed]
      cases negative <;> simp <;> omega
    rw [hsign]
    cases negative <;> rfl
  · apply BitVec.eq_of_toNat_eq
    rw [toNat_unpackExponent, hword, signed, BitVec.toNat_ofNat]
    cases negative <;> simp <;> omega
  · apply BitVec.eq_of_toNat_eq
    rw [toNat_unpackMantissa, hword, signed, BitVec.toNat_ofNat]
    cases negative with
    | false => simp
    | true => simp; omega

/-! ## Packing and unpacking -/

/-- A pair of `IsDouble` is normal, with a field that is the exponent and a fraction without the leading
bit, or it is subnormal, with an empty field. -/
theorem IsDouble.cases {s : ℕ} {e : ℤ} (h : IsDouble s e) :
    (∃ field fraction, 0 < field ∧ field < 2047 ∧ fraction < 2 ^ 52 ∧ s = 2 ^ 52 + fraction ∧
        e = leastExponent + (field - 1 : ℕ) ∧ pattern s e = field * 2 ^ 52 + fraction) ∨
      s < 2 ^ 52 ∧ e = leastExponent ∧ pattern s e = 0 * 2 ^ 52 + s := by
  have hlt := h.lt
  have hleast := h.least
  have hgreatest := h.greatest
  simp only [leastExponent] at hleast
  by_cases hs : 2 ^ 52 ≤ s
  · left
    refine ⟨(e + 1075).toNat, s - 2 ^ 52, by omega, by omega, by omega, by omega, ?_, ?_⟩
    · simp only [leastExponent]
      omega
    · simp only [pattern, leastExponent, fractionBits]
      omega
  · right
    have he := h.normal.resolve_left hs
    refine ⟨by omega, he, ?_⟩
    simp [pattern, he]

theorem toNat_ofNat_of_lt {w n : ℕ} (h : n < 2 ^ w) : (BitVec.ofNat w n).toNat = n := by
  rw [BitVec.toNat_ofNat, Nat.mod_eq_of_lt h]

/-- The pattern of a finite magnitude. -/
theorem toNat_pack_finite (negative : Bool) {s : ℕ} {e : ℤ} (h : IsDouble s e) (hs : 0 < s) :
    (pack binary64 (.finite (signOf negative) s e hs)).toNat = signed negative (pattern s e) := by
  rcases h.cases with ⟨field, fraction, hpos, hfield, hfraction, hsum, he, hpattern⟩ |
    ⟨hlt, he, hpattern⟩
  · have hlog : s.log2 + 1 = binary64.mantissaBits := by
      rw [(Nat.log2_eq_iff hs.ne').mpr (⟨by omega, by omega⟩ : 2 ^ 52 ≤ s ∧ s < 2 ^ 53)]
      rfl
    have hbiased : (e + binary64.exponentBias + binary64.mantissaBitsWithoutImplicit).toNat
        = field := by
      simp only [he, leastExponent, Format.exponentBias]
      omega
    have hsmall : ¬ 2 ^ binary64.exponentBits ≤ field + 1 := by
      simp only
      omega
    have hrest : (BitVec.ofNat 52 s).toNat = fraction := by
      rw [BitVec.toNat_ofNat, hsum, Nat.add_mod_left, Nat.mod_eq_of_lt hfraction]
    rw [pack]
    simp only [hbiased]
    rw [if_neg hsmall, if_pos hlog, toNat_packComponents, hpattern, hrest,
      toNat_ofNat_of_lt (by omega)]
  · have hlog : ¬ s.log2 + 1 = binary64.mantissaBits := by
      have := (Nat.log2_lt hs.ne').mpr hlt
      simp only [Format.mantissaBits]
      omega
    have hbiased : (e + binary64.exponentBias + binary64.mantissaBitsWithoutImplicit).toNat
        = 1 := by
      rw [he]
      rfl
    rw [pack]
    simp only [hbiased]
    rw [if_neg (by decide), if_neg hlog, toNat_packComponents, hpattern, toNat_ofNat_of_lt hlt]
    rfl

theorem ofNat_ne_neg_one {field : ℕ} (h : field < 2047) : BitVec.ofNat 11 field ≠ -1#11 := by
  intro heq
  have := congrArg BitVec.toNat heq
  rw [toNat_ofNat_of_lt (by omega)] at this
  simp at this
  omega

theorem ofNat_ne_zero {w n : ℕ} (hn : 0 < n) (h : n < 2 ^ w) : BitVec.ofNat w n ≠ 0#w := by
  intro heq
  have := congrArg BitVec.toNat heq
  rw [toNat_ofNat_of_lt h] at this
  simp at this
  omega

/-- A pattern is unpacked into the significand and the exponent that it was made of. -/
theorem unpack_signed (negative : Bool) {s : ℕ} {e : ℤ} (h : IsDouble s e) (hs : 0 < s) :
    unpack binary64 (.ofNat 64 (signed negative (pattern s e))) = .finite (signOf negative) s e hs := by
  rcases h.cases with ⟨field, fraction, hpos, hfield, hfraction, hsum, he, hpattern⟩ |
    ⟨hlt, he, hpattern⟩
  · obtain ⟨hsign, hexponent, hmantissa⟩ := fields_signed negative (show field < 2 ^ 11 by omega)
      hfraction
    have hbits : (1#1 ++ BitVec.ofNat 52 fraction).toNat = s := by
      rw [BitVec.toNat_append, ← Nat.shiftLeft_add_eq_or_of_lt (BitVec.isLt _),
        toNat_ofNat_of_lt hfraction, hsum]
      rfl
    rw [hpattern, unpack]
    simp only [hsign, hexponent, hmantissa]
    rw [if_neg (ofNat_ne_neg_one hfield), if_neg (ofNat_ne_zero hpos (by omega))]
    simp only [hbits, toNat_ofNat_of_lt (show field < 2 ^ 11 by omega)]
    congr 1
    simp only [he, leastExponent, Format.exponentBias]
    omega
  · obtain ⟨hsign, hexponent, hmantissa⟩ := fields_signed negative (show 0 < 2 ^ 11 by omega) hlt
    rw [hpattern, unpack]
    simp only [hsign, hexponent, hmantissa]
    rw [if_neg (by decide), if_pos trivial, dif_neg (ofNat_ne_zero hs hlt)]
    simp only [toNat_ofNat_of_lt hlt, he]
    rfl

/-- Every magnitude between zero and infinity is the place of a double. -/
theorem exists_isDouble {m : ℕ} (hpos : 0 < m) (h : m < infinityBits) :
    ∃ s e, IsDouble s e ∧ 0 < s ∧ m = pattern s e := by
  have hplace := Nat.div_add_mod m (2 ^ 52)
  have hfraction := Nat.mod_lt m (show 0 < 2 ^ 52 by decide)
  simp only [infinityBits, fractionBits] at h
  by_cases hfield : m / 2 ^ 52 = 0
  · refine ⟨m, leastExponent, ⟨by omega, le_rfl, by decide, Or.inr rfl⟩, hpos, ?_⟩
    simp [pattern]
  · refine ⟨2 ^ 52 + m % 2 ^ 52, leastExponent + (m / 2 ^ 52 - 1 : ℕ),
      ⟨by omega, by omega, ?_, Or.inl (by omega)⟩, by omega, ?_⟩
    · simp only [leastExponent]
      omega
    · simp only [pattern, fractionBits]
      omega

theorem toNat_pack_unpack_signed (negative : Bool) {m : ℕ} (h : m ≤ infinityBits) :
    (pack binary64 (unpack binary64 (.ofNat 64 (signed negative m)))).toNat = signed negative m := by
  rcases h.eq_or_lt with rfl | hlt
  · cases negative <;> rfl
  rcases Nat.eq_zero_or_pos m with rfl | hpos
  · cases negative <;> rfl
  obtain ⟨s, e, hdouble, hs, rfl⟩ := exists_isDouble hpos hlt
  rw [unpack_signed negative hdouble hs, toNat_pack_finite negative hdouble hs]

/-! ## Doubles -/

/-- The double with a sign and a magnitude. -/
def double (negative : Bool) (magnitude : ℕ) : Float := .ofBits (.ofNat (signed negative magnitude))

theorem toBits_double (negative : Bool) {m : ℕ} (h : m ≤ infinityBits) :
    (double negative m).toBits = .ofNat (signed negative m) := by
  apply UInt64.toNat_inj.mp
  rw [UInt64.toNat_ofNat_of_lt' (signed_lt h)]
  exact toNat_pack_unpack_signed negative h

/-- A double is what its bits say. -/
theorem eq_double {x : Float} {negative : Bool} {m : ℕ} (h : m ≤ infinityBits)
    (hbits : x.toBits.toNat = signed negative m) : x = double negative m := by
  apply Float.toBits_inj.mp
  rw [toBits_double negative h, ← hbits, UInt64.ofNat_toNat]

theorem meaning_double (negative : Bool) {s : ℕ} {e : ℤ} (h : IsDouble s e) :
    meaning (double negative (pattern s e)) = .finite negative s e := by
  have hword := @signed_lt negative _ h.pattern_lt.le
  rw [meaning, toBits_double negative h.pattern_lt.le, Meaning.ofBits, UInt64.toNat_ofNat_of_lt' hword]
  obtain ⟨field, fraction, hfield, hfraction, hpattern, hvalue⟩ :
      ∃ field fraction, field < 2047 ∧ fraction < 2 ^ 52 ∧ pattern s e = field * 2 ^ 52 + fraction ∧
        if field = 0 then s = fraction ∧ e = leastExponent
        else s = 2 ^ 52 + fraction ∧ e = leastExponent + (field - 1 : ℕ) := by
    rcases h.cases with ⟨field, fraction, hpos, hfield, hfraction, hsum, he, hpattern⟩ |
      ⟨hlt, he, hpattern⟩
    · exact ⟨field, fraction, hfield, hfraction, hpattern, by rw [if_neg hpos.ne']; exact ⟨hsum, he⟩⟩
    · exact ⟨0, s, by decide, hlt, hpattern, by rw [if_pos rfl]; exact ⟨rfl, he⟩⟩
  have hparts : decide (2 ^ 63 ≤ signed negative (pattern s e)) = negative ∧
      signed negative (pattern s e) / 2 ^ fractionBits % 2048 = field ∧
      signed negative (pattern s e) % 2 ^ fractionBits = fraction := by
    rw [hpattern]
    simp only [signed, fractionBits]
    cases negative <;> simp <;> omega
  obtain ⟨hsign, hplace, hrest⟩ := hparts
  simp only [hsign, hplace, hrest]
  rw [if_neg (by omega)]
  split_ifs at hvalue ⊢ with hzero
  · rw [hvalue.1, hvalue.2]
  · rw [hvalue.1, hvalue.2]
    rfl

/-- What stands for a finite number is the double with its sign and its magnitude. -/
theorem eq_double_of_meaning {x : Float} {negative : Bool} {s : ℕ} {e : ℤ}
    (h : meaning x = .finite negative s e) : IsDouble s e ∧ x = double negative (pattern s e) := by
  have hlt := x.toBits.toNat_lt
  have hfraction := Nat.mod_lt x.toBits.toNat (Nat.pow_pos (n := fractionBits) two_pos)
  simp only [meaning, Meaning.ofBits] at h
  split_ifs at h with hinfinite hzero hfield
  · obtain ⟨rfl, rfl, rfl⟩ := Meaning.finite.inj h
    have hdouble : IsDouble (x.toBits.toNat % 2 ^ fractionBits) leastExponent := by
      refine ⟨?_, le_rfl, by decide, Or.inr rfl⟩
      simp only [fractionBits] at hfraction ⊢
      omega
    refine ⟨hdouble, eq_double hdouble.pattern_lt.le ?_⟩
    simp only [signed, pattern, decide_eq_true_eq, fractionBits] at hinfinite hfield ⊢
    split <;> omega
  · obtain ⟨rfl, rfl, rfl⟩ := Meaning.finite.inj h
    have hdouble : IsDouble (2 ^ fractionBits + x.toBits.toNat % 2 ^ fractionBits)
        (leastExponent + (x.toBits.toNat / 2 ^ fractionBits % 2048 - 1 : ℕ)) := by
      simp only [fractionBits] at hfraction hinfinite ⊢
      refine ⟨by omega, by omega, ?_, Or.inl (by omega)⟩
      simp only [leastExponent]
      omega
    refine ⟨hdouble, eq_double hdouble.pattern_lt.le ?_⟩
    simp only [signed, pattern, decide_eq_true_eq, fractionBits] at hinfinite hfield ⊢
    split <;> omega

/-- A positive double and the rational that it stands for. -/
structure HasValue (x : Float) (v : ℚ) : Prop where
  holds : ∃ s e, IsDouble s e ∧ 0 < s ∧ v = s * 2 ^ e ∧ x = double false (pattern s e)

theorem hasValue_double {s : ℕ} {e : ℤ} (h : IsDouble s e) (hs : 0 < s) :
    HasValue (double false (pattern s e)) (s * 2 ^ e) := ⟨s, e, h, hs, rfl, rfl⟩

theorem HasValue.pos {x : Float} {v : ℚ} (h : HasValue x v) : 0 < v := by
  obtain ⟨s, e, -, hs, rfl, -⟩ := h
  have : (0 : ℚ) < s := by exact_mod_cast hs
  positivity

theorem isFinite_double (negative : Bool) {m : ℕ} (h : m < infinityBits) :
    isFinite (double negative m) = true := by
  rcases Nat.eq_zero_or_pos m with rfl | hpos
  · cases negative <;> decide
  obtain ⟨s, e, hdouble, -, rfl⟩ := exists_isDouble hpos h
  rw [isFinite, meaning_double negative hdouble]

/-- What a packed result is as a double. -/
theorem ofModel_pack_eq {u : UnpackedFloat} {negative : Bool} {m : ℕ} (h : m ≤ infinityBits)
    (hpack : (pack binary64 u).toNat = signed negative m) :
    Float.ofModel (.pack u) = double negative m :=
  eq_double h hpack

theorem unpack_toModel_double (negative : Bool) {s : ℕ} {e : ℤ} (h : IsDouble s e) (hs : 0 < s) :
    (double negative (pattern s e)).toModel.unpack = .finite (signOf negative) s e hs := by
  have hbits := toBits_double negative h.pattern_lt.le
  rw [Float.toBits] at hbits
  rw [Float.Model.unpack, hbits]
  exact unpack_signed negative h hs

theorem HasValue.beq_zero {x : Float} {v : ℚ} (h : HasValue x v) : (x == 0) = false := by
  obtain ⟨s, e, hdouble, hs, rfl, rfl⟩ := h
  have hzero : (0 : Float) = double false 0 := by decide
  rw [hzero]
  change UnpackedFloat.beq _ (.zero .positive) = false
  rw [unpack_toModel_double false hdouble hs]
  rfl

theorem neg_double (negative : Bool) {m : ℕ} (h : m < infinityBits) :
    -double negative m = double (!negative) m := by
  rcases Nat.eq_zero_or_pos m with rfl | hpos
  · cases negative <;> decide
  obtain ⟨s, e, hdouble, hs, rfl⟩ := exists_isDouble hpos h
  refine ofModel_pack_eq hdouble.pattern_lt.le ?_
  rw [unpack_toModel_double negative hdouble hs]
  refine Eq.trans ?_ (toNat_pack_finite (!negative) hdouble hs)
  cases negative <;> rfl

/-- A decimal whose leading digit is not far outside the range of doubles is rounded to a double. -/
theorem ofDecimal_eq (negative : Bool) {digits : ℕ} (hpos : 0 < digits) {exponent : ℤ}
    (hhigh : exponent + (digits.log2 : ℤ) * 30103 / 100000 ≤ 400)
    (hlow : -400 ≤ exponent + (digits.log2 : ℤ) * 30103 / 100000) {m : ℕ}
    (h : RoundsTo (digits * 10 ^ exponent) m) : ofDecimal negative digits exponent = double negative m := by
  have hten : (10 : ℚ) ≠ 0 := by norm_num
  have hratio : (digits : ℚ) * 10 ^ exponent
      = (digits * 10 ^ exponent.toNat : ℕ) / (10 ^ (-exponent).toNat : ℕ) := by
    rw [zpow_eq_pow_div_pow hten]
    push_cast
    ring
  rw [hratio] at h
  have hnearest := nearest_eq (Nat.mul_pos hpos (by positivity)) (by positivity) h
  rw [ofDecimal]
  simp only [hpos.ne', if_false, not_lt.mpr hhigh, not_lt.mpr hlow, hnearest]
  rw [double, signed]
  cases negative with
  | false => simp
  | true => simp [add_comm]

end Piecework.Number
