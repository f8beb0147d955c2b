/-
# Piecework.Proofs.Number.Plain — a number that is written plainly reads back.

Plain text has no exponent: whatever the power of ten, it is spelled out in zeros.  So the text of a finite
double is a numeral, maybe with a minus in front, and the reader of decimals takes it for the shortest digits
and their power again.  Those lead back to the double (`readFloat?_plain`), at any size: nothing is rounded
on the way but the decimal itself, once.
-/
import Piecework.Number.Layout
import Piecework.Proofs.Number.Decimal
import Piecework.Proofs.Number.Double
import Piecework.Proofs.Number.Shortest

namespace Piecework.Number

open Infix (IsNumeral placesOf)

/-! ## Numerals with a sign -/

/-- A numeral behind a sign is read as its digits over a power of ten, with that sign. -/
theorem readFloat?_signed (negative : Bool) {run : List Char} (h : IsNumeral run) :
    readFloat? ((if negative then ['-'] else []) ++ run)
      = some (ofDecimal negative (foldDigits 0 (run.filter Char.isDigit)) (0 - (placesOf run).length)) := by
  have hsign : IsSign negative (if negative then ['-'] else []) := by
    cases negative
    · exact .none
    · exact .minus
  have hread := readFloat?_of_denotes (.decimal hsign h .none)
  rwa [List.append_nil] at hread

/-! ## Digits without an exponent -/

theorem positionalText_of_nonneg (digits : ℕ) {power : ℤ} (h : 0 ≤ power) :
    positionalText false (decimal digits) power = decimal digits ++ List.replicate power.toNat '0' := by
  simp [positionalText, h]

/-- With a negative power there is a point, and as many places behind it as the power says. -/
theorem positionalText_of_neg (digits : ℕ) {power : ℤ} (h : power < 0) :
    ∃ whole places, positionalText false (decimal digits) power = whole ++ '.' :: places ∧
      (∀ c ∈ whole, c.isDigit = true) ∧ (∀ c ∈ places, c.isDigit = true) ∧
      foldDigits 0 (whole ++ places) = digits ∧ places.length = (-power).toNat := by
  have hdigits : ∀ c ∈ decimal digits, c.isDigit = true := fun c hc => isDigit_of_mem_decimal hc
  by_cases hinside : (-power).toNat < (decimal digits).length
  · refine ⟨(decimal digits).take ((decimal digits).length - (-power).toNat),
      (decimal digits).drop ((decimal digits).length - (-power).toNat), ?_,
      fun c hc => hdigits c (List.mem_of_mem_take hc),
      fun c hc => hdigits c (List.mem_of_mem_drop hc), ?_, ?_⟩
    · simp only [positionalText, h.not_ge, if_false, hinside, if_true]
    · rw [List.take_append_drop, foldDigits_decimal]
    · rw [List.length_drop]
      omega
  · refine ⟨['0'], List.replicate ((-power).toNat - (decimal digits).length) '0' ++ decimal digits, ?_,
      by simp, fun c hc => (List.mem_append.mp hc).elim isDigit_of_mem_zeros (hdigits c), ?_, ?_⟩
    · simp only [positionalText, h.not_ge, if_false, hinside, List.singleton_append]
      rfl
    · rw [foldDigits_append, foldDigits_append, foldDigits_replicate_zero]
      exact foldDigits_decimal digits
    · rw [List.length_append, List.length_replicate]
      omega

/-- **Digits that are spelled out** are a numeral.  Its digits and its places stand for the same number. -/
theorem positionalText_spec (digits : ℕ) (power : ℤ) :
    let run := positionalText false (decimal digits) power
    IsNumeral run ∧
      foldDigits 0 (run.filter Char.isDigit) = digits * 10 ^ power.toNat ∧
      (placesOf run).length = (-power).toNat := by
  intro run
  rcases lt_or_ge power 0 with hneg | hup
  · obtain ⟨whole, places, hrun, hwhole, hplaces, hfold, hlength⟩ := positionalText_of_neg digits hneg
    have hrun : run = whole ++ '.' :: places := hrun
    have hzero : power.toNat = 0 := by omega
    have hsome : ¬(whole = [] ∧ places = []) := by
      rintro ⟨-, rfl⟩
      rw [List.length_nil] at hlength
      omega
    rw [hrun, hzero, pow_zero, mul_one, Infix.placesOf_point hwhole, List.filter_append,
      List.filter_cons_of_neg (by decide), List.filter_eq_self.mpr hwhole, List.filter_eq_self.mpr hplaces]
    exact ⟨.of_point hwhole hplaces hsome, hfold, hlength⟩
  · have hrun : run = decimal digits ++ List.replicate power.toNat '0' := positionalText_of_nonneg digits hup
    have hall : ∀ c ∈ run, c.isDigit = true := by
      rw [hrun]
      exact fun c hc => (List.mem_append.mp hc).elim isDigit_of_mem_decimal isDigit_of_mem_zeros
    refine ⟨.of_digits hall (by simp [hrun, decimal_ne_nil]), ?_, ?_⟩
    · rw [List.filter_eq_self.mpr hall, hrun, foldDigits_append, foldDigits_decimal,
        foldDigits_replicate_zero, Nat.mul_comm]
    · rw [Infix.placesOf_digits hall, List.length_nil]
      omega

/-! ## Doubles -/

variable {s : ℕ} {e : ℤ}

/-- The decimal of a double that is spelled out leads back to the double. -/
theorem ofDecimal_spelledOut (negative : Bool) (h : IsDouble s e) (hs : 0 < s) {digits : ℕ} {power : ℤ}
    (hpos : 0 < digits) (hlt : digits < 2 ^ 58) (hlow : -346 ≤ power) (hhigh : power ≤ 308)
    (hholds : (Interval.around s e).Holds (digits * 10 ^ power)) :
    ofDecimal negative (digits * 10 ^ power.toNat) (0 - (-power).toNat) = double negative (pattern s e) := by
  have hvalue : ((digits * 10 ^ power.toNat : ℕ) : ℚ) * 10 ^ ((0 : ℤ) - (-power).toNat)
      = digits * 10 ^ power := by
    rw [zero_sub, zpow_neg, zpow_natCast, zpow_eq_pow_div_pow (by norm_num : (10 : ℚ) ≠ 0) power]
    push_cast
    ring
  have hall : 0 < digits * 10 ^ power.toNat := Nat.mul_pos hpos (by positivity)
  have hsize : digits * 10 ^ power.toNat < 2 ^ 1087 :=
    calc digits * 10 ^ power.toNat
        < 2 ^ 58 * 10 ^ power.toNat := Nat.mul_lt_mul_of_pos_right hlt (by positivity)
      _ ≤ 2 ^ 58 * 10 ^ 308 := Nat.mul_le_mul_left _ (Nat.pow_le_pow_right (by decide) (by omega))
      _ < 2 ^ 1087 := by decide +kernel
  have hlog : (digits * 10 ^ power.toNat).log2 < 1087 := (Nat.log2_lt hall.ne').mpr hsize
  refine ofDecimal_eq negative hall (by omega) (by omega) ?_
  rw [hvalue]
  exact hholds.roundsTo h hs

/-- **A finite double that is written plainly reads back.** -/
theorem readFloat?_plain {x : Float} (h : isFinite x = true) : readFloat? (plain.characters x) = some x := by
  rw [isFinite] at h
  split at h
  case h_2 => cases h
  case h_1 negative s e hmeaning =>
    obtain ⟨hdouble, hx⟩ := eq_double_of_meaning hmeaning
    simp only [Layout.characters, hmeaning]
    rcases Nat.eq_zero_or_pos s with rfl | hs
    · have he : e = leastExponent := hdouble.normal.resolve_left (by decide)
      rw [hx, he]
      cases negative <;> decide +kernel
    · obtain ⟨digits, power, hshortest, hpos, hlt, hlow, hhigh, hholds⟩ := exists_shortest .up hdouble hs
      have htext : plain.magnitude s e = positionalText false (decimal digits) power := by
        have htie : plain.tie = .up := rfl
        simp only [Layout.magnitude, hs.ne', if_false, htie, hshortest]
        rfl
      obtain ⟨hnumeral, hfold, hplaces⟩ := positionalText_spec digits power
      rw [htext, readFloat?_signed negative hnumeral, hfold, hplaces,
        ofDecimal_spelledOut negative hdouble hs hpos hlt hlow hhigh hholds, ← hx]

end Piecework.Number
