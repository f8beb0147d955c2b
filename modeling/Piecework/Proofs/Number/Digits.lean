/-
# Piecework.Proofs.Number.Digits — runs of digits and the numbers they stand for.

Every format for numbers is made of runs of digits: whole digits, places behind a point, an exponent.
A run is folded into the number it stands for, and a number is set out as its run; the core library
knows both directions, and here they are put into the terms of this one.
-/
import Mathlib.Data.List.TakeWhile
import Piecework.Number.Layout
import Piecework.Number.Reader

namespace Piecework.Number

/-! ## Folding a run -/

theorem foldDigits_eq_ofDigitChars (start : Nat) (run : List Char) :
    foldDigits start run = Nat.ofDigitChars 10 run start := by
  simp only [foldDigits, digitValue, Nat.ofDigitChars_eq_foldl]

@[simp]
theorem foldDigits_nil (start : Nat) : foldDigits start [] = start := rfl

@[simp]
theorem foldDigits_cons (start : Nat) (c : Char) (run : List Char) :
    foldDigits start (c :: run) = foldDigits (10 * start + digitValue c) run := by
  rw [foldDigits, foldDigits, List.foldl_cons]

theorem foldDigits_append (start : Nat) (u v : List Char) :
    foldDigits start (u ++ v) = foldDigits (foldDigits start u) v := List.foldl_append

/-- Zeros behind a run raise its number to a higher power of ten. -/
theorem foldDigits_replicate_zero (start n : Nat) :
    foldDigits start (List.replicate n '0') = 10 ^ n * start := by
  rw [foldDigits_eq_ofDigitChars, Nat.ofDigitChars_replicate_zero]

/-- More digits never make a number smaller. -/
theorem le_foldDigits (start : Nat) (run : List Char) : start ≤ foldDigits start run := by
  induction run generalizing start with
  | nil => exact Nat.le_refl start
  | cons c run ih =>
    have hrest := ih (10 * start + digitValue c)
    rw [foldDigits_cons]
    omega

/-! ## The run of a number -/

theorem foldDigits_decimal (n : Nat) : foldDigits 0 (decimal n) = n := by
  rw [foldDigits_eq_ofDigitChars, decimal, Nat.ofDigitChars_toDigits (by omega) (by omega)]

theorem isDigit_of_mem_decimal {n : Nat} {c : Char} (h : c ∈ decimal n) : c.isDigit = true :=
  Nat.isDigit_of_mem_toDigits (by omega) (by omega) h

theorem isDigit_of_mem_zeros {n : Nat} {c : Char} (h : c ∈ List.replicate n '0') :
    c.isDigit = true := by
  rw [List.eq_of_mem_replicate h]
  decide

theorem decimal_ne_nil (n : Nat) : decimal n ≠ [] := Nat.toDigits_ne_nil

theorem length_decimal_pos (n : Nat) : 0 < (decimal n).length := Nat.length_toDigits_pos

/-- A number has at most `k` digits when it is below the `k`-th power of ten. -/
theorem length_decimal_le_iff {n k : Nat} (hk : 0 < k) : (decimal n).length ≤ k ↔ n < 10 ^ k :=
  Nat.length_toDigits_le_iff (by omega) hk

/-- A positive number does not start with a zero. -/
theorem head?_decimal_ne {n : Nat} (h : 0 < n) : (decimal n).head? ≠ some '0' := by
  induction n using Nat.strongRecOn with
  | ind n ih =>
    rw [decimal, Nat.toDigits_eq_if (by omega)]
    split
    · rw [List.head?_cons, ne_eq, Option.some_inj, Nat.digitChar_eq_zero]
      omega
    · have hrest := ih (n / 10) (by omega) (by omega)
      rw [decimal] at hrest
      rwa [List.head?_append, Option.or_of_isSome (by simp)]

end Piecework.Number
