/-
# Piecework.Proofs.Calendar — days and dates go back and forth.

A day lies in one year, and in it in one month; the two walks that find them come to a date that the calendar
has, and the number of its day is the day that they started from (`Date.ofDayNumber_spec`).  The year is found
by a guess, and that the guess is off by at most one is a statement about exact integer division.
-/
import Piecework.Calendar

namespace Piecework.Date

/-! ## Years -/

/-- The months of a year fill the days up to the next one. -/
theorem sum_monthLengths (year : Int) :
    daysBefore year + ((monthLengths year).sum : Nat) = daysBefore (year + 1) := by
  have hsum : (monthLengths year).sum = if isLeap year then 366 else 365 := by
    unfold monthLengths
    cases isLeap year <;> rfl
  rw [hsum]
  simp only [isLeap, daysBefore, Bool.and_eq_true, Bool.or_eq_true, decide_eq_true_eq]
  split <;> omega

/-- **Every day lies in its year.** -/
theorem yearOf_spec (number : Int) :
    daysBefore (yearOf number) ≤ number ∧ number < daysBefore (yearOf number + 1) := by
  have hguess : daysBefore (number * 400 / 146097 - 1) ≤ number ∧
      number < daysBefore (number * 400 / 146097 + 2) := by
    simp only [daysBefore]
    omega
  obtain ⟨hlow, hhigh⟩ := hguess
  unfold yearOf
  dsimp only
  split
  · rename_i hbelow
    rw [Int.sub_add_cancel]
    exact ⟨hlow, hbelow⟩
  · rename_i hnot
    split
    · rename_i habove
      exact ⟨habove, by rw [Int.add_assoc]; exact hhigh⟩
    · rename_i hinside
      exact ⟨Int.not_lt.mp hnot, Int.not_le.mp hinside⟩

/-- A year that starts later is a later year. -/
theorem lt_of_daysBefore_lt {first second : Int} (h : daysBefore first < daysBefore second) :
    first < second := by
  simp only [daysBefore] at h
  omega

/-! ## Months -/

/-- **Every day of a year lies in its month.**  The months in front of it and the days in it make up the day. -/
theorem monthOf_spec {lengths : List Nat} {rest : Nat} (h : rest < lengths.sum) :
    ∃ length, lengths[(monthOf lengths rest).1]? = some length ∧ (monthOf lengths rest).2 < length ∧
      (lengths.take (monthOf lengths rest).1).sum + (monthOf lengths rest).2 = rest := by
  induction lengths generalizing rest with
  | nil => exact absurd h (Nat.not_lt_zero rest)
  | cons first more ih =>
    rw [List.sum_cons] at h
    unfold monthOf
    by_cases hfirst : rest < first
    · rw [if_pos hfirst]
      exact ⟨first, rfl, hfirst, Nat.zero_add rest⟩
    · rw [if_neg hfirst]
      have hbehind : rest - first < more.sum := by omega
      obtain ⟨length, hlength, hday, hsum⟩ := ih hbehind
      refine ⟨length, hlength, hday, ?_⟩
      rw [List.take_succ_cons, List.sum_cons, Nat.add_assoc, hsum]
      omega

/-! ## Dates -/

/-- **The date of a day** is one that the calendar has, in the year of the day, and leads back to the day. -/
theorem ofDayNumber_spec (number : Int) :
    (ofDayNumber number).year = yearOf number ∧ (ofDayNumber number).isValid = true ∧
      (ofDayNumber number).dayNumber = number := by
  obtain ⟨hlow, hhigh⟩ := yearOf_spec number
  have hroom : (number - daysBefore (yearOf number)).toNat < (monthLengths (yearOf number)).sum := by
    have hfill := sum_monthLengths (yearOf number)
    omega
  obtain ⟨length, hlength, hday, hsum⟩ := monthOf_spec hroom
  refine ⟨rfl, ?_, ?_⟩
  · simp only [isValid, ofDayNumber, Nat.add_sub_cancel, hlength, Bool.and_eq_true]
    exact ⟨⟨decide_eq_true (Nat.succ_pos _), decide_eq_true (Nat.succ_pos _)⟩, decide_eq_true hday⟩
  · simp only [dayNumber, ofDayNumber, Nat.add_sub_cancel]
    omega

/-- Months and days of a date are small numbers. -/
theorem bounds_of_isValid {d : Date} (h : d.isValid = true) :
    1 ≤ d.month ∧ d.month ≤ 12 ∧ 1 ≤ d.day ∧ d.day ≤ 31 := by
  unfold isValid at h
  simp only [Bool.and_eq_true, decide_eq_true_eq] at h
  obtain ⟨⟨hmonth, hday⟩, hlast⟩ := h
  cases hlength : (monthLengths d.year)[d.month - 1]? with
  | none =>
    rw [hlength] at hlast
    cases hlast
  | some length =>
    rw [hlength] at hlast
    obtain ⟨hindex, hget⟩ := List.getElem?_eq_some_iff.mp hlength
    have hall : ∀ n ∈ monthLengths d.year, n ≤ 31 := by
      intro n hn
      simp only [monthLengths, List.mem_cons, List.not_mem_nil, or_false] at hn
      split at hn <;> omega
    have hlong := hall length (hget ▸ List.getElem_mem hindex)
    have hcount : (monthLengths d.year).length = 12 := rfl
    have hle : d.day ≤ length := of_decide_eq_true hlast
    omega

end Piecework.Date
