/-
# Piecework.Proofs.Instant — instants read back as they were written.

The text of an instant is a row of numbers with a mark behind each of them.  The reader takes each number up to
its mark, with the digits and within the range that the writer keeps to, and puts the date and the time of day
together to the second that they were taken from.  Fractions come back because groups of three digits are as
many places; a leap second comes back because second 60 is written for it alone.  So every instant of the
calendar reads back (`Instant.ofText_text`), from the year -262143 to the year 262142.
-/
import Piecework.Instant.Text
import Piecework.Proofs.Calendar
import Piecework.Proofs.Spelling

namespace Piecework.Instant

open Number (decimal foldDigits)

/-! ## Numbers with leading zeros -/

section Padded

variable {width n : Nat}

theorem isDigit_of_mem_padded {c : Char} (h : c ∈ padded width n) : c.isDigit = true :=
  (List.mem_append.mp h).elim Number.isDigit_of_mem_zeros Number.isDigit_of_mem_decimal

theorem foldDigits_padded (width n : Nat) : foldDigits 0 (padded width n) = n := by
  rw [padded, Number.foldDigits_append, Number.foldDigits_replicate_zero, Nat.mul_zero,
    Number.foldDigits_decimal]

theorem padded_ne_nil (width n : Nat) : padded width n ≠ [] :=
  List.append_ne_nil_of_right_ne_nil _ (Number.decimal_ne_nil n)

/-- What fits is written with exactly so many digits. -/
theorem length_padded (hwidth : 0 < width) (h : n < 10 ^ width) : (padded width n).length = width := by
  have hfits := (Number.length_decimal_le_iff hwidth).mpr h
  rw [padded, List.length_append, List.length_replicate]
  omega

end Padded

/-! ## Numbers in front of a mark -/

variable {c : Char} {rest : List Char}

/-- The digits in front of a mark are all that is read, if there are not more of them than may be. -/
theorem readNumber_run {limit : Option Nat} {run : List Char} (hrun : ∀ d ∈ run, d.isDigit = true)
    (hne : run ≠ []) (hlimit : ∀ n ∈ limit, run.length ≤ n) (hc : c.isDigit = false)
    (hlt : foldDigits 0 run < 2 ^ 63) :
    readNumber limit (run ++ c :: rest) = .ok (foldDigits 0 run, c :: rest) := by
  have htake : (run ++ c :: rest).takeWhile Char.isDigit = run := by
    rw [List.takeWhile_append_of_pos hrun, List.takeWhile_cons_of_neg (by simp [hc]), List.append_nil]
  have hempty : (run ++ c :: rest).isEmpty = false := by simp
  have hsome : run.isEmpty = false := by simpa using hne
  cases limit with
  | none =>
    simp only [readNumber, htake, hempty, hsome, Bool.false_eq_true, if_false, hlt, if_true, List.drop_left]
  | some n =>
    have hall : run.take n = run := List.take_of_length_le (hlimit n rfl)
    simp only [readNumber, htake, hall, hempty, hsome, Bool.false_eq_true, if_false, hlt, if_true,
      List.drop_left]

/-- A padded number is read as that number. -/
theorem readNumber_padded {limit : Option Nat} {width n : Nat}
    (hlimit : ∀ m ∈ limit, (padded width n).length ≤ m) (hc : c.isDigit = false) (hlt : n < 2 ^ 63) :
    readNumber limit (padded width n ++ c :: rest) = .ok (n, c :: rest) := by
  have hvalue := foldDigits_padded width n
  have hrun : readNumber limit (padded width n ++ c :: rest)
      = .ok (foldDigits 0 (padded width n), c :: rest) :=
    readNumber_run (fun d hd => isDigit_of_mem_padded hd) (padded_ne_nil width n) hlimit hc
      (hvalue.symm ▸ hlt)
  rwa [hvalue] at hrun

/-- Digits are not blank. -/
theorem skipBlanks_of_isDigit {run : List Char} (hrun : ∀ d ∈ run, d.isDigit = true) (hne : run ≠ [])
    (rest : List Char) : Text.skipBlanks (run ++ rest) = run ++ rest := by
  obtain ⟨d, more, rfl⟩ := List.exists_cons_of_ne_nil hne
  have hblank : Text.isBlank d = false := Infix.not_isBlank_of_mem_numerals
    (Infix.mem_numerals (Infix.isNumeral_of_isDigit (hrun d List.mem_cons_self)))
  rw [List.cons_append, Text.skipBlanks, List.dropWhile_cons_of_neg (by simp [hblank])]

/-- **A field** of two digits is read up to its mark, if it lies in its range. -/
theorem readField_padded {low high n : Nat} (hlow : low ≤ n) (hhigh : n ≤ high) (hn : n < 100)
    (hc : c.isDigit = false) : readField low high (padded 2 n ++ c :: rest) = .ok (n, c :: rest) := by
  have hread : readNumber (some 2) (padded 2 n ++ c :: rest) = .ok (n, c :: rest) :=
    readNumber_padded (fun m hm => by rw [length_padded (by decide) hn, Option.mem_some_iff.mp hm]) hc
      (by omega)
  rw [readField, skipBlanks_of_isDigit (fun d hd => isDigit_of_mem_padded hd) (padded_ne_nil 2 n), hread]
  simp only [hlow, hhigh, and_self, if_true]

/-- A mark that is no blank is read where it stands. -/
theorem readMark_cons {mark : Char} (h : Text.isBlank mark = false) (rest : List Char) :
    readMark mark (mark :: rest) = .ok rest := by
  rw [readMark, Text.skipBlanks, List.dropWhile_cons_of_neg (by simp [h])]
  exact if_pos rfl

/-! ## Years -/

theorem readYear_unsigned {n : Nat} (hn : n < 10000) (hc : c.isDigit = false) :
    readYear (padded 4 n ++ c :: rest) = .ok ((n : Int), c :: rest) := by
  have hdigits : ∀ d ∈ padded 4 n, d.isDigit = true := fun d hd => isDigit_of_mem_padded hd
  have hread : readNumber (some 4) (padded 4 n ++ c :: rest) = .ok (n, c :: rest) :=
    readNumber_padded (fun m hm => by rw [length_padded (by decide) hn, Option.mem_some_iff.mp hm]) hc
      (by omega)
  have hrange : -2 ^ 31 ≤ (n : Int) ∧ (n : Int) < 2 ^ 31 := by omega
  rw [readYear, skipBlanks_of_isDigit hdigits (padded_ne_nil 4 n)]
  obtain ⟨d, more, hd⟩ := List.exists_cons_of_ne_nil (padded_ne_nil 4 n)
  have hdigit := hdigits d (hd ▸ List.mem_cons_self)
  rw [hd, List.cons_append] at hread ⊢
  have hminus : d ≠ '-' := by
    rintro rfl
    exact absurd hdigit (by decide)
  have hplus : d ≠ '+' := by
    rintro rfl
    exact absurd hdigit (by decide)
  simp [hminus, hplus, hread]
  omega

/-- A signed year may have as many digits as it needs. -/
theorem readYear_signed (negative : Bool) {n : Nat} (hn : n < 2 ^ 31) (hc : c.isDigit = false)
    (rest : List Char) :
    readYear ((if negative then '-' else '+') :: padded 4 n ++ c :: rest)
      = .ok (if negative then -(n : Int) else n, c :: rest) := by
  have hread : readNumber none (padded 4 n ++ c :: rest) = .ok (n, c :: rest) :=
    readNumber_padded (by simp) hc (by omega)
  have hskip : ∀ sign ∈ ['-', '+'], Text.skipBlanks (sign :: (padded 4 n ++ c :: rest))
      = sign :: (padded 4 n ++ c :: rest) := by
    intro sign hsign
    rw [Text.skipBlanks, List.dropWhile_cons_of_neg]
    rcases List.mem_cons.mp hsign with rfl | hsign
    · decide
    · rw [List.mem_singleton.mp hsign]
      decide
  cases negative with
  | false =>
    have hrange : -2 ^ 31 ≤ (n : Int) ∧ (n : Int) < 2 ^ 31 := by omega
    simp only [Bool.false_eq_true, if_false, List.cons_append, readYear, hskip '+' (by decide), hread,
      Int.one_mul, if_pos hrange]
  | true =>
    have hrange : -2 ^ 31 ≤ -(n : Int) ∧ -(n : Int) < 2 ^ 31 := by omega
    simp only [if_true, List.cons_append, readYear, hskip '-' (by decide), hread, Int.neg_one_mul,
      if_pos hrange]

/-- **A year** is read up to its mark, with four digits or with a sign. -/
theorem readYear_yearText {year : Int} (hlow : -2 ^ 31 < year) (hhigh : year < 2 ^ 31)
    (hc : c.isDigit = false) : readYear (yearText year ++ c :: rest) = .ok (year, c :: rest) := by
  unfold yearText
  split
  · rename_i h
    rw [readYear_unsigned (by omega) hc, Int.toNat_of_nonneg h.1]
  · have hread := readYear_signed (decide (year < 0)) (n := year.natAbs) (by omega) hc rest
    simp only [decide_eq_true_eq] at hread
    rw [hread]
    split <;> congr <;> omega

/-! ## Decimals of a second -/

/-- Places that are missing are zeros. -/
theorem readFraction_padded {width n : Nat} (hwidth : 0 < width) (hlong : width ≤ 9) (hn : n < 10 ^ width)
    (hc : c.isDigit = false) :
    readFraction ('.' :: padded width n ++ c :: rest) = .ok (n * 10 ^ (9 - width), c :: rest) := by
  have hbound : n < 10 ^ 9 := hn.trans_le (Nat.pow_le_pow_right (by decide) hlong)
  have hread : readNumber (some 9) (padded width n ++ c :: rest) = .ok (n, c :: rest) :=
    readNumber_padded (fun m hm => by rw [length_padded hwidth hn, ← Option.mem_some_iff.mp hm]; exact hlong)
      hc (by omega)
  have hmore : (c :: rest).dropWhile Char.isDigit = c :: rest :=
    List.dropWhile_cons_of_neg (by simp [hc])
  have hplaces : (padded width n ++ c :: rest).length - (c :: rest).length = width := by
    rw [List.length_append, length_padded hwidth hn, Nat.add_sub_cancel]
  simp only [List.cons_append, readFraction, hread, hmore, hplaces]

/-- **The decimals of a second** are read up to the mark behind them. -/
theorem readFraction_fractionText (n : Nat) (rest : List Char) :
    readFraction (fractionText (n % 1000000000) ++ 'Z' :: rest) = .ok (n % 1000000000, 'Z' :: rest) := by
  have h : n % 1000000000 < 1000000000 := Nat.mod_lt n (by decide)
  generalize n % 1000000000 = nano at h ⊢
  unfold fractionText
  split_ifs with hnone hthree hsix
  · rw [hnone]
    rfl
  · rw [readFraction_padded (by decide) (by decide) (by omega) (by decide)]
    congr 2
    omega
  · rw [readFraction_padded (by decide) (by decide) (by omega) (by decide)]
    congr 2
    omega
  · rw [readFraction_padded (by decide) (by decide) (by omega) (by decide)]
    congr 2
    omega

/-! ## The calendar -/

theorem ofParts?_self (t : Instant) : ofParts? t.second t.nano = some t := by
  rw [ofParts?, dif_pos ⟨t.first_le, t.le_last, t.nano_lt, t.leap⟩]

/-- The dates of instants lie in the years of the calendar. -/
theorem isCalendarYear_date (t : Instant) : isCalendarYear t.date.year = true := by
  obtain ⟨hyear, -, -⟩ := Date.ofDayNumber_spec (t.second / secondsPerDay + Date.epochDay)
  obtain ⟨hlow, hhigh⟩ := Date.yearOf_spec (t.second / secondsPerDay + Date.epochDay)
  have hfirst := t.first_le
  have hlast := t.le_last
  have hepoch : Date.epochDay = 719528 := by decide
  have hfirstYear : Date.daysBefore (-262143) = -95745764 := by decide
  have hlastYear : Date.daysBefore 262143 = 95745765 := by decide
  simp only [firstSecond, lastSecond] at hfirst hlast
  simp only [secondsPerDay, hepoch] at hlow hhigh hyear
  have hafter : -262143 < Date.yearOf (t.second / 86400 + 719528) + 1 :=
    Date.lt_of_daysBefore_lt (lt_of_le_of_lt (by rw [hfirstYear]; omega) hhigh)
  have hbefore : Date.yearOf (t.second / 86400 + 719528) < 262143 :=
    Date.lt_of_daysBefore_lt (lt_of_le_of_lt hlow (by rw [hlastYear]; omega))
  show (decide _ && decide _) = true
  rw [date, secondsPerDay, hepoch, hyear, Bool.and_eq_true, decide_eq_true_eq, decide_eq_true_eq]
  omega

/-- **A date and a time of day** are put together to the instant that they were taken from. -/
theorem ofLocal_parts (t : Instant) :
    let ofDay := (t.second % secondsPerDay).toNat
    ofLocal t.date (ofDay / 3600) (ofDay / 60 % 60)
        (ofDay % 60 + if 1000000000 ≤ t.nano then 1 else 0) (t.nano % 1000000000) 0 = .ok t := by
  intro ofDay
  obtain ⟨-, hvalid, hnumber⟩ := Date.ofDayNumber_spec (t.second / secondsPerDay + Date.epochDay)
  have hnano := t.nano_lt
  have hleap := t.leap
  have hofDay : (ofDay : Int) = t.second % 86400 := Int.toNat_of_nonneg (Int.emod_nonneg _ (by decide))
  have hday : t.date.dayNumber - Date.epochDay = t.second / secondsPerDay := by
    rw [date, hnumber, Int.add_sub_cancel]
  have hdate : t.date.isValid = true := hvalid
  -- Only a leap second shows as second 60.
  have hsixty : (ofDay % 60 + (if 1000000000 ≤ t.nano then 1 else 0) = 60) ↔ 1000000000 ≤ t.nano := by
    split_ifs with h
    · have hlast := hleap h
      omega
    · omega
  have hsecond : t.second / secondsPerDay * secondsPerDay + (((ofDay / 3600 : Nat) : Int) * 3600
      + ((ofDay / 60 % 60 : Nat) : Int) * 60
      + ((if ofDay % 60 + (if 1000000000 ≤ t.nano then 1 else 0) = 60 then 59
          else ofDay % 60 + if 1000000000 ≤ t.nano then 1 else 0 : Nat) : Int)) - 0 = t.second := by
    simp only [hsixty, secondsPerDay]
    split_ifs with h
    · have hlast := hleap h
      omega
    · omega
  have hnanos : (if ofDay % 60 + (if 1000000000 ≤ t.nano then 1 else 0) = 60
      then t.nano % 1000000000 + 1000000000 else t.nano % 1000000000) = t.nano := by
    simp only [hsixty]
    split_ifs with h <;> omega
  rw [ofLocal, if_neg]
  · dsimp only
    rw [hday, hsecond, hnanos, ofParts?_self]
  · rw [isCalendarYear_date, hdate]
    simp [secondsPerDay]

/-! ## Whole texts -/

/-- Decimals, or what stands behind them, end a run of digits. -/
theorem exists_fractionText (nano : Nat) (rest : List Char) :
    ∃ c more, fractionText nano ++ 'Z' :: rest = c :: more ∧ c.isDigit = false := by
  unfold fractionText
  split_ifs
  · exact ⟨'Z', rest, rfl, by decide⟩
  all_goals exact ⟨'.', _, rfl, by decide⟩

theorem toList_text (t : Instant) :
    let ofDay := (t.second % secondsPerDay).toNat
    t.text.toList = yearText t.date.year ++ '-' :: (padded 2 t.date.month ++ '-' :: (padded 2 t.date.day
      ++ 'T' :: (padded 2 (ofDay / 3600) ++ ':' :: (padded 2 (ofDay / 60 % 60) ++ ':' ::
        (padded 2 (ofDay % 60 + if 1000000000 ≤ t.nano then 1 else 0)
          ++ (fractionText (t.nano % 1000000000) ++ ['Z'])))))) := by
  simp only [text, clockText, String.toList_ofList, List.append_assoc, List.cons_append]

/-- **Every instant reads back as it was written.** -/
theorem ofText_text (t : Instant) : ofText t.text = .ok t := by
  obtain ⟨-, hvalid, -⟩ := Date.ofDayNumber_spec (t.second / secondsPerDay + Date.epochDay)
  obtain ⟨hmonth, hmonth', hday, hday'⟩ := Date.bounds_of_isValid (d := t.date) hvalid
  have hcalendar := isCalendarYear_date t
  rw [isCalendarYear, Bool.and_eq_true, decide_eq_true_eq, decide_eq_true_eq] at hcalendar
  have hleap := t.leap
  have hlocal := ofLocal_parts t
  have hofDay : ((t.second % secondsPerDay).toNat : Int) = t.second % 86400 :=
    Int.toNat_of_nonneg (Int.emod_nonneg _ (by decide))
  have htext := toList_text t
  dsimp only at hlocal htext
  generalize (t.second % secondsPerDay).toNat = ofDay at hofDay hlocal htext
  have hlast : ofDay % 60 + (if 1000000000 ≤ t.nano then 1 else 0) ≤ 60 := by
    split_ifs <;> omega
  -- The parts from the front to the end.
  have hyear : ∀ rest, readYear (yearText t.date.year ++ '-' :: rest) = .ok (t.date.year, '-' :: rest) :=
    fun _ => readYear_yearText (by omega) (by omega) (by decide)
  have hdash : ∀ rest, readMark '-' ('-' :: rest) = .ok rest := readMark_cons (by decide)
  have hcolon : ∀ rest, readMark ':' (':' :: rest) = .ok rest := readMark_cons (by decide)
  have hmonths : ∀ rest, readField 1 12 (padded 2 t.date.month ++ '-' :: rest)
      = .ok (t.date.month, '-' :: rest) :=
    fun _ => readField_padded hmonth hmonth' (by omega) (by decide)
  have hdays : ∀ rest, readField 1 31 (padded 2 t.date.day ++ 'T' :: rest) = .ok (t.date.day, 'T' :: rest) :=
    fun _ => readField_padded hday hday' (by omega) (by decide)
  have hhours : ∀ rest, readField 0 23 (padded 2 (ofDay / 3600) ++ ':' :: rest)
      = .ok (ofDay / 3600, ':' :: rest) :=
    fun _ => readField_padded (Nat.zero_le _) (by omega) (by omega) (by decide)
  have hminutes : ∀ rest, readField 0 59 (padded 2 (ofDay / 60 % 60) ++ ':' :: rest)
      = .ok (ofDay / 60 % 60, ':' :: rest) :=
    fun _ => readField_padded (Nat.zero_le _) (by omega) (by omega) (by decide)
  have hseconds : readField 0 60 (padded 2 (ofDay % 60 + if 1000000000 ≤ t.nano then 1 else 0)
        ++ (fractionText (t.nano % 1000000000) ++ ['Z']))
      = .ok (ofDay % 60 + if 1000000000 ≤ t.nano then 1 else 0,
        fractionText (t.nano % 1000000000) ++ ['Z']) := by
    obtain ⟨c, more, hmore, hc⟩ := exists_fractionText (t.nano % 1000000000) []
    rw [hmore]
    exact readField_padded (Nat.zero_le _) hlast (by omega) hc
  have hfraction := readFraction_fractionText t.nano []
  have hoffset : readOffset (Text.skipBlanks ['Z']) = .ok (0, []) := by decide
  have hend : (Text.skipBlanks []).isEmpty = true := rfl
  rw [ofText, htext]
  simp only [bind, Except.bind, hyear, hdash, hmonths, hdays, hhours, hcolon, hminutes, hseconds, hfraction,
    hoffset, hend, if_true, Char.reduceEq, true_or, or_true]
  exact hlocal

end Piecework.Instant
