/-
# Piecework.Proofs.Numeral — which runs of digits and points are numbers.

A numeral is a run of digits with at most one point and at least one digit.  Its value is the double
nearest to the digits, read as one whole number, over a power of ten for the places behind the point.
The general reader of decimals also knows signs, exponents and words; on a run of digits and points it
reads exactly the numerals, and exactly to that value (`readNumber_eq_ok_iff`).
-/
import Mathlib.Data.List.TakeWhile
import Mathlib.Tactic.IntervalCases
import Piecework.Infix
import Piecework.Proofs.Number.Digits

namespace Piecework.Infix

/-! ## Numerals and their values -/

/-- A run of digits with at most one point and at least one digit. -/
structure IsNumeral (run : List Char) : Prop where
  numeral : ∀ c ∈ run, isNumeral c = true
  digit : ∃ c ∈ run, c.isDigit = true
  point : run.count '.' ≤ 1

instance (run : List Char) : Decidable (IsNumeral run) :=
  decidable_of_iff (run.all isNumeral = true ∧ run.any Char.isDigit = true ∧ run.count '.' ≤ 1) (by
    rw [List.all_eq_true, List.any_eq_true]
    exact ⟨fun h => ⟨h.1, h.2.1, h.2.2⟩, fun h => ⟨h.numeral, h.digit, h.point⟩⟩)

/-- The digits behind the point, if there is one. -/
def placesOf (run : List Char) : List Char := (run.dropWhile (· ≠ '.')).drop 1

/-- The number that a numeral stands for: its digits, moved down by the places behind the point. -/
def numeralValue (run : List Char) : Float :=
  Number.ofDecimal false (Number.foldDigits 0 (run.filter Char.isDigit)) (0 - (placesOf run).length)

/-! ## The shape of a run of digits and points -/

theorem isNumeral_of_isDigit {c : Char} (h : c.isDigit = true) : isNumeral c = true := by
  simp [isNumeral, h]

theorem isDigit_of_isNumeral {c : Char} (h : isNumeral c = true) (hc : c ≠ '.') :
    c.isDigit = true := by
  simpa [isNumeral, hc] using h

theorem ne_point_of_isDigit {c : Char} (h : c.isDigit = true) : c ≠ '.' := by
  rintro rfl
  exact absurd h (by decide)

/-- A run of digits and points without a point consists of digits. -/
theorem all_isDigit_of_not_mem {run : List Char} (h : ∀ c ∈ run, isNumeral c = true)
    (hp : '.' ∉ run) : ∀ c ∈ run, c.isDigit = true :=
  fun c hc => isDigit_of_isNumeral (h c hc) (fun he => hp (he ▸ hc))

/-- A run of digits and points consists of digits, or goes on with a point behind them. -/
theorem digits_or_point {run : List Char} (h : ∀ c ∈ run, isNumeral c = true) :
    (∀ c ∈ run, c.isDigit = true) ∨
      ∃ whole tail, run = whole ++ '.' :: tail ∧ ∀ c ∈ whole, c.isDigit = true := by
  by_cases hp : '.' ∈ run
  · obtain ⟨whole, tail, rfl, hnot⟩ := List.eq_append_cons_of_mem hp
    exact Or.inr ⟨whole, tail, rfl, all_isDigit_of_not_mem (fun c hc => h c (by simp [hc])) hnot⟩
  · exact Or.inl (all_isDigit_of_not_mem h hp)

/-- A numeral is a run of digits, or two of them around a point. -/
theorem IsNumeral.split {run : List Char} (h : IsNumeral run) :
    (∀ c ∈ run, c.isDigit = true) ∨
      ∃ whole places, run = whole ++ '.' :: places ∧ (∀ c ∈ whole, c.isDigit = true) ∧
        ∀ c ∈ places, c.isDigit = true := by
  rcases digits_or_point h.numeral with hd | ⟨whole, places, rfl, hw⟩
  · exact Or.inl hd
  · refine Or.inr ⟨whole, places, rfl, hw, ?_⟩
    have hcount := h.point
    rw [List.count_append, List.count_cons_self] at hcount
    apply all_isDigit_of_not_mem
    · intro c hc
      exact h.numeral c (by simp [hc])
    · exact List.count_eq_zero.mp (by omega)

theorem count_point_of_isDigit {run : List Char} (h : ∀ c ∈ run, c.isDigit = true) :
    run.count '.' = 0 :=
  List.count_eq_zero.mpr fun hp => ne_point_of_isDigit (h _ hp) rfl

theorem IsNumeral.of_digits {run : List Char} (h : ∀ c ∈ run, c.isDigit = true) (hne : run ≠ []) :
    IsNumeral run := by
  obtain ⟨c, hc⟩ := List.exists_mem_of_ne_nil run hne
  refine ⟨fun c hc => isNumeral_of_isDigit (h c hc), ⟨c, hc, h c hc⟩, ?_⟩
  rw [count_point_of_isDigit h]
  exact Nat.zero_le 1

/-- Digits around a point make a numeral, on whichever side of it they stand. -/
theorem IsNumeral.of_point {whole places : List Char} (hw : ∀ c ∈ whole, c.isDigit = true)
    (hp : ∀ c ∈ places, c.isDigit = true) (hne : ¬(whole = [] ∧ places = [])) :
    IsNumeral (whole ++ '.' :: places) := by
  refine ⟨?_, ?_, ?_⟩
  · intro c hc
    rcases List.mem_append.mp hc with hc | hc
    · exact isNumeral_of_isDigit (hw c hc)
    · rcases List.mem_cons.mp hc with rfl | hc
      · rfl
      · exact isNumeral_of_isDigit (hp c hc)
  · have happ : whole ++ places ≠ [] := by simpa using hne
    obtain ⟨c, hc⟩ := List.exists_mem_of_ne_nil _ happ
    rcases List.mem_append.mp hc with hc | hc
    · exact ⟨c, by simp [hc], hw c hc⟩
    · exact ⟨c, by simp [hc], hp c hc⟩
  · rw [List.count_append, List.count_cons_self, count_point_of_isDigit hw, count_point_of_isDigit hp]

theorem placesOf_digits {run : List Char} (h : ∀ c ∈ run, c.isDigit = true) : placesOf run = [] := by
  have hd : run.dropWhile (· ≠ '.') = [] :=
    List.dropWhile_eq_nil_iff.mpr fun c hc => by simpa using ne_point_of_isDigit (h c hc)
  rw [placesOf, hd, List.drop_nil]

theorem placesOf_point {whole places : List Char} (h : ∀ c ∈ whole, c.isDigit = true) :
    placesOf (whole ++ '.' :: places) = places := by
  have hd : (whole ++ '.' :: places).dropWhile (· ≠ '.') = '.' :: places := by
    rw [List.dropWhile_append_of_pos fun c hc => by simpa using ne_point_of_isDigit (h c hc)]
    simp
  rw [placesOf, hd, List.drop_one, List.tail_cons]

/-! ## The reader of decimals on such runs -/

/-- The characters of numerals, listed. -/
def numerals : List Char := ['0', '1', '2', '3', '4', '5', '6', '7', '8', '9', '.']

theorem mem_numerals {c : Char} (h : isNumeral c = true) : c ∈ numerals := by
  by_cases hc : c = '.'
  · rw [hc]
    decide
  · have hd := isDigit_of_isNumeral h hc
    simp only [Char.isDigit, Bool.and_eq_true, decide_eq_true_eq] at hd
    have hlow : 48 ≤ c.toNat := hd.1
    have hhigh : c.toNat ≤ 57 := hd.2
    rw [← Char.ofNat_toNat c]
    -- Ten digits are few enough to be tried one by one.
    generalize c.toNat = n at hlow hhigh
    interval_cases n <;> decide

/-- A character of a numeral is neither a sign nor part of an exponent, and starts no word. -/
theorem plain_of_mem_numerals {c : Char} (h : c ∈ numerals) :
    c ≠ '-' ∧ c ≠ '+' ∧ c ≠ 'e' ∧ c ≠ 'E' ∧ c.toLower ≠ 'i' ∧ c.toLower ≠ 'n' := by
  have hall : numerals.all (fun c => c ≠ '-' ∧ c ≠ '+' ∧ c ≠ 'e' ∧ c ≠ 'E' ∧ c.toLower ≠ 'i' ∧
      c.toLower ≠ 'n') = true := by decide
  exact of_decide_eq_true (List.all_eq_true.mp hall c h)

/-- A run of digits and points has no sign, and no word stands for it. -/
theorem readFloat?_run {run : List Char} (h : ∀ c ∈ run, isNumeral c = true) :
    Number.readFloat? run = (Number.readMantissa run).bind fun m =>
      (Number.readExponent m.2.2).map fun exponent =>
        Number.ofDecimal false m.1 (exponent - m.2.1) := by
  -- Signs and words are both told by the first character.
  have hsign : Number.splitSign run = (false, run) := by
    cases run with
    | nil => rfl
    | cons c rest =>
      obtain ⟨hm, hp, -⟩ := plain_of_mem_numerals (mem_numerals (h c List.mem_cons_self))
      simp [Number.splitSign, hm, hp]
  have hword : Number.lowered run ≠ "inf".toList ∧ Number.lowered run ≠ "infinity".toList ∧
      Number.lowered run ≠ "nan".toList := by
    cases run with
    | nil => decide
    | cons c rest =>
      obtain ⟨-, -, -, -, hi, hn⟩ := plain_of_mem_numerals (mem_numerals (h c List.mem_cons_self))
      simp [Number.lowered, hi, hn]
  simp only [Number.readFloat?, hsign, hword.1, hword.2.1, hword.2.2, or_self, if_false]
  cases Number.readMantissa run with
  | none => rfl
  | some m =>
    cases he : Number.readExponent m.2.2 <;> simp [he]

/-- What a run of digits and points leaves behind its digits is no exponent. -/
theorem readExponent_run {rest : List Char} (h : ∀ c ∈ rest, isNumeral c = true) :
    Number.readExponent rest = if rest = [] then some 0 else none := by
  cases rest with
  | nil => rfl
  | cons c tail =>
    obtain ⟨-, -, he, hE, -⟩ := plain_of_mem_numerals (mem_numerals (h c List.mem_cons_self))
    simp [Number.readExponent, he, hE]

theorem filter_isDigit_point {whole places : List Char} (hw : ∀ c ∈ whole, c.isDigit = true)
    (hp : ∀ c ∈ places, c.isDigit = true) : (whole ++ '.' :: places).filter Char.isDigit = whole ++ places := by
  rw [List.filter_append, List.filter_cons_of_neg (by decide), List.filter_eq_self.mpr hw,
    List.filter_eq_self.mpr hp]

/-- Digits are taken off as far as they go. -/
theorem span_digits {digits tail : List Char} (h : ∀ d ∈ digits, d.isDigit = true)
    (htail : ∀ c ∈ tail.head?, c.isDigit = false) :
    (digits ++ tail).takeWhile Char.isDigit = digits ∧ (digits ++ tail).dropWhile Char.isDigit = tail := by
  rw [List.takeWhile_append_of_pos h, List.dropWhile_append_of_pos h]
  cases tail with
  | nil => simp
  | cons c tail =>
    have hc : ¬c.isDigit = true := by simpa using htail c rfl
    rw [List.takeWhile_cons_of_neg hc, List.dropWhile_cons_of_neg hc, List.append_nil]
    exact ⟨rfl, rfl⟩

/-- A numeral in front is read whole, if what follows does not go on like one. -/
theorem readMantissa_append {run tail : List Char} (h : IsNumeral run)
    (htail : ∀ c ∈ tail.head?, isNumeral c = false) :
    Number.readMantissa (run ++ tail)
      = some (Number.foldDigits 0 (run.filter Char.isDigit), (placesOf run).length, tail) := by
  have hstop : ∀ c ∈ tail.head?, c.isDigit = false := fun c hc => by
    by_contra hdigit
    simpa [isNumeral_of_isDigit (by simpa using hdigit : c.isDigit = true)] using htail c hc
  obtain ⟨c, hc, hdigit⟩ := h.digit
  rcases h.split with hd | ⟨whole, places, rfl, hw, hp⟩
  · obtain ⟨htake, hdrop⟩ := span_digits hd hstop
    have hne : run ≠ [] := List.ne_nil_of_mem hc
    simp only [Number.readMantissa, htake, hdrop, List.filter_eq_self.mpr hd, placesOf_digits hd, List.length_nil]
    split
    · exact absurd (htail _ rfl) (by decide)
    · simp [hne]
  · obtain ⟨htakePlaces, hdropPlaces⟩ := span_digits hp hstop
    obtain ⟨htake, hdrop⟩ :=
      span_digits hw (show ∀ c ∈ ('.' :: (places ++ tail)).head?, c.isDigit = false by simp)
    have hne : ¬(whole = [] ∧ places = []) := by
      rintro ⟨rfl, rfl⟩
      rw [List.nil_append, List.mem_singleton] at hc
      exact ne_point_of_isDigit hdigit hc
    rw [List.append_assoc, List.cons_append]
    simp only [Number.readMantissa, htake, hdrop, htakePlaces, hdropPlaces, filter_isDigit_point hw hp,
      placesOf_point hw, Number.foldDigits_append]
    rw [if_neg (by simpa using hne)]

/-- What is read in front is a numeral. -/
theorem exists_of_readMantissa {text tail : List Char} {digits places : ℕ}
    (h : Number.readMantissa text = some (digits, places, tail)) :
    ∃ run, IsNumeral run ∧ text = run ++ tail ∧ digits = Number.foldDigits 0 (run.filter Char.isDigit) ∧
      places = (placesOf run).length := by
  have hw : ∀ c ∈ text.takeWhile Char.isDigit, c.isDigit = true := fun c hc => List.mem_takeWhile_imp hc
  have htext : text = text.takeWhile Char.isDigit ++ text.dropWhile Char.isDigit :=
    List.takeWhile_append_dropWhile.symm
  simp only [Number.readMantissa] at h
  generalize text.takeWhile Char.isDigit = whole at hw htext h
  generalize text.dropWhile Char.isDigit = rest at htext h
  split at h
  case h_1 _ rest' =>
    have hp : ∀ c ∈ rest'.takeWhile Char.isDigit, c.isDigit = true := fun c hc => List.mem_takeWhile_imp hc
    split_ifs at h with hempty
    simp only [Option.some.injEq, Prod.mk.injEq] at h
    obtain ⟨rfl, rfl, rfl⟩ := h
    refine ⟨whole ++ '.' :: rest'.takeWhile Char.isDigit, .of_point hw hp (by simpa using hempty), ?_, ?_, ?_⟩
    · rw [htext, List.append_assoc, List.cons_append, List.takeWhile_append_dropWhile]
    · rw [filter_isDigit_point hw hp, Number.foldDigits_append]
    · rw [placesOf_point hw]
  case h_2 =>
    split_ifs at h with hempty
    simp only [Option.some.injEq, Prod.mk.injEq] at h
    obtain ⟨rfl, rfl, rfl⟩ := h
    refine ⟨whole, .of_digits hw (by simpa using hempty), htext, ?_, ?_⟩
    · rw [List.filter_eq_self.mpr hw]
    · rw [placesOf_digits hw, List.length_nil]

/-! ## Numerals are what is read -/

theorem readFloat?_of_isNumeral {run : List Char} (h : IsNumeral run) :
    Number.readFloat? run = some (numeralValue run) := by
  have hread := readMantissa_append h (fun c (hc : c ∈ ([] : List Char).head?) => by cases hc)
  rw [List.append_nil] at hread
  rw [readFloat?_run h.numeral, hread]
  rfl

theorem isNumeral_of_readFloat? {run : List Char} {value : Float}
    (h : ∀ c ∈ run, isNumeral c = true) (hv : Number.readFloat? run = some value) :
    IsNumeral run := by
  rw [readFloat?_run h] at hv
  obtain ⟨⟨digits, places, tail⟩, hmantissa, hexponent⟩ := Option.bind_eq_some_iff.mp hv
  obtain ⟨run', hnumeral, rfl, -⟩ := exists_of_readMantissa hmantissa
  dsimp only at hexponent
  have htail : ∀ c ∈ tail, isNumeral c = true := fun c hc => h c (List.mem_append_right _ hc)
  -- A second point would have to be read as an exponent.
  have hnil : tail = [] := by
    by_contra hne
    rw [readExponent_run htail, if_neg hne] at hexponent
    cases hexponent
  rwa [hnil, List.append_nil]

/-- A run of digits and points is read exactly when it is a numeral with a finite value, and then to
that value. -/
theorem readNumber_eq_ok_iff {run : List Char} {value : Float}
    (h : ∀ c ∈ run, isNumeral c = true) :
    readNumber run = .ok value ↔
      IsNumeral run ∧ Number.isFinite (numeralValue run) = true ∧ value = numeralValue run := by
  constructor
  · intro hv
    cases hread : Number.readFloat? run with
    | none => simp [readNumber, hread] at hv
    | some v =>
      have hn := isNumeral_of_readFloat? h hread
      rw [readFloat?_of_isNumeral hn, Option.some_inj] at hread
      subst hread
      by_cases hf : Number.isFinite (numeralValue run) = true
      · have hvalue : numeralValue run = value := by
          simpa [readNumber, readFloat?_of_isNumeral hn, hf] using hv
        exact ⟨hn, hf, hvalue.symm⟩
      · simp [readNumber, readFloat?_of_isNumeral hn, hf] at hv
  · rintro ⟨hn, hf, rfl⟩
    simp [readNumber, readFloat?_of_isNumeral hn, hf]

/-- A run that is not read is the fault. -/
theorem eq_number_of_readNumber {run : List Char} {fault : CompileFault} (h : readNumber run = .error fault) :
    fault = .number (.ofList run) := by
  rw [readNumber] at h
  split at h
  · split at h
    · exact absurd h (by simp)
    · exact (Except.error.inj h).symm
  · exact (Except.error.inj h).symm

end Piecework.Infix
