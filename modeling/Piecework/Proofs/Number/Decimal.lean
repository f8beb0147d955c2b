/-
# Piecework.Proofs.Number.Decimal — which texts are read as doubles, and as which.

The grammar is stated apart from the reader.  Behind an optional sign there is a numeral with an optional exponent,
or one of the words for infinity and for no number in any case of its letters (`Denotes`).  A numeral with an
exponent stands for its digits, moved by the exponent and by the places behind the point.  These are exactly the
texts that the reader takes, and it takes each for what it stands for (`readFloat?_eq_some_iff`).
-/
import Piecework.Proofs.Numeral

namespace Piecework.Number

open Infix (IsNumeral isNumeral placesOf)

/-! ## The grammar -/

/-- A sign, if there is one, and whether it is a minus. -/
inductive IsSign : Bool → List Char → Prop
  | none : IsSign false []
  | plus : IsSign false ['+']
  | minus : IsSign true ['-']

/-- An exponent, if there is one, and the number that it stands for. -/
inductive IsExponent : ℤ → List Char → Prop
  | none : IsExponent 0 []
  | mark {c : Char} {negative : Bool} {sign digits : List Char} (hmark : c = 'e' ∨ c = 'E')
      (hsign : IsSign negative sign) (hne : digits ≠ []) (hdigits : ∀ d ∈ digits, d.isDigit = true) :
      IsExponent (if negative then -(foldDigits 0 digits : ℤ) else foldDigits 0 digits)
        (c :: (sign ++ digits))

/-- The double that a numeral with a sign and an exponent stands for. -/
def scientific (negative : Bool) (run : List Char) (exponent : ℤ) : Float :=
  ofDecimal negative (foldDigits 0 (run.filter Char.isDigit)) (exponent - (placesOf run).length)

/-- A text that stands for a double. -/
inductive Denotes : List Char → Float → Prop
  | decimal {negative : Bool} {sign run tail : List Char} {exponent : ℤ} (hsign : IsSign negative sign)
      (hrun : IsNumeral run) (htail : IsExponent exponent tail) :
      Denotes (sign ++ (run ++ tail)) (scientific negative run exponent)
  | infinity {negative : Bool} {sign word : List Char} (hsign : IsSign negative sign)
      (hword : lowered word = "inf".toList ∨ lowered word = "infinity".toList) :
      Denotes (sign ++ word) (.ofBits (.ofNat (infinityBits + if negative then 2 ^ 63 else 0)))
  | noNumber {negative : Bool} {sign word : List Char} (hsign : IsSign negative sign)
      (hword : lowered word = "nan".toList) :
      Denotes (sign ++ word) (.ofBits (.ofNat (infinityBits + 2 ^ 51)))

/-! ## Signs -/

/-- A text splits into a sign and the rest. -/
theorem isSign_splitSign (text : List Char) :
    ∃ sign, IsSign (splitSign text).1 sign ∧ text = sign ++ (splitSign text).2 := by
  unfold splitSign
  split
  · exact ⟨_, .minus, rfl⟩
  · exact ⟨_, .plus, rfl⟩
  · exact ⟨_, .none, rfl⟩

/-- What does not start with a sign stays behind one. -/
theorem splitSign_of_isSign {negative : Bool} {sign rest : List Char} (h : IsSign negative sign)
    (hrest : ∀ c ∈ rest.head?, c ≠ '-' ∧ c ≠ '+') : splitSign (sign ++ rest) = (negative, rest) := by
  cases h with
  | plus => rfl
  | minus => rfl
  | none =>
    cases rest with
    | nil => rfl
    | cons c rest =>
      obtain ⟨hminus, hplus⟩ := hrest c rfl
      simp [splitSign, hminus, hplus]

/-! ## Exponents -/

theorem head_ne_sign_of_digits {digits : List Char} (h : ∀ d ∈ digits, d.isDigit = true) :
    ∀ c ∈ digits.head?, c ≠ '-' ∧ c ≠ '+' := by
  intro c hc
  have hdigit := h c (List.mem_of_mem_head? hc)
  obtain ⟨hminus, hplus, -⟩ := Infix.plain_of_mem_numerals (Infix.mem_numerals (Infix.isNumeral_of_isDigit hdigit))
  exact ⟨hminus, hplus⟩

theorem readExponent_eq_some_iff {text : List Char} {exponent : ℤ} :
    readExponent text = some exponent ↔ IsExponent exponent text := by
  constructor
  · intro h
    cases text with
    | nil =>
      obtain rfl := Option.some.inj h
      exact .none
    | cons c rest =>
      obtain ⟨sign, hsign, hrest⟩ := isSign_splitSign rest
      generalize hsplit : splitSign rest = split at hsign hrest
      obtain ⟨negative, digits⟩ := split
      simp only [readExponent, hsplit] at h
      by_cases hmark : c = 'e' ∨ c = 'E'
      · rw [if_pos hmark] at h
        by_cases hbad : digits = [] ∨ ¬∀ d ∈ digits, d.isDigit = true
        · rw [if_pos (by simpa using hbad)] at h
          cases h
        · rw [if_neg (by simpa using hbad)] at h
          obtain ⟨hne, hall⟩ := not_or.mp hbad
          obtain rfl := Option.some.inj h
          rw [hrest]
          exact .mark hmark hsign hne (not_not.mp hall)
      · rw [if_neg hmark] at h
        cases h
  · intro h
    cases h with
    | none => rfl
    | @mark c negative sign digits hmark hsign hne hdigits =>
      have hgood : (digits.isEmpty || !digits.all Char.isDigit) = false := by
        simpa [hne] using hdigits
      simp only [readExponent, hmark, if_true, splitSign_of_isSign hsign (head_ne_sign_of_digits hdigits), hgood,
        Bool.false_eq_true, if_false]

/-- An exponent does not go on like a numeral. -/
theorem IsExponent.head_ne {exponent : ℤ} {tail : List Char} (h : IsExponent exponent tail) :
    ∀ c ∈ tail.head?, isNumeral c = false := by
  cases h with
  | none => simp
  | mark hmark =>
    rintro c hc
    obtain rfl := Option.some.inj hc
    rcases hmark with rfl | rfl <;> decide

/-! ## The reader -/

/-- A numeral starts with no letter and no sign. -/
theorem exists_head_of_isNumeral {run : List Char} (h : IsNumeral run) :
    ∃ c rest, run = c :: rest ∧ isNumeral c = true := by
  obtain ⟨c, hc, -⟩ := h.digit
  cases run with
  | nil => cases hc
  | cons c rest => exact ⟨c, rest, rfl, h.numeral c List.mem_cons_self⟩

/-- Neither sign is a letter, so a word does not start with one. -/
theorem head_ne_sign_of_lowered {word : List Char} {c : Char} {rest : List Char} (h : lowered word = c :: rest)
    (hminus : c ≠ '-') (hplus : c ≠ '+') : ∀ d ∈ word.head?, d ≠ '-' ∧ d ≠ '+' := by
  rintro d hd
  obtain ⟨word, rfl⟩ := List.head?_eq_some_iff.mp hd
  have hlower : d.toLower = c := (List.cons.inj h).1
  constructor
  · rintro rfl
    exact hminus (hlower.symm.trans (by decide))
  · rintro rfl
    exact hplus (hlower.symm.trans (by decide))

theorem denotes_of_readFloat? {text : List Char} {value : Float} (h : readFloat? text = some value) :
    Denotes text value := by
  obtain ⟨sign, hsign, htext⟩ := isSign_splitSign text
  generalize hsplit : splitSign text = split at hsign htext
  obtain ⟨negative, rest⟩ := split
  simp only [readFloat?, hsplit] at h
  rw [htext]
  by_cases hinf : lowered rest = "inf".toList ∨ lowered rest = "infinity".toList
  · rw [if_pos hinf] at h
    exact Option.some.inj h ▸ .infinity hsign hinf
  rw [if_neg hinf] at h
  by_cases hnan : lowered rest = "nan".toList
  · rw [if_pos hnan] at h
    exact Option.some.inj h ▸ .noNumber hsign hnan
  rw [if_neg hnan] at h
  obtain ⟨⟨digits, places, tail⟩, hmantissa, h⟩ := Option.bind_eq_some_iff.mp h
  obtain ⟨exponent, hexponent, h⟩ := Option.bind_eq_some_iff.mp h
  obtain ⟨run, hrun, hrest, hdigits, hplaces⟩ := Infix.exists_of_readMantissa hmantissa
  obtain rfl := Option.some.inj h
  dsimp only at hrest hdigits hplaces ⊢
  rw [hrest, hdigits, hplaces]
  exact .decimal hsign hrun (readExponent_eq_some_iff.mp hexponent)

theorem readFloat?_of_denotes {text : List Char} {value : Float} (h : Denotes text value) :
    readFloat? text = some value := by
  cases h with
  | @decimal negative sign run tail exponent hsign hrun htail =>
    obtain ⟨c, rest, hhead, hc⟩ := exists_head_of_isNumeral hrun
    obtain ⟨hminus, hplus, -, -, hi, hn⟩ := Infix.plain_of_mem_numerals (Infix.mem_numerals hc)
    have hsplit : splitSign (sign ++ (run ++ tail)) = (negative, run ++ tail) := by
      refine splitSign_of_isSign hsign ?_
      rw [hhead, List.cons_append, List.head?_cons]
      rintro _ heq
      exact Option.some.inj heq ▸ ⟨hminus, hplus⟩
    have hword : lowered (run ++ tail) ≠ "inf".toList ∧ lowered (run ++ tail) ≠ "infinity".toList ∧
        lowered (run ++ tail) ≠ "nan".toList := by
      simp [hhead, lowered, hi, hn]
    simp only [readFloat?, hsplit, hword.1, hword.2.1, hword.2.2, or_self, if_false,
      Infix.readMantissa_append hrun htail.head_ne]
    simp only [readExponent_eq_some_iff.mpr htail, Option.bind_eq_bind, Option.bind_some]
    rfl
  | infinity hsign hword =>
    have hhead := hword.elim (head_ne_sign_of_lowered · (by decide) (by decide))
      (head_ne_sign_of_lowered · (by decide) (by decide))
    simp only [readFloat?, splitSign_of_isSign hsign hhead, hword, if_true]
  | noNumber hsign hword =>
    have hhead := head_ne_sign_of_lowered hword (by decide) (by decide)
    have hother : ¬("nan".toList = "inf".toList ∨ "nan".toList = "infinity".toList) := by decide
    simp only [readFloat?, splitSign_of_isSign hsign hhead, hword, hother, if_true, if_false]

/-- **The texts that are read as doubles** are those that stand for one, and each is read as what it stands for. -/
theorem readFloat?_eq_some_iff {text : List Char} {value : Float} :
    readFloat? text = some value ↔ Denotes text value :=
  ⟨denotes_of_readFloat?, readFloat?_of_denotes⟩

end Piecework.Number
