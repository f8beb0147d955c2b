/-
# Piecework.Proofs.Spelling — the texts that spell a sequence of symbols.

`Spells w text` says that a text is one of the ways to write the symbols `w`: operators and brackets as
their characters, numbers as numerals that the text does not continue, and blanks anywhere between
symbols, before the first and behind the last.  The relation knows nothing of positions or faults.  The
scanner finds exactly these symbols, and no fault, in every text that spells them (`scan_spells`).
-/
import Piecework.Proofs.Numeral

namespace Piecework.Infix

/-- A text that does not go on with a digit or a point. -/
def Stops (text : List Char) : Prop := ∀ c ∈ text.head?, isNumeral c = false

instance (text : List Char) : Decidable (Stops text) :=
  decidable_of_iff (text.head?.all (fun c => !isNumeral c) = true) (by
    simp only [Stops, Option.all_eq_true, Bool.not_eq_true', Option.mem_def])

/-- The ways to write a sequence of symbols. -/
inductive Spells : List Symbol → List Char → Prop
  | done : Spells [] []
  | blank {w : List Symbol} {text : List Char} {c : Char} :
      Text.isBlank c = true → Spells w text → Spells w (c :: text)
  | operator {w : List Symbol} {text : List Char} (o : Operation) :
      Spells w text → Spells (.operator o :: w) (o.symbol :: text)
  | opening {w : List Symbol} {text : List Char} :
      Spells w text → Spells (.opening :: w) ('(' :: text)
  | closing {w : List Symbol} {text : List Char} :
      Spells w text → Spells (.closing :: w) (')' :: text)
  | number {w : List Symbol} {text run : List Char} :
      IsNumeral run → Number.isFinite (numeralValue run) = true → Stops text → Spells w text →
      Spells (.number (numeralValue run) :: w) (run ++ text)

/-! ## Characters of different kinds -/

theorem not_isBlank_of_mem_numerals {c : Char} (h : c ∈ numerals) : Text.isBlank c = false := by
  have hall : numerals.all (fun c => !Text.isBlank c) = true := by decide
  simpa using List.all_eq_true.mp hall c h

theorem ofSymbol?_eq_none {c : Char} (h : ∀ o : Operation, o.symbol ≠ c) :
    Operation.ofSymbol? c = none := by
  cases ho : Operation.ofSymbol? c with
  | none => rfl
  | some o => exact absurd (Operation.ofSymbol?_eq_some_iff.mp ho) (h o)

/-- A blank is no part of any symbol. -/
theorem blank_apart {c : Char} (h : Text.isBlank c = true) :
    isNumeral c = false ∧ Operation.ofSymbol? c = none ∧ c ≠ '(' ∧ c ≠ ')' := by
  refine ⟨?_, ofSymbol?_eq_none fun o ho => ?_, ?_, ?_⟩
  · by_contra hc
    rw [not_isBlank_of_mem_numerals (mem_numerals (by simpa using hc))] at h
    exact Bool.false_ne_true h
  · rw [← ho] at h
    cases o <;> exact absurd h (by decide)
  all_goals
    rintro rfl
    exact absurd h (by decide)

theorem not_isNumeral_symbol (o : Operation) : isNumeral o.symbol = false := by
  cases o <;> decide

/-! ## What the scanner does with one symbol -/

theorem scanFrom_nil (position : Nat) : scanFrom position [] = ⟨[], none⟩ := by
  rw [scanFrom]

theorem scanFrom_blank (position : Nat) {c : Char} (text : List Char)
    (h : Text.isBlank c = true) :
    scanFrom position (c :: text) = scanFrom (position + c.utf8Size) text := by
  obtain ⟨hn, ho, hl, hr⟩ := blank_apart h
  rw [scanFrom]
  simp [hn, ho, hl, hr, h]

theorem scanFrom_operator (position : Nat) (o : Operation) (text : List Char) :
    scanFrom position (o.symbol :: text) = (scanFrom (position + 1) text).cons (.operator o) := by
  rw [scanFrom]
  simp [not_isNumeral_symbol o, Operation.ofSymbol?_eq_some_iff.mpr rfl]

theorem scanFrom_opening (position : Nat) (text : List Char) :
    scanFrom position ('(' :: text) = (scanFrom (position + 1) text).cons .opening := by
  have ho : Operation.ofSymbol? '(' = none := by decide
  have hn : isNumeral '(' = false := by decide
  rw [scanFrom]
  simp [hn, ho]

theorem scanFrom_closing (position : Nat) (text : List Char) :
    scanFrom position (')' :: text) = (scanFrom (position + 1) text).cons .closing := by
  have ho : Operation.ofSymbol? ')' = none := by decide
  have hn : isNumeral ')' = false := by decide
  rw [scanFrom]
  simp [hn, ho]

/-- A run of digits and points is read as a whole where the text does not continue it. -/
theorem scanFrom_numerals (position : Nat) {run text : List Char} (hne : run ≠ [])
    (h : ∀ c ∈ run, isNumeral c = true) (hs : Stops text) :
    scanFrom position (run ++ text) =
      match readNumber run with
      | .ok value => (scanFrom (position + run.length) text).cons (.number value)
      | .error fault => ⟨[], some fault⟩ := by
  -- What follows the run does not begin with a character of a numeral, so the run ends where it should.
  have hdrop : text.dropWhile isNumeral = text := by
    cases text with
    | nil => rfl
    | cons c rest => exact List.dropWhile_cons_of_neg (by simp [hs c rfl])
  have htake : text.takeWhile isNumeral = [] := by
    cases text with
    | nil => rfl
    | cons c rest => exact List.takeWhile_cons_of_neg (by simp [hs c rfl])
  cases run with
  | nil => exact absurd rfl hne
  | cons c rest =>
    have hrest : ∀ d ∈ rest, isNumeral d = true := fun d hd => h d (List.mem_cons_of_mem c hd)
    have hc : isNumeral c = true := h c List.mem_cons_self
    rw [List.cons_append, scanFrom]
    cases hread : readNumber (c :: rest) with
    | ok value =>
      simp only [hc, if_true, List.takeWhile_append_of_pos hrest, List.dropWhile_append_of_pos hrest,
        htake, hdrop, List.append_nil, hread]
    | error fault =>
      simp only [hc, if_true, List.takeWhile_append_of_pos hrest, htake, List.append_nil, hread]

/-- A run that reads as a number is one symbol. -/
theorem scanFrom_run (position : Nat) {run text : List Char} {value : Float}
    (h : IsNumeral run) (hs : Stops text) (hv : readNumber run = .ok value) :
    scanFrom position (run ++ text)
      = (scanFrom (position + run.length) text).cons (.number value) := by
  obtain ⟨c, hc, -⟩ := h.digit
  rw [scanFrom_numerals position (List.ne_nil_of_mem hc) h.numeral hs, hv]

/-! ## Spelled texts are scanned to their symbols -/

/-- In a text that spells symbols the scanner finds these symbols and no fault. -/
theorem scanFrom_spells {w : List Symbol} {text : List Char} (h : Spells w text) (position : Nat) :
    scanFrom position text = ⟨w, none⟩ := by
  induction h generalizing position with
  | done => exact scanFrom_nil position
  | blank hc _ ih => rw [scanFrom_blank position _ hc, ih]
  | operator o _ ih => rw [scanFrom_operator, ih, Scan.cons]
  | opening _ ih => rw [scanFrom_opening, ih, Scan.cons]
  | closing _ ih => rw [scanFrom_closing, ih, Scan.cons]
  | @number w text run hn hf hs _ ih =>
    have hv : readNumber run = .ok (numeralValue run) :=
      (readNumber_eq_ok_iff hn.numeral).mpr ⟨hn, hf, rfl⟩
    rw [scanFrom_run position hn hs hv, ih, Scan.cons]

theorem scan_spells {w : List Symbol} {text : String} (h : Spells w text.toList) :
    scan text = ⟨w, none⟩ :=
  scanFrom_spells h 0

end Piecework.Infix
