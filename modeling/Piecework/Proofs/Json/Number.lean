/-
# Piecework.Proofs.Json.Number — reading numbers that were written.

A number is read digit by digit into a word and a power of ten.  On a run of digits whose number fits into
the word nothing is lost on the way (`readWhole_run`, `readPlaces_run`), so each of the forms in which a
double is written leads to one word and one power, `spelled` (`readUnsigned_magnitude`).
-/
import Piecework.Json.Number
import Piecework.Proofs.Json.Codec
import Piecework.Proofs.Number.Digits

namespace Piecework.Json

open Number (foldDigits decimal)

/-! ## Behind a number -/

/-- What follows does not go on with a run of digits. -/
def EndsRun (rest : List Char) : Prop := ∀ c ∈ rest.head?, c.isDigit = false

theorem endsRun_cons {c : Char} (h : c.isDigit = false) (rest : List Char) : EndsRun (c :: rest) := by
  rintro d hd
  rw [List.head?_cons, Option.mem_some_iff] at hd
  exact hd ▸ h

theorem IsBoundary.endsRun {rest : List Char} (h : IsBoundary rest) : EndsRun rest := by
  cases rest with
  | nil => simp [EndsRun]
  | cons c rest => rcases h with rfl | rfl | rfl <;> exact endsRun_cons (by decide) rest

/-- A boundary starts neither a fraction nor an exponent. -/
theorem IsBoundary.head_ne {c : Char} {rest : List Char} (h : IsBoundary (c :: rest)) :
    c ≠ '.' ∧ c ≠ 'e' ∧ c ≠ 'E' := by
  rcases h with rfl | rfl | rfl <;> decide

theorem finishNumber_boundary (negative : Bool) (word : Nat) (power : Int) {rest : List Char}
    (h : IsBoundary rest) : finishNumber negative word power rest = assemble negative word power rest := by
  cases rest with
  | nil => rfl
  | cons c rest => simp [finishNumber, h.head_ne]

theorem finishInteger_boundary (word : Nat) {rest : List Char} (h : IsBoundary rest) :
    finishInteger false word rest = .ok (.integer word, rest) := by
  cases rest with
  | nil => simp [finishInteger]
  | cons c rest => simp [finishInteger, h.head_ne]

/-! ## Runs of digits -/

/-- Whole digits go into the word as long as it has room. -/
theorem readWhole_run (negative : Bool) {rest : List Char} (hrest : EndsRun rest) :
    ∀ (run : List Char) (word : Nat), (∀ c ∈ run, c.isDigit = true) → foldDigits word run < 2 ^ 64 →
      readWhole negative word (run ++ rest) = finishInteger negative (foldDigits word run) rest
  | [], word, _, _ => by
    cases rest with
    | nil => rfl
    | cons c rest => simp [readWhole, hrest c rfl]
  | c :: run, word, hrun, hlt => by
    have hroom := Number.le_foldDigits (10 * word + Number.digitValue c) run
    rw [Number.foldDigits_cons] at hlt
    have hfits : overflows word (Number.digitValue c) = false := by
      simp only [overflows, decide_eq_false_iff_not]
      omega
    rw [List.cons_append, readWhole, if_pos (hrun c List.mem_cons_self), hfits,
      if_neg Bool.false_ne_true, Number.foldDigits_cons, Nat.mul_comm word 10]
    exact readWhole_run negative hrest run _ (fun d hd => hrun d (List.mem_cons_of_mem _ hd)) hlt

/-- Places go into the word too, and each of them lowers the power of ten. -/
theorem readPlaces_run (negative : Bool) {rest : List Char} (hrest : EndsRun rest) :
    ∀ (run : List Char) (word : Nat) (power : Int) (any : Bool), (∀ c ∈ run, c.isDigit = true) →
      foldDigits word run < 2 ^ 64 → (any = true ∨ run ≠ []) →
      readPlaces negative word power any (run ++ rest)
        = finishNumber negative (foldDigits word run) (power - run.length) rest
  | [], word, power, any, _, _, hany => by
    have hany : any = true := by simpa using hany
    subst hany
    cases rest with
    | nil => simp [readPlaces]
    | cons c rest => simp [readPlaces, hrest c rfl]
  | c :: run, word, power, any, hrun, hlt, _ => by
    have hroom := Number.le_foldDigits (10 * word + Number.digitValue c) run
    rw [Number.foldDigits_cons] at hlt
    have hfits : overflows word (Number.digitValue c) = false := by
      simp only [overflows, decide_eq_false_iff_not]
      omega
    rw [List.cons_append, readPlaces, if_pos (hrun c List.mem_cons_self), hfits,
      if_neg Bool.false_ne_true, Nat.mul_comm word 10,
      readPlaces_run negative hrest run _ _ true (fun d hd => hrun d (List.mem_cons_of_mem _ hd)) hlt
        (Or.inl rfl)]
    congr 1
    rw [List.length_cons]
    omega

theorem exponentDigits_run {rest : List Char} (hrest : EndsRun rest) :
    ∀ (run : List Char) (n : Nat), (∀ c ∈ run, c.isDigit = true) → foldDigits n run < 2 ^ 31 →
      exponentDigits n (run ++ rest) = (some (foldDigits n run), rest)
  | [], n, _, _ => by
    cases rest with
    | nil => rfl
    | cons c rest => simp [exponentDigits, hrest c rfl]
  | c :: run, n, hrun, hlt => by
    have hroom := Number.le_foldDigits (10 * n + Number.digitValue c) run
    rw [Number.foldDigits_cons] at hlt
    have hfits : ¬ 2 ^ 31 ≤ n * 10 + Number.digitValue c := by omega
    rw [List.cons_append, exponentDigits, if_pos (hrun c List.mem_cons_self), Number.foldDigits_cons]
    simp only [if_neg hfits]
    rw [Nat.mul_comm n 10]
    exact exponentDigits_run hrest run _ (fun d hd => hrun d (List.mem_cons_of_mem _ hd)) hlt

/-! ## Whole digits, fractions and exponents -/

/-- The digits in front of the point: at least one, and none behind a leading zero. -/
structure IsWhole (run : List Char) : Prop where
  digits : ∀ c ∈ run, c.isDigit = true
  nonempty : run ≠ []
  head : run.head? ≠ some '0' ∨ run = ['0']

theorem isWhole_decimal (n : Nat) : IsWhole (decimal n) where
  digits _ := Number.isDigit_of_mem_decimal
  nonempty := Number.decimal_ne_nil n
  head := by
    rcases Nat.eq_zero_or_pos n with rfl | hpos
    · exact Or.inr rfl
    · exact Or.inl (Number.head?_decimal_ne hpos)

/-- The digits of a positive number stay whole digits when some behind are cut off or added. -/
theorem isWhole_take {digits : Nat} (hpos : 0 < digits) (cut : Nat) (hcut : 0 < cut) :
    IsWhole ((decimal digits).take cut) where
  digits _ hc := Number.isDigit_of_mem_decimal (List.mem_of_mem_take hc)
  nonempty := by
    have := Number.decimal_ne_nil digits
    simp only [ne_eq, List.take_eq_nil_iff, this, or_false]
    omega
  head := by
    rw [List.head?_take, if_neg (by omega)]
    exact Or.inl (Number.head?_decimal_ne hpos)

theorem isWhole_zeros {digits : Nat} (hpos : 0 < digits) (zeros : Nat) :
    IsWhole (decimal digits ++ List.replicate zeros '0') where
  digits c hc := (List.mem_append.mp hc).elim Number.isDigit_of_mem_decimal Number.isDigit_of_mem_zeros
  nonempty := by simp [Number.decimal_ne_nil]
  head := by
    rw [List.head?_append, Option.or_of_isSome (by simp [Number.decimal_ne_nil])]
    exact Or.inl (Number.head?_decimal_ne hpos)

/-- Whole digits are read into the word. -/
theorem readUnsigned_whole (negative : Bool) {run rest : List Char} (hrun : IsWhole run)
    (hlt : foldDigits 0 run < 2 ^ 64) (hrest : EndsRun rest) :
    readUnsigned negative (run ++ rest) = finishInteger negative (foldDigits 0 run) rest := by
  rcases hrun.head with hhead | rfl
  · cases run with
    | nil => exact absurd rfl hrun.nonempty
    | cons c run =>
      have hc : c ≠ '0' := by simpa using hhead
      rw [Number.foldDigits_cons, Nat.mul_zero, Nat.zero_add] at hlt ⊢
      simp only [List.cons_append, readUnsigned, hc, hrun.digits c List.mem_cons_self, if_false,
        if_true]
      exact readWhole_run negative hrest run _
        (fun d hd => hrun.digits d (List.mem_cons_of_mem _ hd)) hlt
  · cases rest with
    | nil => rfl
    | cons c rest => simp [readUnsigned, hrest c rfl, Number.digitValue]

/-- **Whole digits with places behind a point** are read as one word, and the places lower its power of
ten. -/
theorem readUnsigned_point (negative : Bool) {run rest : List Char} (hrun : IsWhole run)
    (places : List Char) (hplaces : ∀ c ∈ places, c.isDigit = true) (hne : places ≠ [])
    (hlt : foldDigits 0 (run ++ places) < 2 ^ 64) (hrest : EndsRun rest) :
    readUnsigned negative (run ++ '.' :: (places ++ rest))
      = finishNumber negative (foldDigits 0 (run ++ places)) (-places.length) rest := by
  rw [Number.foldDigits_append] at hlt ⊢
  have hwhole := Number.le_foldDigits (foldDigits 0 run) places
  have hpoint (word : Nat) : finishInteger negative word ('.' :: (places ++ rest))
      = readPlaces negative word 0 false (places ++ rest) := by
    simp [finishInteger, readTail]
  rw [readUnsigned_whole negative hrun (by omega) (endsRun_cons (by decide) _), hpoint,
    readPlaces_run negative hrest places _ 0 false hplaces hlt (Or.inr hne), Int.zero_sub]

/-- An exponent is added to the power of ten. -/
theorem readScaled_decimal (negative : Bool) (word : Nat) (start : Int) {leading : Int}
    (hbound : leading.natAbs < 2 ^ 31) {rest : List Char} (hrest : EndsRun rest) :
    readScaled negative word start
        ((if leading < 0 then '-' else '+') :: (decimal leading.natAbs ++ rest))
      = assemble negative word (start + leading) rest := by
  have hfold := Number.foldDigits_decimal leading.natAbs
  have hrun : ∀ c ∈ decimal leading.natAbs, c.isDigit = true :=
    fun c => Number.isDigit_of_mem_decimal
  have hsign : Number.splitSign ((if leading < 0 then '-' else '+') :: (decimal leading.natAbs ++ rest))
      = (decide (leading < 0), decimal leading.natAbs ++ rest) := by
    by_cases hneg : leading < 0 <;> simp [hneg, Number.splitSign]
  cases hdigits : decimal leading.natAbs with
  | nil => exact absurd hdigits (Number.decimal_ne_nil _)
  | cons c run =>
    rw [hdigits] at hfold hrun hsign
    rw [Number.foldDigits_cons, Nat.mul_zero, Nat.zero_add] at hfold
    have hread := exponentDigits_run hrest run (Number.digitValue c)
      (fun d hd => hrun d (List.mem_cons_of_mem _ hd)) (by rw [hfold]; exact hbound)
    rw [readScaled, hsign]
    simp only [List.cons_append, hrun c List.mem_cons_self, if_true, hread, hfold, decide_eq_true_eq]
    congr 1
    split <;> omega

/-! ## Natural numbers of 64 bits -/

theorem isSpace_of_startsNumber {c : Char} (h : startsNumber c = true) : isSpace c = false := by
  by_contra hspace
  simp only [isSpace, Bool.not_eq_false, Bool.or_eq_true, decide_eq_true_eq] at hspace
  rcases hspace with ((rfl | rfl) | rfl) | rfl <;> exact absurd h (by decide)

theorem readNumber_of_isDigit {c : Char} (h : c.isDigit = true) (rest : List Char) :
    readNumber (c :: rest) = readUnsigned false (c :: rest) := by
  have hminus : c ≠ '-' := by
    rintro rfl
    exact absurd h (by decide)
  rw [readNumber.eq_def]
  split
  · simp_all
  · rfl

/-- Where a number starts, it is read and fitted to the type. -/
theorem readFitting_of_startsNumber (expected : String) {fit : Numeral → Except Cause α} {c : Char}
    {text rest : List Char} {n : Numeral} {a : α} (h : startsNumber c = true)
    (hread : readNumber (c :: text) = .ok (n, rest)) (hfit : fit n = .ok a) :
    readFitting expected fit (c :: text) = .ok (a, rest) := by
  rw [readFitting, skipSpace_cons (isSpace_of_startsNumber h)]
  simp only [h, if_true, hread, hfit]

/-- **Words** are carried as themselves. -/
theorem Codec.carries_word (n : UInt64) : Codec.word.Carries n n := by
  intro rest hrest
  have hread := readUnsigned_whole false (isWhole_decimal n.toNat)
    (by rw [Number.foldDigits_decimal]; exact n.toNat_lt) hrest.endsRun
  rw [Number.foldDigits_decimal, finishInteger_boundary _ hrest] at hread
  simp only [Codec.word]
  cases hdigits : decimal n.toNat with
  | nil => exact absurd hdigits (Number.decimal_ne_nil _)
  | cons c run =>
    have hc : c.isDigit = true := Number.isDigit_of_mem_decimal (hdigits ▸ List.mem_cons_self)
    rw [hdigits, List.cons_append, ← readNumber_of_isDigit hc] at hread
    exact readFitting_of_startsNumber "u64" (by simp [startsNumber, hc]) hread (by simp)

/-! ## The forms of a double -/

section Forms

variable (negative : Bool) {digits : Nat} {rest : List Char}

/-- With a point, a number ends where its places do. -/
theorem readUnsigned_places {run : List Char} (hrun : IsWhole run) (places : List Char)
    (hplaces : ∀ c ∈ places, c.isDigit = true) (hne : places ≠ []) {word : Nat}
    (hword : foldDigits 0 (run ++ places) = word) (hlt : word < 2 ^ 64) (hrest : IsBoundary rest) :
    readUnsigned negative (run ++ '.' :: (places ++ rest))
      = assemble negative word (-places.length) rest := by
  subst hword
  rw [readUnsigned_point negative hrun places hplaces hne hlt hrest.endsRun,
    finishNumber_boundary _ _ _ hrest]

/-- Zeros behind the digits of a whole number, and a point with one more. -/
theorem readUnsigned_behind (hpos : 0 < digits) (zeros : Nat) (hlt : digits * 10 ^ (zeros + 1) < 2 ^ 64)
    (hrest : IsBoundary rest) :
    readUnsigned negative (decimal digits ++ List.replicate zeros '0' ++ '.' :: '0' :: rest)
      = assemble negative (digits * 10 ^ (zeros + 1)) (-1) rest := by
  refine readUnsigned_places negative (isWhole_zeros hpos zeros) ['0'] (List.forall_mem_singleton.mpr rfl)
    (by simp) ?_ hlt hrest
  rw [Number.foldDigits_append, Number.foldDigits_append, Number.foldDigits_decimal,
    Number.foldDigits_replicate_zero, Number.foldDigits_cons, Number.foldDigits_nil, Nat.pow_succ]
  simp only [Number.digitValue, Nat.sub_self, Nat.add_zero]
  ac_rfl

/-- A point between two digits. -/
theorem readUnsigned_between (hpos : 0 < digits) {cut places : Nat} (hcut : 0 < cut) (hplaces : 0 < places)
    (hsum : cut + places = (decimal digits).length) (hlt : digits < 2 ^ 64) (hrest : IsBoundary rest) :
    readUnsigned negative ((decimal digits).take cut ++ '.' :: ((decimal digits).drop cut ++ rest))
      = assemble negative digits (-places) rest := by
  have hlength : ((decimal digits).drop cut).length = places := by
    rw [List.length_drop]
    omega
  rw [← hlength]
  refine readUnsigned_places negative (isWhole_take hpos cut hcut) ((decimal digits).drop cut)
    (fun c hc => Number.isDigit_of_mem_decimal (List.mem_of_mem_drop hc)) ?_ ?_ hlt hrest
  · rw [← List.length_pos_iff, hlength]
    exact hplaces
  · rw [List.take_append_drop, Number.foldDigits_decimal]

/-- A zero and a point in front of all digits, with zeros between. -/
theorem readUnsigned_inFront (zeros : Nat) (hlt : digits < 2 ^ 64) (hrest : IsBoundary rest) :
    readUnsigned negative ('0' :: '.' :: (List.replicate zeros '0' ++ decimal digits ++ rest))
      = assemble negative digits (-(zeros + (decimal digits).length : Nat)) rest := by
  have hlength : (List.replicate zeros '0' ++ decimal digits).length = zeros + (decimal digits).length := by
    rw [List.length_append, List.length_replicate]
  rw [← hlength]
  refine readUnsigned_places negative (isWhole_decimal 0) (List.replicate zeros '0' ++ decimal digits)
    (fun c hc => (List.mem_append.mp hc).elim Number.isDigit_of_mem_zeros Number.isDigit_of_mem_decimal)
    (by simp [Number.decimal_ne_nil]) ?_ hlt hrest
  rw [Number.foldDigits_append, Number.foldDigits_decimal, Number.foldDigits_append,
    Number.foldDigits_replicate_zero, Nat.mul_zero, Number.foldDigits_decimal]

/-- Without an exponent the digits have zeros behind them, a point between two of them, or a point and
zeros in front. -/
theorem readUnsigned_positional (hpos : 0 < digits) {power : Int}
    (hlt : (if 0 ≤ power then digits * 10 ^ (power.toNat + 1) else digits) < 2 ^ 64)
    (hrest : IsBoundary rest) :
    readUnsigned negative (Number.positionalText true (decimal digits) power ++ rest)
      = if 0 ≤ power then assemble negative (digits * 10 ^ (power.toNat + 1)) (-1) rest
        else assemble negative digits power rest := by
  rw [Number.positionalText]
  by_cases hwhole : 0 ≤ power
  · rw [if_pos hwhole] at hlt
    simpa [hwhole] using readUnsigned_behind negative hpos power.toNat hlt hrest
  rw [if_neg hwhole] at hlt
  rw [if_neg hwhole, if_neg hwhole]
  have hplaces : (-power).toNat ≠ 0 := by omega
  by_cases hinside : (-power).toNat < (decimal digits).length
  · have hread := readUnsigned_between negative hpos (Nat.sub_pos_of_lt hinside)
      (Nat.pos_of_ne_zero hplaces) (Nat.sub_add_cancel hinside.le) hlt hrest
    rw [show -((-power).toNat : Int) = power by omega] at hread
    simpa [hinside] using hread
  · have hread := readUnsigned_inFront negative ((-power).toNat - (decimal digits).length) hlt hrest
    rw [Nat.sub_add_cancel (Nat.le_of_not_lt hinside), show -((-power).toNat : Int) = power by omega] at hread
    simpa [hinside] using hread

/-- With an exponent: one digit before the point and the others behind it. -/
theorem readUnsigned_scientific (hpos : 0 < digits) (hlt : digits < 2 ^ 64) {power leading : Int}
    (hleading : leading = power + ((decimal digits).length - 1 : Nat))
    (hbound : leading.natAbs < 2 ^ 31) (hrest : IsBoundary rest) :
    readUnsigned negative (Number.scientificText true (decimal digits) leading ++ rest)
      = assemble negative digits power rest := by
  have hfold := Number.foldDigits_decimal digits
  have hscaled (start : Int) := readScaled_decimal negative digits start hbound hrest.endsRun
  have hmark : (if leading < 0 then ['e', '-'] else if true = true then ['e', '+'] else ['e'])
      = ['e', if leading < 0 then '-' else '+'] := by
    split <;> rfl
  rw [Number.scientificText, hmark]
  have hfirst := isWhole_take hpos 1 Nat.one_pos
  cases hdigits : decimal digits with
  | nil => exact absurd hdigits (Number.decimal_ne_nil digits)
  | cons c more =>
    rw [hdigits] at hfold hleading hfirst
    change IsWhole [c] at hfirst
    have hsum : -(more.length : Int) + leading = power := by
      rw [hleading, List.length_cons]
      omega
    -- Behind the exponent's letter the two cases go on alike.
    have hexponent (start : Int) (text : List Char) :
        finishNumber negative digits start ('e' :: text) = readScaled negative digits start text := by
      simp [finishNumber]
    have hinteger (text : List Char) :
        finishInteger negative digits ('e' :: text) = readScaled negative digits 0 text := by
      simp [finishInteger, readTail, finishNumber]
    have hmore : EndsRun ('e' :: (if leading < 0 then '-' else '+') :: (decimal leading.natAbs ++ rest)) :=
      endsRun_cons (by decide) _
    have hrun : foldDigits 0 ([c] ++ more) = digits := hfold
    cases more with
    | nil =>
      have hread := readUnsigned_whole negative hfirst (by simpa [hfold] using hlt) hmore
      rw [hfold, hinteger, hscaled] at hread
      rw [← hsum]
      simpa using hread
    | cons d more =>
      have hread := readUnsigned_point negative hfirst (d :: more)
        (fun e he => Number.isDigit_of_mem_decimal (hdigits ▸ List.mem_cons_of_mem c he)) (by simp)
        (lt_of_eq_of_lt hrun hlt) hmore
      rw [hrun, hexponent, hscaled, hsum] at hread
      simpa using hread

end Forms

end Piecework.Json
