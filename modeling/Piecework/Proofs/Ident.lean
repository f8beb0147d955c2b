/-
# Piecework.Proofs.Ident — identities and their written forms.

Reading an identity takes up one digit after the other and drops what does not fit into the word.  Of a
word's own digits nothing is dropped, so every identity is read back from its written form
(`ofCharacters_characters`).  In general, 26 digits in either case are read, and nothing else is
(`ofCharacters_eq_ok_iff`).
-/
import Mathlib.Data.List.Forall2
import Piecework.Ident

namespace Piecework.Ident

/-- Each of the 32 characters is read as its digit, and is one byte long. -/
theorem digit?_digitChar :
    ∀ d < 32, digit? (digitChar d) = some d ∧ (digitChar d).utf8Size = 1 := by
  decide

theorem length_digitsBack (count n : Nat) : (digitsBack count n).length = count := by
  induction count generalizing n with
  | zero => rfl
  | succ count ih => rw [digitsBack, List.length_cons, ih]

/-- Nothing but the 32 characters is written. -/
theorem exists_of_mem_digitsBack {count n : Nat} {c : Char} (h : c ∈ digitsBack count n) :
    ∃ d < 32, c = digitChar d := by
  induction count generalizing n with
  | zero => cases h
  | succ count ih =>
    rw [digitsBack, List.mem_cons] at h
    rcases h with rfl | h
    · exact ⟨_, Nat.mod_lt _ (by decide), rfl⟩
    · exact ih h

theorem exists_of_mem_characters {word : BitVec 128} {c : Char} (h : c ∈ characters word) :
    ∃ d < 32, c = digitChar d :=
  exists_of_mem_digitsBack (List.mem_reverse.mp h)

theorem ofDigits_append (word : BitVec 128) (u v : List Char) :
    ofDigits word (u ++ v) = (ofDigits word u).bind fun word => ofDigits word v := by
  induction u generalizing word with
  | nil => rfl
  | cons c u ih =>
    rw [List.cons_append, ofDigits, ofDigits]
    cases digit? c with
    | none => rfl
    | some d => exact ih _

/-- The digits of a number are taken up behind what was read before them. -/
theorem ofDigits_digitsBack (a n count : Nat) :
    ofDigits (.ofNat 128 a) (digitsBack count n).reverse
      = .ok (.ofNat 128 (a * 32 ^ count + n % 32 ^ count)) := by
  induction count generalizing n with
  | zero => simp [digitsBack, ofDigits, Nat.mod_one]
  | succ count ih =>
    have hdigit := (digit?_digitChar (n % 32) (Nat.mod_lt _ (by decide))).1
    have hsplit : n % 32 ^ (count + 1) = n / 32 % 32 ^ count * 32 + n % 32 := by
      rw [Nat.pow_succ', Nat.mod_mul, Nat.add_comm, Nat.mul_comm 32]
    have hstep : (a * 32 ^ count + n / 32 % 32 ^ count) * 32 + n % 32
        = a * 32 ^ (count + 1) + n % 32 ^ (count + 1) := by
      rw [hsplit, Nat.pow_succ, Nat.add_mul, Nat.mul_assoc, Nat.add_assoc]
    rw [digitsBack, List.reverse_cons, ofDigits_append, ih (n / 32)]
    simp only [Except.bind, ofDigits, hdigit]
    congr 1
    apply BitVec.eq_of_toNat_eq
    rw [← hstep]
    simp [BitVec.toNat_add, BitVec.toNat_mul]

/-- **Every identity is read back** from its written form. -/
theorem ofCharacters_characters (word : BitVec 128) : ofCharacters (characters word) = .ok word := by
  have hlength : ((characters word).map Char.utf8Size).sum = textLength := by
    have hones : (characters word).map Char.utf8Size = List.replicate textLength 1 := by
      refine List.eq_replicate_iff.mpr ⟨?_, ?_⟩
      · rw [List.length_map, characters, List.length_reverse, length_digitsBack]
      · intro size hsize
        obtain ⟨c, hc, rfl⟩ := List.mem_map.mp hsize
        obtain ⟨d, hd, rfl⟩ := exists_of_mem_characters hc
        exact (digit?_digitChar d hd).2
    rw [hones]
    decide
  have hread := ofDigits_digitsBack 0 word.toNat textLength
  have hroom : 2 ^ 128 ≤ 32 ^ textLength := by decide
  have hfits : word.toNat % 32 ^ textLength = word.toNat :=
    Nat.mod_eq_of_lt (Nat.lt_of_lt_of_le word.isLt hroom)
  rw [Nat.zero_mul, Nat.zero_add, hfits, BitVec.ofNat_toNat, BitVec.setWidth_eq] at hread
  rw [ofCharacters, if_pos hlength]
  exact hread

/-! ## The texts that are read -/

/-- The character is one of the two written forms of the digit. -/
def Writes (c : Char) (d : Nat) : Prop := d < 32 ∧ (c = digitChar d ∨ c = (digitChar d).toLower)

/-- The number that so many digits make, each worth 32 times the next. -/
def valueOf (digits : List Nat) : Nat := digits.foldl (fun n d => n * 32 + d) 0

/-- The text consists of 26 digits, which make the word when what does not fit is dropped. -/
def Spells (text : List Char) (word : BitVec 128) : Prop :=
  ∃ digits, digits.length = textLength ∧ List.Forall₂ Writes text digits ∧ word = .ofNat 128 (valueOf digits)

/-- The forms in lower case are read, too, and are one byte long. -/
theorem digit?_toLower :
    ∀ d < 32, digit? (digitChar d).toLower = some d ∧ (digitChar d).toLower.utf8Size = 1 := by
  decide

/-- A character is in upper case, or it is the lower case of its upper case. -/
theorem toUpper_eq_or (c : Char) : c.toUpper = c ∨ c.toUpper.toLower = c := by
  delta Char.toUpper
  split
  · right
    delta Char.toLower
    split
    · apply Char.ext
      simp only
      grind
    · grind
  · exact Or.inl rfl

theorem digit?_eq_some_iff {c : Char} {d : Nat} : digit? c = some d ↔ Writes c d := by
  constructor
  · intro h
    simp only [digit?] at h
    split_ifs at h with hlt
    obtain rfl := Option.some.inj h
    have hchar : digitChar (alphabet.idxOf c.toUpper) = c.toUpper := by
      rw [digitChar, List.getD_eq_getElem?_getD, List.getElem?_eq_getElem hlt, Option.getD_some,
        List.getElem_idxOf]
    refine ⟨hlt, ?_⟩
    rw [hchar]
    exact (toUpper_eq_or c).imp Eq.symm Eq.symm
  · rintro ⟨hd, rfl | rfl⟩
    · exact (digit?_digitChar d hd).1
    · exact (digit?_toLower d hd).1

/-- What is read has as many bytes as digits. -/
theorem sum_utf8Size_of_writes {text : List Char} {digits : List Nat} (h : List.Forall₂ Writes text digits) :
    (text.map Char.utf8Size).sum = digits.length := by
  induction h with
  | nil => rfl
  | @cons c d text digits hwrites _ ih =>
    have hone : c.utf8Size = 1 := by
      obtain ⟨hd, rfl | rfl⟩ := hwrites
      · exact (digit?_digitChar d hd).2
      · exact (digit?_toLower d hd).2
    rw [List.map_cons, List.sum_cons, ih, hone, List.length_cons, Nat.add_comm]

/-- Digits are read one after the other, behind what was read before them. -/
theorem ofDigits_eq_ok_iff {text : List Char} {a : Nat} {word : BitVec 128} :
    ofDigits (.ofNat 128 a) text = .ok word ↔
      ∃ digits, List.Forall₂ Writes text digits ∧
        word = .ofNat 128 (digits.foldl (fun n d => n * 32 + d) a) := by
  induction text generalizing a with
  | nil => simp [ofDigits, eq_comm]
  | cons c text ih =>
    rw [ofDigits]
    cases hdigit : digit? c with
    | none =>
      refine iff_of_false (by simp) ?_
      rintro ⟨digits, hwrites, -⟩
      obtain ⟨d, _, hd, -, -⟩ := List.forall₂_cons_left_iff.mp hwrites
      rw [digit?_eq_some_iff.mpr hd] at hdigit
      cases hdigit
    | some d =>
      have hstep : (BitVec.ofNat 128 a * 32 + .ofNat 128 d) = .ofNat 128 (a * 32 + d) := by
        rw [BitVec.ofNat_add, BitVec.ofNat_mul]
        rfl
      dsimp only
      rw [hstep, ih]
      constructor
      · rintro ⟨digits, hwrites, hword⟩
        exact ⟨d :: digits, .cons (digit?_eq_some_iff.mp hdigit) hwrites, hword⟩
      · rintro ⟨digits, hwrites, hword⟩
        obtain ⟨d', digits, hd, hrest, rfl⟩ := List.forall₂_cons_left_iff.mp hwrites
        obtain rfl : d' = d := Option.some.inj ((digit?_eq_some_iff.mpr hd).symm.trans hdigit)
        exact ⟨digits, hrest, hword⟩

/-- **The texts that are read as identities** are those that spell a word. -/
theorem ofCharacters_eq_ok_iff {text : List Char} {word : BitVec 128} :
    ofCharacters text = .ok word ↔ Spells text word := by
  have hread : ofDigits 0 text = .ok word ↔ _ := ofDigits_eq_ok_iff (a := 0)
  rw [ofCharacters]
  constructor
  · intro h
    split_ifs at h with hlength
    obtain ⟨digits, hwrites, hword⟩ := hread.mp h
    exact ⟨digits, (sum_utf8Size_of_writes hwrites).symm.trans hlength, hwrites, hword⟩
  · rintro ⟨digits, hlength, hwrites, hword⟩
    rw [if_pos ((sum_utf8Size_of_writes hwrites).trans hlength)]
    exact hread.mpr ⟨digits, hwrites, hword⟩

end Piecework.Ident

namespace Piecework

theorem TaskId.length_text (id : TaskId) : id.text.toList.length = Ident.textLength := by
  rw [text, String.toList_ofList, Ident.characters, List.length_reverse, Ident.length_digitsBack]

theorem TaskId.ofText_text (id : TaskId) : TaskId.ofText id.text = .ok id := by
  rw [ofText, text, String.toList_ofList, Ident.ofCharacters_characters]
  rfl

theorem ExpressionId.ofText_text (id : ExpressionId) : ExpressionId.ofText id.text = .ok id := by
  rw [ofText, text, String.toList_ofList, Ident.ofCharacters_characters]
  rfl

end Piecework
