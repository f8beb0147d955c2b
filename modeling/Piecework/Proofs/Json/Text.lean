/-
# Piecework.Proofs.Json.Text — a string reads back as it was written.

A string is written and read one character at a time, so that it reads back is a statement about one
character (`readCharacter_escaped`) and an induction over the string (`readCharacters_escaped`).  It
holds of every string: controls, quotes and backslashes have escapes, and all else stands for itself.
-/
import Piecework.Json.Text

namespace Piecework.Json

/-! ## Blanks -/

theorem skipSpace_cons {c : Char} (h : isSpace c = false) (rest : List Char) :
    skipSpace (c :: rest) = c :: rest := by
  rw [skipSpace, List.dropWhile_cons_of_neg (by simp [h])]

/-! ## One character -/

theorem hexValue?_hexDigit {n : Nat} (h : n < 16) : hexValue? (hexDigit n) = some n := by
  have hall : ∀ m : Fin 16, hexValue? (hexDigit m) = some m.val := by decide
  exact hall ⟨n, h⟩

/-- The four digits of a control read as its code. -/
theorem readHex_control {n : Nat} (h : n < 0x20) (rest : List Char) :
    readHex ('0' :: '0' :: hexDigit (n / 16) :: hexDigit (n % 16) :: rest) = .ok (n, rest) := by
  have hzero : hexValue? '0' = some 0 := by decide
  rw [readHex, hzero, hexValue?_hexDigit (by omega), hexValue?_hexDigit (by omega)]
  simp only [Except.ok.injEq, Prod.mk.injEq, and_true]
  omega

/-- A control is no half of a pair of escapes. -/
theorem readCodePoint_control {n : Nat} (h : n < 0x20) (rest : List Char) :
    readCodePoint ('0' :: '0' :: hexDigit (n / 16) :: hexDigit (n % 16) :: rest)
      = .ok (.ofNat n, rest) := by
  have hleading : isLeading n = false := by simp [isLeading]; omega
  have htrailing : isTrailing n = false := by simp [isTrailing]; omega
  rw [readCodePoint, readHex_control h]
  simp [hleading, htrailing]

/-- A character that is written as itself is read as itself. -/
theorem readCharacter_plain {c : Char} (hquote : c ≠ '"') (hslash : c ≠ '\\') (h : ¬ c.toNat < 0x20)
    (rest : List Char) : readCharacter (c :: rest) = .ok (some c, rest) := by
  rw [readCharacter.eq_def]
  split
  · contradiction
  · rename_i heq
    simp_all
  · rename_i heq
    simp_all
  · rename_i heq
    simp_all
  · rename_i heq
    simp only [List.cons.injEq] at heq
    obtain ⟨rfl, rfl⟩ := heq
    rw [if_neg h]

/-- **One character reads back**, whether it is written as itself or as an escape. -/
theorem readCharacter_escaped (c : Char) (rest : List Char) :
    readCharacter (escaped c ++ rest) = .ok (some c, rest) := by
  by_cases hquote : c = '"'
  · subst hquote; rfl
  by_cases hslash : c = '\\'
  · subst hslash; rfl
  by_cases hb : c = '\x08'
  · subst hb; rfl
  by_cases hf : c = '\x0c'
  · subst hf; rfl
  by_cases hn : c = '\n'
  · subst hn; rfl
  by_cases hr : c = '\r'
  · subst hr; rfl
  by_cases ht : c = '\t'
  · subst ht; rfl
  by_cases hc : c.toNat < 0x20
  · have hshape : escaped c = ['\\', 'u', '0', '0', hexDigit (c.toNat / 16), hexDigit (c.toNat % 16)] := by
      simp only [escaped, hquote, hslash, hb, hf, hn, hr, ht, hc, if_true, if_false]
    rw [hshape]
    show readCharacter ('\\' :: 'u' :: '0' :: '0' :: hexDigit (c.toNat / 16) ::
      hexDigit (c.toNat % 16) :: rest) = _
    rw [readCharacter, if_pos rfl, readCodePoint_control hc, Char.ofNat_toNat]
    rfl
  · have hshape : escaped c = [c] := by
      simp only [escaped, hquote, hslash, hb, hf, hn, hr, ht, hc, if_false]
    rw [hshape]
    exact readCharacter_plain hquote hslash hc rest

/-! ## Strings -/

/-- A string reads back behind whatever was read before it. -/
theorem readCharacters_escaped (rest : List Char) :
    ∀ (text done : List Char) (fuel : Nat), text.length < fuel →
      readCharacters fuel done (text.flatMap escaped ++ '"' :: rest) = .ok (done.reverse ++ text, rest)
  | [], done, fuel + 1, _ => by
    simp [readCharacters, readCharacter]
  | c :: text, done, fuel + 1, h => by
    have ih := readCharacters_escaped rest text (c :: done) fuel (by simpa using h)
    rw [List.flatMap_cons, List.append_assoc, readCharacters, readCharacter_escaped]
    simpa using ih

/-- Every character is written as one at least. -/
theorem length_le_length_escaped (text : List Char) : text.length ≤ (text.flatMap escaped).length := by
  induction text with
  | nil => exact Nat.le_refl 0
  | cons c text ih =>
    have hpos : 1 ≤ (escaped c).length := by
      unfold escaped
      repeat' split
      all_goals simp
    rw [List.flatMap_cons, List.length_append, List.length_cons]
    omega

/-- **A string reads back** from behind its opening quote. -/
theorem readString_escaped (text rest : List Char) :
    readString (text.flatMap escaped ++ '"' :: rest) = .ok (text, rest) := by
  rw [readString, readCharacters_escaped rest text [] _ ?_]
  · rfl
  · have hlen := length_le_length_escaped text
    rw [List.length_append]
    omega

/-- A string with its quotes is a quote, and behind it what `readString` reads. -/
theorem writeString_append (text rest : List Char) :
    writeString text ++ rest = '"' :: (text.flatMap escaped ++ '"' :: rest) := by
  simp [writeString]

end Piecework.Json
