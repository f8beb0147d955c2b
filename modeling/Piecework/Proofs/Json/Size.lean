/-
# Piecework.Proofs.Json.Size — how long the text of a value becomes.

A body is refused when it is too long, whatever it says.  So for a value to arrive it is not enough that
its text can be read: the text has to be short as well.  The text of a double is, since neither its digits
nor its power of ten get large (`length_writeFloat_le`).
-/
import Mathlib.Data.String.Basic
import Piecework.Json.Record
import Piecework.Proofs.Json.Float

namespace Piecework.Json

open Number

/-! ## Strings and records -/

theorem length_escaped_le (c : Char) : (escaped c).length ≤ 6 := by
  unfold escaped
  repeat' split
  all_goals simp

theorem length_writeString_le (text : List Char) : (writeString text).length ≤ 6 * text.length + 2 := by
  have hbody : (text.flatMap escaped).length ≤ 6 * text.length := by
    induction text with
    | nil => exact le_rfl
    | cons c text ih =>
      have hc := length_escaped_le c
      rw [List.flatMap_cons, List.length_append, List.length_cons]
      omega
  simp only [writeString, List.length_cons, List.length_append, List.length_nil]
  omega

/-- Every value has room for itself and for one comma. -/
theorem length_separated_le (items : List (List Char)) :
    (separated items).length ≤ (items.map fun item => item.length + 1).sum := by
  induction items with
  | nil => exact le_rfl
  | cons item rest ih =>
    cases rest with
    | nil => simp [separated, List.intercalate]
    | cons next rest =>
      rw [separated, List.intercalate_cons_cons, ← separated, List.map_cons, List.sum_cons]
      simp only [List.length_append, List.length_singleton]
      omega

/-- A record has its members and two braces. -/
theorem Codec.length_record_le (title : String) (ms : Members τ) (parts : α → τ) (make : τ → α) (a : α) :
    ((Codec.record title ms parts make).write a).length
      ≤ ((ms.fields (parts a)).map fun field => field.length + 1).sum + 2 := by
  have hfields := length_separated_le (ms.fields (parts a))
  simp only [Codec.record, List.length_cons, List.length_append, List.length_nil]
  omega

/-! ## Doubles -/

theorem length_positionalText_le (digits : List Char) (power : ℤ) :
    (positionalText true digits power).length ≤ digits.length + power.natAbs + 2 := by
  by_cases hup : 0 ≤ power
  · simp only [positionalText, hup, if_true, List.length_append, List.length_replicate, List.length_cons,
      List.length_nil]
    omega
  by_cases hinside : (-power).toNat < digits.length
  · simp only [positionalText, hup, hinside, if_true, if_false, List.length_append, List.length_cons,
      List.length_take, List.length_drop]
    omega
  · simp only [positionalText, hup, hinside, if_false, List.length_append, List.length_cons,
      List.length_replicate]
    omega

theorem length_scientificText_le (digits : List Char) (leading : ℤ) :
    (scientificText true digits leading).length ≤ digits.length + (decimal leading.natAbs).length + 3 := by
  have hmark : (if leading < 0 then ['e', '-'] else ['e', '+']).length = 2 := by split_ifs <;> rfl
  rcases digits with - | ⟨first, - | ⟨second, rest⟩⟩ <;>
    simp only [scientificText, List.take, List.drop, if_true, List.length_append, List.length_cons,
      List.length_nil, hmark] <;>
    omega

/-- **The text of a double** has four hundred characters at most. -/
theorem length_writeFloat_le {x : Float} (h : isFinite x = true) : (writeFloat x).length ≤ 400 := by
  rw [isFinite] at h
  split at h
  case h_1 negative s e hmeaning =>
    obtain ⟨hdouble, -⟩ := eq_double_of_meaning hmeaning
    have hmagnitude : (numberLayout.magnitude s e).length ≤ 399 := by
      rcases Nat.eq_zero_or_pos s with rfl | hs
      · show 3 ≤ 399
        decide
      obtain ⟨digits, power, hshortest, -, hlt, hlow, hhigh, -⟩ := exists_shortest .even hdouble hs
      have hlength : (decimal digits).length ≤ 18 :=
        (length_decimal_le_iff (by decide)).mpr (hlt.trans_le (by decide))
      have htie : numberLayout.tie = .even := rfl
      have hmarks : numberLayout.pointZero = true ∧ numberLayout.exponentPlus = true := ⟨rfl, rfl⟩
      simp only [Layout.magnitude, hs.ne', if_false, htie, hshortest, hmarks]
      split_ifs
      · have hpositional := length_positionalText_le (decimal digits) power
        omega
      · generalize hleading : power + (((decimal digits).length - 1 : ℕ) : ℤ) = leading
        have hexponent : (decimal leading.natAbs).length ≤ 3 :=
          (length_decimal_le_iff (by decide)).mpr (by omega)
        have hscientific := length_scientificText_le (decimal digits) leading
        omega
    have hsign : (if negative then ['-'] else [] : List Char).length ≤ 1 := by
      cases negative <;> decide
    simp only [writeFloat, Layout.characters, hmeaning, List.length_append]
    omega
  case h_2 => cases h

/-! ## Bytes -/

/-- A character has four bytes at most. -/
theorem Codec.utf8ByteSize_encode_le (codec : Codec α) (a : α) :
    (codec.encode a).utf8ByteSize ≤ 4 * (codec.write a).length := by
  have hcharacters : ∀ text : List Char, String.utf8Len text ≤ 4 * text.length := by
    intro text
    induction text with
    | nil => exact le_rfl
    | cons c text ih =>
      have hc := c.utf8Size_le_four
      rw [String.utf8Len_cons, List.length_cons]
      omega
  rw [Codec.encode, String.utf8ByteSize_ofList]
  exact hcharacters _

end Piecework.Json
