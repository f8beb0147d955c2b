/-
# Piecework.Proofs.Json.Codec — what a value becomes on its way through a text.

A codec carries one value as another when it reads the other from what it writes for the one, whatever
follows in the text around it.  For most types a value is carried as itself; doubles are the exception,
and so the relation has two sides.  Codecs are put together from smaller ones, and there is one lemma
for each way to do so.
-/
import Piecework.Json.Codec
import Piecework.Proofs.Json.Text

namespace Piecework.Json

/-! ## Boundaries -/

/-- What may follow a value in a text: nothing, or a character that ends the value around it or goes on
to the next one there. -/
def IsBoundary : List Char → Prop
  | [] => True
  | c :: _ => c = ',' ∨ c = ']' ∨ c = '\x7d'

/-- A value is carried as another. -/
def Codec.Carries (codec : Codec α) (a b : α) : Prop :=
  ∀ rest, IsBoundary rest → codec.read (codec.write a ++ rest) = .ok (b, rest)

/-- A text that holds one value and nothing else decodes to what the value is carried as. -/
theorem Codec.Carries.decode {codec : Codec α} {a b : α} (h : codec.Carries a b) :
    codec.decode (codec.encode a) = .ok b := by
  have hread := h [] trivial
  rw [List.append_nil] at hread
  rw [Codec.decode, Codec.encode, String.toList_ofList, hread]
  rfl

/-! ## Strings -/

theorem readText_writeString (expected s : String) (rest : List Char) :
    readText expected (writeString s.toList ++ rest) = .ok (s, rest) := by
  rw [writeString_append, readText, skipSpace_cons (by decide)]
  simp only [readString_escaped, Except.map, String.ofList_toList]

/-- **Strings** are carried as themselves, whatever they consist of. -/
theorem Codec.carries_string (s : String) : Codec.string.Carries s s :=
  fun rest _ => readText_writeString "a string" s rest

/-- A value that is written as a string is carried as what its text parses to. -/
theorem Codec.carries_text {render : α → String} {parse : String → Except String α} {a b : α}
    (h : parse (render a) = .ok b) : (Codec.text render parse).Carries a b := by
  intro rest _
  simp only [Codec.text]
  rw [readText_writeString]
  simp only [h]

/-- A choice is carried as itself when its word leads back to it. -/
theorem Codec.carries_choice {choices : List (String × α)} {name : α → String} {a : α}
    (h : choices.lookup (name a) = some a) : (Codec.choice choices name).Carries a a := by
  intro rest _
  have hquote : skipSpace (writeString (name a).toList ++ rest)
      = writeString (name a).toList ++ rest := by
    rw [writeString_append, skipSpace_cons (by decide)]
  simp only [Codec.choice]
  rw [hquote]
  have htext := readText_writeString "variant identifier" (name a) rest
  rw [writeString_append] at htext ⊢
  simp only [Char.reduceEq, if_false, if_true, htext, pick, h]

/-! ## Values that may be absent -/

/-- The first character of a text is neither a blank nor the start of `null`. -/
def IsPresent (text : List Char) : Prop := ∃ c rest, text = c :: rest ∧ isSpace c = false ∧ c ≠ 'n'

theorem isPresent_writeString (text : List Char) : IsPresent (writeString text) :=
  ⟨'"', _, rfl, by decide, by decide⟩

theorem Codec.carries_none (codec : Codec α) : codec.option.Carries none none := by
  intro rest _
  rfl

theorem Codec.Carries.some {codec : Codec α} {a b : α} (h : codec.Carries a b)
    (hpresent : IsPresent (codec.write a)) : codec.option.Carries (some a) (some b) := by
  intro rest hrest
  obtain ⟨c, text, hwrite, hspace, hnull⟩ := hpresent
  have hread := h rest hrest
  rw [hwrite, List.cons_append] at hread
  simp only [Codec.option, hwrite, List.cons_append]
  rw [skipSpace_cons hspace]
  split
  · simp_all
  · rename_i heq
    rw [hread]
    rfl

/-- A value that may be absent is carried as itself, if it is when it is there. -/
theorem Codec.carries_option {codec : Codec α} {a : Option α}
    (h : ∀ x, a = Option.some x → codec.Carries x x ∧ IsPresent (codec.write x)) :
    codec.option.Carries a a := by
  cases a with
  | none => exact codec.carries_none
  | some x => exact (h x rfl).1.some (h x rfl).2

end Piecework.Json
