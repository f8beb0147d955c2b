/-
# Piecework.Proofs.Json.List — arrays element by element.

An array is written as its elements with commas between them, and read one element at a time until the closing
bracket.  Every element takes a character at least, so the length of the text is enough fuel; and its first
character is no bracket, so an element is not taken for the end.
-/
import Mathlib.Data.List.Forall2
import Piecework.Proofs.Json.Record

namespace Piecework.Json

open Members (strung)

/-! ## Elements -/

/-- The text starts like an element of an array: with neither a blank nor a closing bracket. -/
def IsElement (text : List Char) : Prop := ∃ c rest, text = c :: rest ∧ isSpace c = false ∧ c ≠ ']'

theorem isElement_writeString (text : List Char) : IsElement (writeString text) :=
  ⟨'"', _, rfl, by decide, by decide⟩

theorem isElement_record {title : String} {ms : Members τ} {parts : α → τ} {make : τ → α} (a : α) :
    IsElement ((Codec.record title ms parts make).write a) :=
  ⟨'\x7b', _, rfl, by decide, by decide⟩

/-- What follows an element is a boundary. -/
theorem isBoundary_elements (texts : List (List Char)) (tail : List Char) :
    IsBoundary (strung false texts ++ ']' :: tail) := by
  cases texts with
  | nil => exact Or.inr (Or.inl rfl)
  | cons text texts => exact Or.inl rfl

/-- Reading goes to the next element, over the comma if it is not the first one. -/
theorem nextElement_element (first : Bool) {text : List Char} (h : IsElement text) (rest : List Char) :
    nextElement first ((if first then text else ',' :: text) ++ rest) = .ok (some (text ++ rest)) := by
  obtain ⟨c, more, rfl, hspace, hclose⟩ := h
  cases first with
  | true =>
    simp only [if_true, List.cons_append, nextElement]
    rw [skipSpace_cons hspace]
    simp only [hclose, if_false]
  | false =>
    simp only [Bool.false_eq_true, if_false, List.cons_append, nextElement]
    rw [skipSpace_cons (show isSpace ',' = false by decide)]
    simp only [skipSpace_cons hspace, hclose, Char.reduceEq, if_false, if_true]

/-- **Reading goes over the elements** up to the bracket, wherever it starts. -/
theorem readElements_strung {codec : Codec α} {items read : List α}
    (h : List.Forall₂ codec.Carries items read) (htext : ∀ a ∈ items, IsElement (codec.write a))
    (tail : List Char) : ∀ fuel index : Nat, items.length < fuel →
      readElements codec.read fuel index (strung (index = 0) (items.map codec.write) ++ ']' :: tail)
        = .ok (read, ']' :: tail) := by
  induction h with
  | nil =>
    intro fuel index hfuel
    obtain ⟨fuel, rfl⟩ : ∃ n, fuel = n + 1 := ⟨fuel - 1, by omega⟩
    rfl
  | @cons a b items read hab _ ih =>
    intro fuel index hfuel
    obtain ⟨fuel, rfl⟩ : ∃ n, fuel = n + 1 := ⟨fuel - 1, by omega⟩
    have hrest := ih (fun c hc => htext c (List.mem_cons_of_mem a hc)) fuel (index + 1)
      (by rw [List.length_cons] at hfuel; omega)
    have hlater : (decide (index + 1 = 0)) = false := by simp
    rw [hlater] at hrest
    rw [List.map_cons, strung, List.append_assoc, readElements,
      nextElement_element _ (htext a List.mem_cons_self)]
    simp only [hab _ (isBoundary_elements _ tail), hrest]
    rfl

/-- Every element takes a character at least. -/
theorem length_le_length_strung (first : Bool) {texts : List (List Char)} (h : ∀ t ∈ texts, t ≠ []) :
    texts.length ≤ (strung first texts).length := by
  induction texts generalizing first with
  | nil => exact Nat.le_refl 0
  | cons text texts ih =>
    have hrest := ih false fun t ht => h t (List.mem_cons_of_mem text ht)
    have hpos := List.length_pos_iff.mpr (h text List.mem_cons_self)
    rw [strung, List.length_append, List.length_cons]
    split
    · omega
    · rw [List.length_cons]
      omega

/-- **A list** is carried element by element. -/
theorem Codec.carries_list {codec : Codec α} {items read : List α}
    (h : List.Forall₂ codec.Carries items read) (htext : ∀ a ∈ items, IsElement (codec.write a)) :
    codec.list.Carries items read := by
  intro rest _
  have hlength : items.length ≤ (strung true (items.map codec.write)).length := by
    have htexts : ∀ t ∈ items.map codec.write, t ≠ [] := by
      intro t ht
      obtain ⟨a, ha, rfl⟩ := List.mem_map.mp ht
      obtain ⟨c, more, heq, -⟩ := htext a ha
      simp [heq]
    have hall := length_le_length_strung true htexts
    rwa [List.length_map] at hall
  have hread := readElements_strung h htext rest
    ((strung true (items.map codec.write) ++ ']' :: rest).length + 1) 0
    (by rw [List.length_append]; omega)
  have hopening : skipSpace ('[' :: (strung true (items.map codec.write) ++ ']' :: rest))
      = '[' :: (strung true (items.map codec.write) ++ ']' :: rest) := skipSpace_cons (by decide) _
  have hclosing : closeList (']' :: rest) = .ok rest := rfl
  simp only [Codec.list, Members.separated_eq_strung, List.cons_append, List.append_assoc, List.nil_append]
  rw [hopening]
  simp only [decide_true] at hread
  simp only [hread, closingList, hclosing]
  rfl

end Piecework.Json
