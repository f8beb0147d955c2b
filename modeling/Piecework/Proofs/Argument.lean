/-
# Piecework.Proofs.Argument — operands read back as they were written.

The two forms of an operand do not mix: what opens like a reference to a task is never read as a number.  So a
finite number that is written plainly is read as that number (`Argument.ofText_text`), and a reference to an
output as that reference.

Other texts are read as operands, too: numbers with an exponent or a plus, identities in lower case.  Which texts these
are, and as which operand each is read, is said without the reader (`Argument.codec`).  Writing and reading again
changes nothing more.
-/
import Piecework.Argument
import Piecework.Proofs.Ident
import Piecework.Proofs.Number.Decimal
import Piecework.Proofs.Number.Plain

namespace Piecework.Argument

/-- The operand is the output of a task or a finite number. -/
def IsFinite : Argument → Prop
  | .literal value => Number.isFinite value = true
  | .output _ => True

/-- What opens like a reference is no number. -/
theorem readFloat?_opening (rest : List Char) : Number.readFloat? (opening ++ rest) = none := by
  have hopening : opening = ['t', 'a', 's', 'k', '_'] := by decide
  rw [hopening]
  simp [Number.readFloat?, Number.splitSign, Number.lowered, Number.readMantissa]

theorem framed?_of_readFloat? {text : List Char} {value : Float} (h : Number.readFloat? text = some value) :
    framed? text = none := by
  unfold framed?
  split
  · rename_i hprefix
    obtain ⟨rest, rfl⟩ := List.isPrefixOf_iff_prefix.mp hprefix
    rw [readFloat?_opening] at h
    cases h
  · rfl

/-- What stands between the opening and the closing. -/
theorem framed?_frame (inner : List Char) : framed? (opening ++ inner ++ closing) = some inner := by
  have hprefix : opening.isPrefixOf (opening ++ inner ++ closing) = true := by
    rw [List.isPrefixOf_iff_prefix, List.append_assoc]
    exact List.prefix_append _ _
  have hsuffix : closing.isSuffixOf (inner ++ closing) = true := by
    rw [List.isSuffixOf_iff_suffix]
    exact List.suffix_append _ _
  have hdrop : (opening ++ inner ++ closing).drop opening.length = inner ++ closing := by
    rw [List.append_assoc, List.drop_left]
  rw [framed?, if_pos hprefix, hdrop]
  simp only [hsuffix, if_true, List.length_append, Nat.add_sub_cancel, List.take_left]

/-- **Operands read back**: outputs of tasks, and finite numbers. -/
theorem ofText_text {a : Argument} (h : a.IsFinite) : ofText a.text = .ok a := by
  cases a with
  | literal value =>
    have hread := Number.readFloat?_plain h
    have hvalue : Number.isFinite value = true := h
    simp only [text, Number.Layout.text, ofText, String.toList_ofList, framed?_of_readFloat? hread, hread,
      hvalue, if_true]
  | output task =>
    have hframed : framed? (text (.output task)).toList = some (Ident.characters task.word) := by
      rw [text, String.toList_append, String.toList_append, String.toList_ofList, String.toList_ofList,
        TaskId.text, String.toList_ofList]
      exact framed?_frame _
    rw [ofText, hframed]
    simp only [Ident.ofCharacters_characters]

/-! ## The texts that are read -/

/-- A text is framed if it is the opening, something, and the closing; opening and closing do not overlap. -/
theorem framed?_eq_some_iff {text inner : List Char} :
    framed? text = some inner ↔ text = opening ++ inner ++ closing := by
  constructor
  · intro h
    simp only [framed?] at h
    split_ifs at h with hprefix hsuffix
    obtain ⟨rest, rfl⟩ := List.isPrefixOf_iff_prefix.mp hprefix
    rw [List.drop_left] at h hsuffix
    obtain ⟨front, rfl⟩ := List.isSuffixOf_iff_suffix.mp hsuffix
    rw [List.length_append, Nat.add_sub_cancel, List.take_left] at h
    obtain rfl := Option.some.inj h
    rw [List.append_assoc]
  · rintro rfl
    exact framed?_frame inner

theorem framed?_toList_iff {text : String} {inner : List Char} :
    framed? text.toList = some inner ↔ text = "task_" ++ .ofList inner ++ "_result" := by
  have hinner : (String.ofList inner).toList = inner := String.toList_ofList
  rw [framed?_eq_some_iff, ← String.toList_inj, String.toList_append, String.toList_append, hinner]
  rfl

/-- The text stands for the operand: it frames the identity of a task, or it frames nothing and is a number. -/
inductive Denotes (text : String) : Argument → Prop
  | output {inner : String} {word : BitVec 128} (hframe : text = "task_" ++ inner ++ "_result")
      (hword : Ident.Spells inner.toList word) : Denotes text (.output ⟨word⟩)
  | literal {value : Float} (hframe : ∀ inner : String, text ≠ "task_" ++ inner ++ "_result")
      (hvalue : Number.Denotes text.toList value) (hfinite : Number.isFinite value = true) :
      Denotes text (.literal value)

/-- **The texts that are read as operands** are those that stand for one. -/
theorem ofText_eq_ok_iff {text : String} {a : Argument} : ofText text = .ok a ↔ Denotes text a := by
  constructor
  · intro h
    simp only [ofText] at h
    split at h
    case h_1 inner hframed =>
      split at h
      · rename_i word hread
        obtain rfl := Except.ok.inj h
        refine .output (framed?_toList_iff.mp hframed) ?_
        rw [String.toList_ofList]
        exact Ident.ofCharacters_eq_ok_iff.mp hread
      · cases h
    case h_2 hframed =>
      split at h
      · rename_i value hread
        split_ifs at h with hfinite
        obtain rfl := Except.ok.inj h
        refine .literal (fun inner heq => ?_) (Number.readFloat?_eq_some_iff.mp hread) hfinite
        rw [← String.ofList_toList (s := inner), ← framed?_toList_iff, hframed] at heq
        cases heq
      · cases h
  · intro h
    cases h with
    | @output inner word hframe hword =>
      rw [← String.ofList_toList (s := inner), ← framed?_toList_iff] at hframe
      rw [ofText, hframe]
      simp only [Ident.ofCharacters_eq_ok_iff.mpr hword]
    | @literal value hframe hvalue hfinite =>
      have hread := Number.readFloat?_eq_some_iff.mpr hvalue
      simp only [ofText, framed?_of_readFloat? hread, hread, hfinite, if_true]

/-- A text that is read as an operand names a task or a finite number. -/
theorem isFinite_of_ofText {text : String} {a : Argument} (h : ofText text = .ok a) : a.IsFinite := by
  cases ofText_eq_ok_iff.mp h with
  | output hframe hword => exact trivial
  | literal hframe hvalue hfinite => exact hfinite

/-- A text that is no operand is the fault. -/
theorem eq_of_ofText_error {text : String} {fault : ArgumentFault} (h : ofText text = .error fault) :
    fault = ⟨text⟩ := by
  simp only [ofText] at h
  split at h
  · split at h
    · cases h
    · exact (Except.error.inj h).symm
  · split at h
    · split_ifs at h
      exact (Except.error.inj h).symm
    · exact (Except.error.inj h).symm

/-- **The written form of operands is a code.**  Outputs of tasks and finite numbers are read back as they were
written, so no two of them are written alike.  A text is read as an operand if and only if it stands for it, and every
other text is the fault.  Writing an operand that was read, and reading it again, gives the same operand. -/
theorem codec :
    (∀ a : Argument, a.IsFinite → ofText a.text = .ok a) ∧
      (∀ a b : Argument, a.IsFinite → b.IsFinite → a.text = b.text → a = b) ∧
      ∀ text : String,
        (∀ a, ofText text = .ok a ↔ Denotes text a) ∧
        ((∀ a, ¬Denotes text a) → ofText text = .error ⟨text⟩) ∧
        ∀ a, ofText text = .ok a → ofText a.text = .ok a := by
  refine ⟨fun a => ofText_text, ?_, fun text => ⟨fun a => ofText_eq_ok_iff, ?_, ?_⟩⟩
  · intro a b ha hb heq
    have hread := ofText_text ha
    rw [heq, ofText_text hb] at hread
    exact (Except.ok.inj hread).symm
  · intro hnone
    cases hread : ofText text with
    | ok a => exact absurd (ofText_eq_ok_iff.mp hread) (hnone a)
    | error fault => rw [eq_of_ofText_error hread]
  · exact fun a h => ofText_text (isFinite_of_ofText h)

/-- Negative zero is read back.  An identity in lower case is read, and written in upper case then.  A text in which
opening and closing would overlap is no operand. -/
theorem codec_overlap :
    let zero : Argument := .literal (.ofBits (.ofNat (2 ^ 63)))
    let lower := "task_0000000000000000000000000a_result"
    let overlap := "task_result"
    zero.text = "-0" ∧ ofText zero.text = .ok zero ∧
      (∀ b : Argument, b.IsFinite → zero.text = b.text → zero = b) ∧
      Denotes lower (.output ⟨10⟩) ∧ ofText (text (.output ⟨10⟩)) = .ok (.output ⟨10⟩) ∧
      text (.output ⟨10⟩) ≠ lower ∧ ofText overlap = .error ⟨overlap⟩ := by
  intro zero lower overlap
  have hzero : zero.IsFinite := by
    show Number.isFinite _ = true
    decide +kernel
  have hlower : ofText lower = .ok (.output ⟨10⟩) := by decide +kernel
  have hoverlap : ∀ a, ¬Denotes overlap a := fun a h => by
    have hread := ((codec.2.2 overlap).1 a).mpr h
    have hnot : (ofText overlap).toOption = none := by decide +kernel
    rw [hread] at hnot
    cases hnot
  exact ⟨by decide +kernel, codec.1 zero hzero, fun b => codec.2.1 zero b hzero,
    ((codec.2.2 lower).1 _).mp hlower, (codec.2.2 lower).2.2 _ hlower, by decide +kernel,
    (codec.2.2 overlap).2.1 hoverlap⟩

end Piecework.Argument
