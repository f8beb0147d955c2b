/-
# Piecework.Proofs.Json.Record — records member by member.

An object is written as its members one after the other, and read one member at a time into a draft.
So the members that are still to come are themselves a record, which sits inside the whole one: `Within`
says how a draft of the part makes a draft of the whole, and the induction over the members
(`readObject_fields`) goes from a part to the next smaller one while the whole stays the same.
-/
import Piecework.Json.Record
import Piecework.Proofs.Json.Codec

namespace Piecework.Json

/-! ## What a record is carried as -/

/-- A member is carried as another value: through the text if it is shown, and by what stands in for it
if it is not. -/
structure Member.Carries (m : Member α) (a b : α) : Prop where
  shown : m.shown a = true → m.codec.Carries a b
  hidden : m.shown a = false → m.absent = some b

namespace Members

/-- All members are carried. -/
def Carries : Members τ → τ → τ → Prop
  | .one m, a, b => m.Carries a b
  | .more m rest, a, b => m.Carries a.1 b.1 ∧ rest.Carries a.2 b.2

/-- The names of the members. -/
def names : Members τ → List String
  | .one m => [m.name]
  | .more m rest => m.name :: rest.names

/-! ## Drafts -/

/-- The draft of a single member. -/
def draftOne (m : Member α) (d : Option α) : (one m).Draft := d

/-- The draft of a member and of those behind it. -/
def draftMore (m : Member α) {rest : Members τ} (d : Option α) (e : rest.Draft) :
    (more m rest).Draft := (d, e)

/-- What a draft knows of a member that was written if it is shown. -/
def known (m : Member α) (a b : α) : Option α := if m.shown a then some b else none

/-- The draft that has a value for each member that was written. -/
def filled : (ms : Members τ) → τ → τ → ms.Draft
  | .one m, a, b => draftOne m (known m a b)
  | .more m rest, a, b => draftMore m (known m a.1 b.1) (rest.filled a.2 b.2)

@[simp]
theorem isKnown_draftOne (name : String) (m : Member α) (d : Option α) :
    (one m).isKnown name (draftOne m d) = (m.name = name && d.isSome) := rfl

@[simp]
theorem isKnown_draftMore (name : String) (m : Member α) {rest : Members τ} (d : Option α)
    (e : rest.Draft) : (more m rest).isKnown name (draftMore m d e)
      = if m.name = name then d.isSome else rest.isKnown name e := rfl

theorem readMember_draftOne (name : String) (m : Member α) (d : Option α) (text : List Char) :
    (one m).readMember name (draftOne m d) text
      = (m.codec.read text).map fun (a, rest) => (draftOne m (some a), rest) := rfl

theorem readMember_draftMore (name : String) (m : Member α) {rest : Members τ} (d : Option α)
    (e : rest.Draft) (text : List Char) : (more m rest).readMember name (draftMore m d e) text
      = if m.name = name then (m.codec.read text).map fun (a, text) => (draftMore m (some a) e, text)
        else (rest.readMember name e text).map fun (e, text) => (draftMore m d e, text) := rfl

theorem finish_draftMore {m : Member α} {rest : Members τ} {d : Option α} {e : rest.Draft} {a : α}
    {b : τ} (hd : settle m d = .ok a) (he : rest.finish e = .ok b) :
    (more m rest).finish (draftMore m d e) = .ok (a, b) := by
  simp only [finish, draftMore, hd, he]

theorem settle_known {m : Member α} {a b : α} (h : m.Carries a b) :
    settle m (known m a b) = .ok b := by
  cases hs : m.shown a with
  | true => simp [known, hs, settle]
  | false => simp [known, hs, settle, h.hidden hs]

/-- At the end of the object every value is there, or has something that stands in for it. -/
theorem finish_filled : (ms : Members τ) → {a b : τ} → ms.Carries a b →
    ms.finish (ms.filled a b) = .ok b
  | .one _, _, _, h => settle_known h
  | .more _ rest, _, _, h => finish_draftMore (settle_known h.1) (finish_filled rest h.2)

/-! ## A part of a record -/

/-- A record whose drafts are drafts of a larger one: looking a name up and reading its value is the
same in both. -/
structure Within (part : Members σ) (whole : Members τ) (put : part.Draft → whole.Draft) : Prop where
  hasName : ∀ name ∈ part.names, whole.hasName name = true
  isKnown : ∀ name ∈ part.names, ∀ d, whole.isKnown name (put d) = part.isKnown name d
  readMember : ∀ name ∈ part.names, ∀ d text, whole.readMember name (put d) text
    = (part.readMember name d text).map fun (d, rest) => (put d, rest)

theorem hasName_of_mem {name : String} : (ms : Members τ) → name ∈ ms.names → ms.hasName name = true
  | .one m, h => by simpa [names, hasName, eq_comm] using h
  | .more m rest, h => by
    rcases List.mem_cons.mp h with h | h
    · simp [hasName, h]
    · simp [hasName, hasName_of_mem rest h]

theorem within_self (ms : Members τ) : Within ms ms id where
  hasName _ h := hasName_of_mem ms h
  isKnown _ _ _ := rfl
  readMember _ _ _ _ := by
    simp only [id, Except.map]
    split <;> simp_all

/-- Behind its first member a record goes on as a part, whatever became of that member. -/
theorem Within.rest {m : Member α} {rest : Members σ} {whole : Members τ}
    {put : (Members.more m rest).Draft → whole.Draft} (h : Within (.more m rest) whole put)
    (hm : m.name ∉ rest.names) (first : Option α) :
    Within rest whole fun d => put (draftMore m first d) := by
  have hne : ∀ name ∈ rest.names, m.name ≠ name := fun name hname he => hm (he ▸ hname)
  refine ⟨fun name hname => ?_, fun name hname d => ?_, fun name hname d text => ?_⟩
  · exact h.hasName name (List.mem_cons_of_mem _ hname)
  · rw [h.isKnown name (List.mem_cons_of_mem _ hname), isKnown_draftMore, if_neg (hne name hname)]
  · rw [h.readMember name (List.mem_cons_of_mem _ hname), readMember_draftMore,
      if_neg (hne name hname)]
    cases rest.readMember name d text <;> rfl

/-! ## Members behind one another -/

/-- The text of members behind one another; a comma stands in front of each but the first. -/
def strung (first : Bool) : List (List Char) → List Char
  | [] => []
  | f :: fs => (if first then f else ',' :: f) ++ strung false fs

theorem strung_false_cons (f : List Char) (fs : List (List Char)) :
    strung false (f :: fs) = ',' :: separated (f :: fs) := by
  induction fs generalizing f with
  | nil => simp [strung, separated]
  | cons g fs ih =>
    rw [strung, if_neg (by simp), ih]
    simp [separated, List.intercalate, List.intersperse]

theorem separated_eq_strung (fs : List (List Char)) : separated fs = strung true fs := by
  cases fs with
  | nil => rfl
  | cons f fs =>
    have h := strung_false_cons f fs
    rw [strung, if_neg (by simp), List.cons_append, List.cons.injEq] at h
    rw [strung, if_pos rfl, h.2]

/-- What follows a member is a boundary. -/
theorem isBoundary_strung (fs : List (List Char)) (tail : List Char) :
    IsBoundary (strung false fs ++ '\x7d' :: tail) := by
  cases fs with
  | nil => exact Or.inr (Or.inr rfl)
  | cons f fs => exact Or.inl rfl

/-! ## Reading an object -/

/-- The text of one member. -/
theorem nextKey_member (first : Bool) (name text : List Char) :
    nextKey first ((if first then writeString name else ',' :: writeString name) ++ text)
      = .ok (some (name.flatMap escaped ++ '"' :: text)) := by
  cases first with
  | true =>
    rw [if_pos rfl, writeString_append, nextKey, skipSpace_cons (by decide)]
    rfl
  | false =>
    rw [if_neg (by simp), List.cons_append, writeString_append, nextKey, skipSpace_cons (by decide)]
    simp only [skipSpace_cons (show isSpace '"' = false by decide)]
    rfl

/-- Reading goes over one member and puts its value into the draft. -/
theorem readObject_member {whole : Members τ} {name : String} {draft draft' : whole.Draft}
    {value rest : List Char} (fuel : Nat) (first : Bool) (hknown : whole.isKnown name draft = false)
    (hname : whole.hasName name = true)
    (hread : whole.readMember name draft (value ++ rest) = .ok (draft', rest)) :
    whole.readObject (fuel + 1) first draft
        ((if first then writeString name.toList ++ ':' :: value
          else ',' :: (writeString name.toList ++ ':' :: value)) ++ rest)
      = whole.readObject fuel false draft' rest := by
  have hshape : (if first then writeString name.toList ++ ':' :: value
        else ',' :: (writeString name.toList ++ ':' :: value)) ++ rest
      = (if first then writeString name.toList else ',' :: writeString name.toList)
        ++ (':' :: (value ++ rest)) := by
    cases first <;> simp
  have hcolon : readColon (':' :: (value ++ rest)) = .ok (value ++ rest) := rfl
  rw [hshape, readObject, nextKey_member]
  simp only [readString_escaped, String.ofList_toList, hknown, hcolon, hname, hread, if_true,
    Bool.false_eq_true, if_false]

/-- At the closing brace the draft is all there is. -/
theorem readObject_closing {whole : Members τ} {draft : whole.Draft} {b : τ} (fuel : Nat)
    (first : Bool) (tail : List Char) (h : whole.finish draft = .ok b) :
    whole.readObject (fuel + 1) first draft ('\x7d' :: tail) = .ok (b, '\x7d' :: tail) := by
  have hkey : nextKey first ('\x7d' :: tail) = .ok none := rfl
  rw [readObject, hkey]
  simp only [h]

/-- One member of a part, written or not: reading comes to what follows with the value in its place. -/
theorem readObject_field {part : Members σ} {whole : Members τ} {put : part.Draft → whole.Draft}
    (hw : Within part whole put) {m : Member α} (hmem : m.name ∈ part.names) {a b : α}
    (hc : m.Carries a b) (draft draft' : part.Draft) (hknown : part.isKnown m.name draft = false)
    (hread : ∀ text rest, m.codec.read text = .ok (b, rest) →
      part.readMember m.name draft text = .ok (draft', rest))
    (fs : List (List Char)) (tail : List Char) {fuel : Nat} (first : Bool)
    (hfuel : (strung first (field m a ++ fs) ++ '\x7d' :: tail).length < fuel) :
    ∃ fuel' first', (strung first' fs ++ '\x7d' :: tail).length < fuel' ∧
      whole.readObject fuel first (put draft) (strung first (field m a ++ fs) ++ '\x7d' :: tail)
        = whole.readObject fuel' first' (put (if m.shown a then draft' else draft))
            (strung first' fs ++ '\x7d' :: tail) := by
  cases hs : m.shown a with
  | false =>
    refine ⟨fuel, first, ?_, ?_⟩
    · simpa [field, hs] using hfuel
    · simp [field, hs]
  | true =>
    obtain ⟨fuel, rfl⟩ : ∃ n, fuel = n + 1 := ⟨fuel - 1, by omega⟩
    have hboundary := isBoundary_strung fs tail
    have hvalue := hread _ _ (hc.shown hs (strung false fs ++ '\x7d' :: tail) hboundary)
    have hstep : whole.readMember m.name (put draft)
        (m.codec.write a ++ (strung false fs ++ '\x7d' :: tail))
        = .ok (put draft', strung false fs ++ '\x7d' :: tail) := by
      rw [hw.readMember m.name hmem, hvalue]
      rfl
    refine ⟨fuel, false, ?_, ?_⟩
    · simp only [field, hs, if_true, List.singleton_append, strung, List.append_assoc,
        List.length_append] at hfuel
      have hpos : 1 ≤ (if first then writeString m.name.toList ++ ':' :: m.codec.write a
          else ',' :: (writeString m.name.toList ++ ':' :: m.codec.write a)).length := by
        cases first <;> simp [writeString]
      rw [List.length_append]
      omega
    · simp only [field, hs, if_true, List.singleton_append, strung, List.append_assoc]
      exact readObject_member fuel first ((hw.isKnown m.name hmem draft).trans hknown)
        (hw.hasName m.name hmem) hstep

/-- **Reading goes over the members of a part**, from the draft that knows none of them to the one that
knows all that were written. -/
theorem readObject_fields {whole : Members τ} (tail : List Char) :
    {σ : Type} → (part : Members σ) → {put : part.Draft → whole.Draft} → Within part whole put →
    part.names.Nodup → {a b : σ} → part.Carries a b → {fuel : Nat} → (first : Bool) →
    (strung first (part.fields a) ++ '\x7d' :: tail).length < fuel →
    ∃ fuel' first', whole.readObject fuel first (put part.blank)
        (strung first (part.fields a) ++ '\x7d' :: tail)
      = whole.readObject (fuel' + 1) first' (put (part.filled a b)) ('\x7d' :: tail)
  | _, .one m, put, hw, _, a, b, hc, fuel, first, hfuel => by
    have hmem : m.name ∈ (Members.one m).names := List.mem_singleton_self _
    rw [fields] at hfuel ⊢
    obtain ⟨fuel', first', hlt, heq⟩ := readObject_field hw hmem hc
      (draftOne m none) (draftOne m (some b)) (by simp)
      (fun text rest h => by rw [readMember_draftOne, h]; rfl) [] tail first (by simpa using hfuel)
    rw [List.append_nil] at heq
    refine ⟨fuel' - 1, first', ?_⟩
    rw [Nat.sub_add_cancel (by omega)]
    exact heq
  | _, .more m rest, put, hw, hnodup, a, b, hc, fuel, first, hfuel => by
    have hmem : m.name ∈ (Members.more m rest).names := List.mem_cons_self
    rw [names, List.nodup_cons] at hnodup
    rw [fields] at hfuel ⊢
    obtain ⟨fuel', first', hlt, heq⟩ := readObject_field hw hmem hc.1
      (draftMore m none rest.blank) (draftMore m (some b.1) rest.blank) (by simp)
      (fun text tail h => by rw [readMember_draftMore, if_pos rfl, h]; rfl) (rest.fields a.2) tail
      first hfuel
    obtain ⟨fuel'', first'', hrest⟩ := readObject_fields tail rest
      (hw.rest hnodup.1 (known m a.1 b.1)) hnodup.2 hc.2 first' hlt
    refine ⟨fuel'', first'', ?_⟩
    rw [filled, ← hrest, blank, ← draftMore, heq]
    congr 1
    unfold known
    split <;> rfl

end Members

/-- **A record** is carried as what its members are carried as. -/
theorem Codec.carries_record {title : String} {ms : Members τ} {parts : α → τ} {make : τ → α}
    (hnames : ms.names.Nodup) {a c : α} {b : τ} (h : ms.Carries (parts a) b) (hmake : make b = c) :
    (Codec.record title ms parts make).Carries a c := by
  intro rest _
  subst hmake
  have hbrace : skipSpace ('\x7b' :: (Members.strung true (ms.fields (parts a)) ++ '\x7d' :: rest))
      = '\x7b' :: (Members.strung true (ms.fields (parts a)) ++ '\x7d' :: rest) :=
    skipSpace_cons (by decide) _
  obtain ⟨fuel, first, hread⟩ := Members.readObject_fields rest ms (Members.within_self ms) hnames h
    true (Nat.lt_succ_self _)
  have hclose : Members.closeObject ('\x7d' :: rest) = .ok rest := rfl
  simp only [Codec.record, List.cons_append, List.append_assoc, List.nil_append,
    Members.separated_eq_strung]
  rw [hbrace]
  simp only [if_true]
  rw [id_eq, id_eq, Members.readObject_closing fuel first rest (Members.finish_filled ms h)] at hread
  rw [hread]
  simp only [Members.closingObject, hclose]
  rfl

/-! ## Kinds of members -/

namespace Member

variable {codec : Codec α}

theorem carries_required {a b : α} (name : String) (h : codec.Carries a b) :
    (required name codec).Carries a b :=
  ⟨fun _ => h, fun hhidden => by cases hhidden⟩

/-- A member whose absence is written as `null`. -/
theorem carries_optional {a b : Option α} (name : String) (h : codec.option.Carries a b) :
    (optional name codec).Carries a b :=
  ⟨fun _ => h, fun hhidden => by cases hhidden⟩

/-- A member that is left out when it is absent. -/
theorem carries_hidden {a b : Option α} (name : String) (h : codec.option.Carries a b)
    (hnone : a = none → b = none) : (hidden name codec).Carries a b := by
  refine ⟨fun _ => h, fun hhidden => ?_⟩
  rw [hnone (by simpa [hidden] using hhidden)]
  rfl

theorem carries_spare {a b : Option α} (name : String) (h : codec.option.Carries a b)
    (hnone : a = none → b = none) : (spare name codec).Carries a b := by
  refine ⟨fun _ => h, fun hhidden => ?_⟩
  rw [hnone (by simpa [spare] using hhidden)]
  rfl

end Member

end Piecework.Json
