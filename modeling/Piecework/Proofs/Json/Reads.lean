/-
# Piecework.Proofs.Json.Reads — what reading can come to.

`Codec.Carries` starts with a value, which is written and read back.  Here the text is any text, written by
anybody, and the question is which values can come of it (`Codec.Reads`).  A number that is read is finite; what
stands in a list or behind an optional member has been read by the codec inside.  A record can be read from an
object, member by member into a draft, or from an array; either way each of its parts has been read by the codec
of its member, or is what stands in for a member that is not there (`Members.Gets`).
-/
import Piecework.Proofs.Json.Finite
import Piecework.Proofs.Json.Record

namespace Piecework.Json

/-- What is made of something that was found. -/
theorem exists_of_map_eq_ok {ε α β : Type} {f : α → β} {found : Except ε α} {b : β}
    (h : found.map f = .ok b) : ∃ a, found = .ok a ∧ f a = b := by
  cases found with
  | error fault => cases h
  | ok a => exact ⟨a, rfl, Except.ok.inj h⟩

/-- What is found under another wording of the faults has been found. -/
theorem eq_ok_of_mapError {ε ε' α : Type} {wording : ε → ε'} {found : Except ε α} {a : α}
    (h : found.mapError wording = .ok a) : found = .ok a := by
  cases found with
  | error fault => cases h
  | ok b => exact congrArg Except.ok (Except.ok.inj h)

/-- Some text is read as the value. -/
def Codec.Reads (c : Codec α) (a : α) : Prop := ∃ text rest, c.read text = .ok (a, rest)

namespace Codec

theorem reads_of_decode {c : Codec α} {text : String} {a : α} (h : c.decode text = .ok a) : c.Reads a := by
  unfold decode at h
  split at h
  · cases h
  · rename_i hread
    split at h
    · obtain rfl := Except.ok.inj h
      exact ⟨_, _, hread⟩
    · cases h

/-! ## Simple values -/

/-- What is read as a double is finite. -/
theorem isFinite_of_reads {x : Float} (h : float.Reads x) : Number.isFinite x = true := by
  obtain ⟨text, rest, h⟩ := h
  simp only [float, readFitting] at h
  split at h
  · cases h
  · split_ifs at h
    split at h
    · cases h
    · rename_i hnumber
      obtain ⟨rfl, -⟩ := Prod.mk.inj (Except.ok.inj h)
      exact isFinite_of_readNumber hnumber

/-- What is read from a string has been accepted. -/
theorem exists_of_reads_text {render : α → String} {parse : String → Except String α} {a : α}
    (h : (Codec.text render parse).Reads a) : ∃ s, parse s = .ok a := by
  obtain ⟨text, rest, h⟩ := h
  simp only [Codec.text] at h
  split at h
  · cases h
  · split at h
    · rename_i hparse
      obtain ⟨rfl, -⟩ := Prod.mk.inj (Except.ok.inj h)
      exact ⟨_, hparse⟩
    · cases h

/-- What is there has been read. -/
theorem reads_of_option {c : Codec α} {a : α} (h : c.option.Reads (some a)) : c.Reads a := by
  obtain ⟨text, rest, h⟩ := h
  simp only [Codec.option] at h
  split at h
  · obtain ⟨_, -, hnone⟩ := exists_of_map_eq_ok h
    cases hnone
  · obtain ⟨⟨b, tail⟩, hread, hsome⟩ := exists_of_map_eq_ok h
    obtain ⟨hvalue, -⟩ := Prod.mk.inj hsome
    obtain rfl : b = a := Option.some.inj hvalue
    exact ⟨_, tail, hread⟩

/-! ## Lists -/

theorem reads_of_readElements {c : Codec α} {fuel index : ℕ} {text rest : List Char} {items : List α}
    (h : readElements c.read fuel index text = .ok (items, rest)) : ∀ a ∈ items, c.Reads a := by
  fun_induction readElements c.read fuel index text generalizing items rest with
  | case1 => cases h
  | case2 => cases h
  | case3 =>
    obtain ⟨rfl, -⟩ := Prod.mk.inj (Except.ok.inj h)
    exact fun a ha => absurd ha List.not_mem_nil
  | case4 => cases h
  | case5 fuel index text place _ first tail hread ih =>
    obtain ⟨⟨more, behind⟩, hmore, hcons⟩ := exists_of_map_eq_ok h
    obtain ⟨rfl, -⟩ := Prod.mk.inj hcons
    intro a ha
    rcases List.mem_cons.mp ha with rfl | ha
    · exact ⟨_, _, hread⟩
    · exact ih hmore a ha

/-- A list that is closed has been read. -/
theorem exists_of_closingList {content : Reading α} {a : α} {rest : List Char}
    (h : closingList content = .ok (a, rest)) : ∃ tail, content = .ok (a, tail) := by
  unfold closingList at h
  split at h
  · cases h
  · obtain ⟨_, -, heq⟩ := exists_of_map_eq_ok h
    obtain ⟨rfl, -⟩ := Prod.mk.inj heq
    exact ⟨_, rfl⟩

/-- The members of a list have been read one by one. -/
theorem reads_of_mem {c : Codec α} {items : List α} (h : c.list.Reads items) : ∀ a ∈ items, c.Reads a := by
  obtain ⟨text, rest, h⟩ := h
  simp only [Codec.list] at h
  split at h
  · cases h
  · obtain ⟨tail, hitems⟩ := exists_of_closingList h
    exact reads_of_readElements hitems
  · cases h

end Codec

/-! ## Members -/

/-- What a member can get: what its codec reads, or what stands in for it where it is not there. -/
def Member.Gets (m : Member α) (a : α) : Prop := m.codec.Reads a ∨ m.absent = some a ∨ m.short = some a

namespace Members

/-- What a record can get, member by member. -/
def Gets : Members τ → τ → Prop
  | .one m, a => m.Gets a
  | .more m rest, a => m.Gets a.1 ∧ rest.Gets a.2

/-- Whatever a draft knows has been read. -/
def Drafted : (ms : Members τ) → ms.Draft → Prop
  | .one m, d => ∀ a, d = draftOne m (some a) → m.codec.Reads a
  | .more m rest, d => (∀ a, d.1 = some a → m.codec.Reads a) ∧ rest.Drafted d.2

theorem drafted_blank : (ms : Members τ) → ms.Drafted ms.blank
  | .one _ => by
    intro a h
    cases h
  | .more _ rest => by
    refine ⟨?_, drafted_blank rest⟩
    intro a h
    cases h

/-- Reading one member adds what its codec has read. -/
theorem drafted_readMember (name : String) : (ms : Members τ) → {draft draft' : ms.Draft} →
    {text rest : List Char} → ms.Drafted draft → ms.readMember name draft text = .ok (draft', rest) →
    ms.Drafted draft'
  | .one m, draft, draft', text, rest, _, h => by
    obtain ⟨⟨a, tail⟩, hread, heq⟩ := exists_of_map_eq_ok h
    obtain ⟨rfl, -⟩ := Prod.mk.inj heq
    intro b hb
    obtain rfl := Option.some.inj hb
    exact ⟨_, _, hread⟩
  | .more m others, draft, draft', text, rest, hdraft, h => by
    unfold readMember at h
    split_ifs at h
    · obtain ⟨⟨a, tail⟩, hread, heq⟩ := exists_of_map_eq_ok h
      obtain ⟨rfl, -⟩ := Prod.mk.inj heq
      refine ⟨fun b hb => ?_, hdraft.2⟩
      obtain rfl := Option.some.inj hb
      exact ⟨_, _, hread⟩
    · obtain ⟨⟨d, tail⟩, hread, heq⟩ := exists_of_map_eq_ok h
      obtain ⟨rfl, -⟩ := Prod.mk.inj heq
      exact ⟨hdraft.1, drafted_readMember name others hdraft.2 hread⟩

theorem gets_of_settle {m : Member α} {d : Option α} {a : α} (hd : ∀ a, d = some a → m.codec.Reads a)
    (h : settle m d = .ok a) : m.Gets a := by
  unfold settle at h
  split at h
  · obtain rfl := Except.ok.inj h
    exact Or.inl (hd _ rfl)
  · rename_i habsent
    obtain rfl := Except.ok.inj h
    exact Or.inr (Or.inl habsent)
  · cases h

theorem gets_of_finish : (ms : Members τ) → {draft : ms.Draft} → {b : τ} → ms.Drafted draft →
    ms.finish draft = .ok b → ms.Gets b
  | .one _, _, _, hdraft, h => gets_of_settle hdraft h
  | .more m rest, draft, b, hdraft, h => by
    unfold finish at h
    split at h
    · cases h
    · rename_i hfirst
      split at h
      · cases h
      · rename_i hrest
        obtain rfl := Except.ok.inj h
        exact ⟨gets_of_settle hdraft.1 hfirst, gets_of_finish rest hdraft.2 hrest⟩

/-- An object is read round by round; what is unknown is passed over, so the draft stays one of values that
have been read. -/
theorem gets_of_readObject {ms : Members τ} {fuel : ℕ} {first : Bool} {draft : ms.Draft}
    {text rest : List Char} {b : τ} (hdraft : ms.Drafted draft)
    (h : ms.readObject fuel first draft text = .ok (b, rest)) : ms.Gets b := by
  fun_induction readObject ms fuel first draft text generalizing rest with
  | case3 fuel first draft text _ b' hfinish =>
    obtain ⟨rfl, -⟩ := Prod.mk.inj (Except.ok.inj h)
    exact gets_of_finish ms hdraft hfinish
  | case9 =>
    rename_i hread ih
    exact ih (drafted_readMember _ ms hdraft hread) h
  | case11 =>
    rename_i ih
    exact ih hdraft h
  | _ => cases h

theorem gets_of_readElement {m : Member α} {expected : String} {index : ℕ} {text rest : List Char} {a : α}
    (h : readElement m expected index text = .ok (a, rest)) : m.Gets a := by
  unfold readElement at h
  split at h
  · cases h
  · split at h
    · rename_i hshort
      obtain ⟨rfl, -⟩ := Prod.mk.inj (Except.ok.inj h)
      exact Or.inr (Or.inr hshort)
    · cases h
  · split at h
    · cases h
    · rename_i hread
      obtain ⟨rfl, -⟩ := Prod.mk.inj (Except.ok.inj h)
      exact Or.inl ⟨_, _, hread⟩

theorem gets_of_readArray (expected : String) : (ms : Members τ) → {index : ℕ} → {text rest : List Char} →
    {b : τ} → ms.readArray expected index text = .ok (b, rest) → ms.Gets b
  | .one _, _, _, _, _, h => gets_of_readElement h
  | .more m others, index, text, rest, b, h => by
    unfold readArray at h
    split at h
    · cases h
    · rename_i hfirst
      obtain ⟨⟨c, tail⟩, hrest, heq⟩ := exists_of_map_eq_ok h
      obtain ⟨rfl, -⟩ := Prod.mk.inj heq
      exact ⟨gets_of_readElement hfirst, gets_of_readArray expected others hrest⟩

/-- An object that is closed has been read. -/
theorem exists_of_closingObject {content : Reading α} {a : α} {rest : List Char}
    (h : closingObject content = .ok (a, rest)) : ∃ tail, content = .ok (a, tail) := by
  unfold closingObject at h
  split at h
  · cases h
  · obtain ⟨_, -, heq⟩ := exists_of_map_eq_ok h
    obtain ⟨rfl, -⟩ := Prod.mk.inj heq
    exact ⟨_, rfl⟩

end Members

/-- **A record that is read** is made of what its members can get. -/
theorem Codec.exists_gets_of_reads {title : String} {ms : Members τ} {parts : α → τ} {make : τ → α} {a : α}
    (h : (Codec.record title ms parts make).Reads a) : ∃ b, ms.Gets b ∧ a = make b := by
  obtain ⟨text, rest, h⟩ := h
  simp only [Codec.record] at h
  split at h
  · cases h
  · split at h
    · obtain ⟨⟨b, tail⟩, hclosed, heq⟩ := exists_of_map_eq_ok h
      obtain ⟨rfl, -⟩ := Prod.mk.inj heq
      obtain ⟨_, hobject⟩ := Members.exists_of_closingObject hclosed
      exact ⟨b, Members.gets_of_readObject (Members.drafted_blank ms) hobject, rfl⟩
    · split at h
      · obtain ⟨⟨b, tail⟩, hclosed, heq⟩ := exists_of_map_eq_ok h
        obtain ⟨rfl, -⟩ := Prod.mk.inj heq
        obtain ⟨_, harray⟩ := exists_of_closingList hclosed
        exact ⟨b, Members.gets_of_readArray _ ms harray, rfl⟩
      · cases h

/-! ## Kinds of members -/

namespace Member

variable {codec : Codec α} {name : String}

/-- A member that must be there has been read. -/
theorem reads_of_required {a : α} (h : (required name codec).Gets a) : codec.Reads a := by
  rcases h with h | h | h
  · exact h
  · cases h
  · cases h

/-- A member that may be absent has been read if it is there, in whichever form it is written when it is
absent: only its absence has something that stands in for it. -/
theorem reads_of_some {m : Member (Option α)} {a : α}
    (hm : m = optional name codec ∨ m = hidden name codec ∨ m = spare name codec) (h : m.Gets (some a)) :
    codec.Reads a := by
  have hread : m.codec = codec.option := by
    rcases hm with rfl | rfl | rfl <;> rfl
  have habsent : m.absent ≠ some (some a) ∧ m.short ≠ some (some a) := by
    rcases hm with rfl | rfl | rfl <;> simp [optional, hidden, spare]
  rcases h with h | h | h
  · exact Codec.reads_of_option (hread ▸ h)
  · exact absurd h habsent.1
  · exact absurd h habsent.2

end Member

end Piecework.Json
