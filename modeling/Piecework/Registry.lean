/-
# Piecework.Registry — a table that remembers the order of its entries.

Entries are kept in the order in which they were added, and each key is looked up by the first entry
that has it.  Listing follows that order, so a registry answers both "what is stored under this key"
and "what came first".
-/
namespace Piecework

/-- Values by key, in the order in which they were added. -/
structure Registry (κ α : Type) where
  entries : List (κ × α)
deriving DecidableEq

namespace Registry

variable {κ α : Type}

/-- A registry without entries. -/
def empty : Registry κ α := ⟨[]⟩

/-- The keys in order. -/
def keys (r : Registry κ α) : List κ := r.entries.map Prod.fst

/-- The values in order. -/
def values (r : Registry κ α) : List α := r.entries.map Prod.snd

/-- Adds an entry behind all others. -/
def push (r : Registry κ α) (k : κ) (a : α) : Registry κ α := ⟨r.entries ++ [(k, a)]⟩

/-- Adds entries behind all others. -/
def append (r : Registry κ α) (entries : List (κ × α)) : Registry κ α := ⟨r.entries ++ entries⟩

/-- A new entry stands behind all others. -/
@[simp]
theorem keys_push (r : Registry κ α) (k : κ) (a : α) : (r.push k a).keys = r.keys ++ [k] := by
  simp [keys, push]

variable [DecidableEq κ]

/-- The value of a key. -/
def get? (r : Registry κ α) (k : κ) : Option α := r.entries.lookup k

/-- Whether a key has a value. -/
def contains (r : Registry κ α) (k : κ) : Bool := (r.get? k).isSome

/-- Puts another value in the place of a key. -/
def set (r : Registry κ α) (k : κ) (a : α) : Registry κ α :=
  ⟨r.entries.map fun e => if e.1 = k then (k, a) else e⟩

/-- Takes a key out, as a caller may who keeps tasks of its own; a store keeps all it has. -/
def erase (r : Registry κ α) (k : κ) : Registry κ α := ⟨r.entries.filter fun e => e.1 ≠ k⟩

/-- Putting a value in its place keeps the keys and their order. -/
@[simp]
theorem keys_set (r : Registry κ α) (k : κ) (a : α) : (r.set k a).keys = r.keys := by
  simp only [keys, set, List.map_map]
  apply List.map_congr_left
  intro e _
  by_cases h : e.1 = k <;> simp [h]

/-! ## Looking up -/

@[simp]
theorem get?_empty (k : κ) : (empty : Registry κ α).get? k = none := rfl

theorem lookup_cons_of_ne {k j : κ} (h : j ≠ k) (a : α) (rest : List (κ × α)) :
    ((k, a) :: rest).lookup j = rest.lookup j := by
  rw [List.lookup_cons, beq_eq_false_iff_ne.mpr h]

/-- An entry that is already there hides a new one. -/
theorem get?_push (r : Registry κ α) (k : κ) (a : α) (j : κ) :
    (r.push k a).get? j = (r.get? j).or (if j = k then some a else none) := by
  rw [get?, push, List.lookup_append, get?]
  by_cases h : j = k
  · subst h
    rw [List.lookup_cons_self, if_pos rfl]
  · rw [lookup_cons_of_ne h, if_neg h, List.lookup_nil]

theorem get?_append (r : Registry κ α) (entries : List (κ × α)) (j : κ) :
    (r.append entries).get? j = (r.get? j).or (entries.lookup j) :=
  List.lookup_append

/-- Another value in the place of a key is found there, if the key has a place. -/
theorem get?_set (r : Registry κ α) (k : κ) (a : α) (j : κ) :
    (r.set k a).get? j = if j = k then (r.get? j).map fun _ => a else r.get? j := by
  rcases r with ⟨entries⟩
  simp only [get?, set]
  induction entries with
  | nil => simp
  | cons e rest ih =>
    rcases e with ⟨i, b⟩
    rw [List.map_cons]
    by_cases hj : j = i
    · subst hj
      by_cases hi : j = k
      · rw [if_pos hi, if_pos hi, ← hi, List.lookup_cons_self, List.lookup_cons_self, Option.map_some]
      · rw [if_neg hi, if_neg hi, List.lookup_cons_self, List.lookup_cons_self]
    · by_cases hi : i = k
      · rw [if_pos hi, lookup_cons_of_ne (hi ▸ hj), ih, lookup_cons_of_ne hj]
      · rw [if_neg hi, lookup_cons_of_ne hj, ih, lookup_cons_of_ne hj]

/-- Nothing is found under a key that was taken out, and the other keys keep their values. -/
theorem get?_erase (r : Registry κ α) (k j : κ) :
    (r.erase k).get? j = if j = k then none else r.get? j := by
  rcases r with ⟨entries⟩
  simp only [get?, erase]
  induction entries with
  | nil => simp
  | cons e rest ih =>
    rcases e with ⟨i, b⟩
    by_cases hi : i = k
    · rw [List.filter_cons_of_neg (by simp [hi]), ih]
      by_cases hj : j = k
      · rw [if_pos hj, if_pos hj]
      · rw [if_neg hj, if_neg hj, lookup_cons_of_ne (hi ▸ hj)]
    · rw [List.filter_cons_of_pos (by simp [hi])]
      by_cases hj : j = i
      · rw [hj, List.lookup_cons_self, List.lookup_cons_self, if_neg hi]
      · rw [lookup_cons_of_ne hj, ih, lookup_cons_of_ne hj]

/-- What is found under a key is an entry. -/
theorem mem_of_get? {r : Registry κ α} {k : κ} {a : α} (h : r.get? k = some a) :
    (k, a) ∈ r.entries := by
  obtain ⟨u, v, huv, -⟩ := List.lookup_eq_some_iff.mp h
  rw [huv]
  simp

/-- Where no key stands twice, every entry is found under its key. -/
theorem get?_of_mem {r : Registry κ α} (hn : r.keys.Nodup) {k : κ} {a : α}
    (h : (k, a) ∈ r.entries) : r.get? k = some a := by
  rcases r with ⟨entries⟩
  simp only [keys, get?] at hn h ⊢
  induction entries with
  | nil => simp at h
  | cons e rest ih =>
    rw [List.map_cons, List.nodup_cons] at hn
    rcases List.mem_cons.mp h with rfl | h
    · simp
    · have hne : k ≠ e.1 := fun he => hn.1 (he ▸ List.mem_map_of_mem (f := Prod.fst) h)
      rw [lookup_cons_of_ne hne]
      exact ih hn.2 h

theorem get?_eq_none_iff {r : Registry κ α} {k : κ} : r.get? k = none ↔ k ∉ r.keys := by
  rw [get?, List.lookup_eq_none_iff, keys, List.mem_map]
  constructor
  · rintro h ⟨e, he, rfl⟩
    exact absurd (h e he) (by simp)
  · intro h e he
    exact bne_iff_ne.mpr fun hk => h ⟨e, he, hk.symm⟩

theorem mem_keys_iff {r : Registry κ α} {k : κ} : k ∈ r.keys ↔ ∃ a, r.get? k = some a := by
  rw [← Option.ne_none_iff_exists', Ne, get?_eq_none_iff, Classical.not_not]

theorem contains_eq_false_iff {r : Registry κ α} {k : κ} :
    r.contains k = false ↔ r.get? k = none := by
  rw [contains, Option.isSome_eq_false_iff, Option.isNone_iff_eq_none]

/-! ## Registries of things that know their key -/

/-- Every value stands under its own key, and no key stands twice. -/
structure Keyed (key : α → κ) (r : Registry κ α) : Prop where
  key_eq : ∀ p ∈ r.entries, key p.2 = p.1
  nodup : r.keys.Nodup

namespace Keyed

variable {key : α → κ} {r : Registry κ α}

omit [DecidableEq κ] in
theorem empty (key : α → κ) : Keyed key (.empty : Registry κ α) :=
  ⟨fun _ h => absurd h List.not_mem_nil, List.nodup_nil⟩

theorem key_of_get? (h : Keyed key r) {k : κ} {a : α} (ha : r.get? k = some a) : key a = k :=
  h.key_eq _ (mem_of_get? ha)

theorem push (h : Keyed key r) {a : α} (hnew : r.get? (key a) = none) :
    Keyed key (r.push (key a) a) := by
  constructor
  · intro p hp
    rcases List.mem_append.mp hp with hp | hp
    · exact h.key_eq p hp
    · rw [List.mem_singleton.mp hp]
  · rw [keys_push, List.nodup_append]
    refine ⟨h.nodup, by simp, ?_⟩
    rintro k hk j hj rfl
    rw [List.mem_singleton.mp hj] at hk
    exact get?_eq_none_iff.mp hnew hk

/-- Several new values with different keys. -/
theorem append (h : Keyed key r) {values : List α} (hn : (values.map key).Nodup)
    (hnew : ∀ a ∈ values, r.get? (key a) = none) :
    Keyed key (r.append (values.map fun a => (key a, a))) := by
  constructor
  · intro p hp
    rcases List.mem_append.mp hp with hp | hp
    · exact h.key_eq p hp
    · obtain ⟨a, -, rfl⟩ := List.mem_map.mp hp
      rfl
  · have hkeys : (r.append (values.map fun a => (key a, a))).keys = r.keys ++ values.map key := by
      simp [keys, Registry.append, Function.comp_def]
    rw [hkeys, List.nodup_append]
    refine ⟨h.nodup, hn, ?_⟩
    rintro k hk j hj rfl
    obtain ⟨a, ha, rfl⟩ := List.mem_map.mp hj
    exact get?_eq_none_iff.mp (hnew a ha) hk

theorem set (h : Keyed key r) (a : α) : Keyed key (r.set (key a) a) := by
  constructor
  · intro p hp
    obtain ⟨q, hq, rfl⟩ := List.mem_map.mp hp
    by_cases hk : q.1 = key a
    · rw [if_pos hk]
    · rw [if_neg hk]
      exact h.key_eq q hq
  · rw [keys_set]
    exact h.nodup

end Keyed

end Registry

end Piecework
