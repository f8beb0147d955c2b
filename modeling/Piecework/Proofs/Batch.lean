/-
# Piecework.Proofs.Batch — sound batches of tasks.

The check of a batch walks over it with the identities it has seen.  It passes exactly the batches of one
owner whose identities differ and whose tasks depend on earlier ones only (`validate_eq_ok_iff`), and of any
other batch of one owner it names the first task that breaks this (`validate_eq_error_iff`).  A batch is also
a table: the task of an identity is the first one that has it.
-/
import Piecework.Dependency
import Piecework.Registry

namespace Piecework.Batch

/-! ## Batches as tables -/

/-- The task of an identity. -/
def task? (tasks : List Task) (id : TaskId) : Option Task := tasks.find? fun t => t.id = id

theorem mem_of_task? {tasks : List Task} {id : TaskId} {t : Task} (h : task? tasks id = some t) :
    t ∈ tasks ∧ t.id = id :=
  ⟨List.mem_of_find?_eq_some h, by simpa using List.find?_some h⟩

theorem task?_of_mem {tasks : List Task} (h : (tasks.map Task.id).Nodup) {task : Task}
    (ht : task ∈ tasks) : task? tasks task.id = some task := by
  induction tasks with
  | nil => exact absurd ht List.not_mem_nil
  | cons first rest ih =>
    rw [List.map_cons, List.nodup_cons] at h
    rcases List.mem_cons.mp ht with rfl | ht
    · exact List.find?_cons_of_pos (by simp)
    · have hne : first.id ≠ task.id := fun he => h.1 (he ▸ List.mem_map_of_mem ht)
      rw [task?, List.find?_cons_of_neg (by simpa using hne)]
      exact ih h.2 ht

/-- The entries of a batch in a registry are its table. -/
theorem lookup_entries (tasks : List Task) (id : TaskId) :
    (tasks.map fun t => (t.id, t)).lookup id = task? tasks id := by
  induction tasks with
  | nil => rfl
  | cons first rest ih =>
    rw [List.map_cons]
    by_cases h : first.id = id
    · rw [task?, List.find?_cons_of_pos (by simpa using h), ← h, List.lookup_cons_self]
    · rw [task?, List.find?_cons_of_neg (by simpa using h),
        Registry.lookup_cons_of_ne (fun he => h he.symm)]
      exact ih

/-! ## Batches in an order in which they can run -/

/-- Every task depends on tasks of the batch before it, or on the ones seen before the batch. -/
def Ordered : List TaskId → List Task → Prop
  | _, [] => True
  | seen, t :: rest => (∀ d ∈ t.dependencies, d ∈ seen) ∧ Ordered (t.id :: seen) rest

theorem Ordered.mono {tasks : List Task} {seen more : List TaskId} (h : Ordered seen tasks)
    (hs : ∀ d ∈ seen, d ∈ more) : Ordered more tasks := by
  induction tasks generalizing seen more with
  | nil => trivial
  | cons t rest ih =>
    refine ⟨fun d hd => hs d (h.1 d hd), ih h.2 ?_⟩
    intro d hd
    rcases List.mem_cons.mp hd with rfl | hd
    · exact List.mem_cons_self
    · exact List.mem_cons_of_mem _ (hs d hd)

/-- Behind a batch its own tasks may be depended on. -/
theorem Ordered.append {u v : List Task} {seen : List TaskId} (hu : Ordered seen u)
    (hv : Ordered (u.map Task.id ++ seen) v) : Ordered seen (u ++ v) := by
  induction u generalizing seen with
  | nil => exact hv
  | cons t rest ih =>
    refine ⟨hu.1, ih hu.2 (hv.mono ?_)⟩
    intro d hd
    simp only [List.map_cons, List.cons_append, List.mem_cons, List.mem_append] at hd ⊢
    rcases hd with rfl | hd | hd
    · exact Or.inr (Or.inl rfl)
    · exact Or.inl hd
    · exact Or.inr (Or.inr hd)

/-- Whatever a task of the batch depends on stands in front of it. -/
theorem Ordered.mem_of_mem_dependencies {front rest : List Task} {t : Task} {seen : List TaskId}
    (h : Ordered seen (front ++ t :: rest)) {id : TaskId} (hid : id ∈ t.dependencies) :
    id ∈ front.map Task.id ∨ id ∈ seen := by
  induction front generalizing seen with
  | nil => exact Or.inr (h.1 id hid)
  | cons first more ih =>
    rcases ih h.2 with hmem | hmem
    · exact Or.inl (List.mem_cons_of_mem _ hmem)
    · rcases List.mem_cons.mp hmem with rfl | hmem
      · exact Or.inl List.mem_cons_self
      · exact Or.inr hmem

/-- An order in which tasks can run, said of each task by itself. -/
theorem ordered_iff {tasks : List Task} {seen : List TaskId} :
    Ordered seen tasks ↔ ∀ front t rest, tasks = front ++ t :: rest →
      ∀ d ∈ t.dependencies, d ∈ front.map Task.id ∨ d ∈ seen := by
  constructor
  · rintro h front t rest rfl d hd
    exact h.mem_of_mem_dependencies hd
  · intro h
    induction tasks generalizing seen with
    | nil => trivial
    | cons t rest ih =>
      refine ⟨fun d hd => (h [] t rest rfl d hd).resolve_left List.not_mem_nil, ih ?_⟩
      rintro front u more rfl d hd
      rcases h (t :: front) u more rfl d hd with hmem | hmem
      · rcases List.mem_cons.mp hmem with rfl | hmem
        · exact Or.inr List.mem_cons_self
        · exact Or.inl hmem
      · exact Or.inr (List.mem_cons_of_mem _ hmem)

/-! ## The check -/

/-- The check looks at the first task, and then at the rest with this task among the ones seen. -/
theorem check_cons_eq_ok_iff {owner : ExpressionId} {seen : List TaskId} {t : Task}
    {rest : List Task} :
    check owner seen (t :: rest) = .ok () ↔
      t.owner = owner ∧ (∀ d ∈ t.dependencies, d ∈ seen) ∧ t.id ∉ seen ∧
        check owner (t.id :: seen) rest = .ok () := by
  rw [check]
  by_cases howner : t.owner = owner
  · rw [if_neg (by simpa using howner)]
    cases hfind : t.dependencies.find? fun id => id ∉ seen with
    | some dependency =>
      have hmem := List.mem_of_find?_eq_some hfind
      have hnot : dependency ∉ seen := by simpa using List.find?_some hfind
      simp only [reduceCtorEq, false_iff]
      exact fun h => hnot (h.2.1 dependency hmem)
    | none =>
      have hdeps : ∀ d ∈ t.dependencies, d ∈ seen := by simpa using List.find?_eq_none.mp hfind
      by_cases hseen : t.id ∈ seen
      · simp [hseen]
      · dsimp only
        rw [if_neg hseen]
        exact ⟨fun h => ⟨howner, hdeps, hseen, h⟩, fun h => h.2.2.2⟩
  · simp [howner]

theorem check_eq_ok_iff {owner : ExpressionId} {seen : List TaskId} {tasks : List Task} :
    check owner seen tasks = .ok () ↔
      (∀ t ∈ tasks, t.owner = owner) ∧ Ordered seen tasks ∧ (tasks.map Task.id).Nodup ∧
        ∀ t ∈ tasks, t.id ∉ seen := by
  induction tasks generalizing seen with
  | nil => simp [check, Ordered]
  | cons t rest ih =>
    rw [check_cons_eq_ok_iff, ih, List.forall_mem_cons, List.forall_mem_cons, Ordered, List.map_cons,
      List.nodup_cons]
    -- That the rest keeps apart from the identities seen means two things: it keeps apart from the
    -- first task, and from whatever was seen before.
    constructor
    · rintro ⟨howner, hdeps, hseen, ho, hord, hnd, hapart⟩
      refine ⟨⟨howner, ho⟩, ⟨hdeps, hord⟩, ⟨?_, hnd⟩, hseen, ?_⟩
      · intro hmem
        obtain ⟨u, hu, hid⟩ := List.mem_map.mp hmem
        exact hapart u hu (hid ▸ List.mem_cons_self)
      · intro u hu hmem
        exact hapart u hu (List.mem_cons_of_mem _ hmem)
    · rintro ⟨⟨howner, ho⟩, ⟨hdeps, hord⟩, ⟨hnot, hnd⟩, hseen, hrest⟩
      refine ⟨howner, hdeps, hseen, ho, hord, hnd, ?_⟩
      intro u hu hmem
      rcases List.mem_cons.mp hmem with hid | hmem
      · exact hnot (hid ▸ List.mem_map_of_mem hu)
      · exact hrest u hu hmem

/-- A batch of one owner passes when its identities differ and it is in an order in which it can run. -/
theorem validate_eq_ok_iff {owner : ExpressionId} {tasks : List Task}
    (h : ∀ t ∈ tasks, t.owner = owner) :
    validate tasks = .ok () ↔ Ordered [] tasks ∧ (tasks.map Task.id).Nodup := by
  cases tasks with
  | nil => simp [validate, Ordered]
  | cons t rest =>
    rw [validate, h t List.mem_cons_self, check_eq_ok_iff]
    constructor
    · exact fun hc => ⟨hc.2.1, hc.2.2.1⟩
    · exact fun hc => ⟨h, hc.1, hc.2, fun _ _ => List.not_mem_nil⟩

/-! ## What the check names -/

/-- How a task breaks the order behind tasks with these identities.  A dependency that is not among them comes
before the identity of the task itself. -/
inductive Breaks (seen : List TaskId) (t : Task) : GraphFault → Prop
  | dependency {before behind : List TaskId} {d : TaskId} :
      t.dependencies = before ++ d :: behind → (∀ x ∈ before, x ∈ seen) → d ∉ seen →
      Breaks seen t (.unknownDependency t.id d)
  | identity : (∀ d ∈ t.dependencies, d ∈ seen) → t.id ∈ seen → Breaks seen t (.duplicate t.id)

/-- The first task that breaks the order, and how. -/
def FirstBreak (tasks : List Task) (fault : GraphFault) : Prop :=
  ∃ front t rest, tasks = front ++ t :: rest ∧ Ordered [] front ∧ (front.map Task.id).Nodup ∧
    Breaks (front.map Task.id) t fault

theorem Breaks.congr {seen more : List TaskId} {t : Task} {fault : GraphFault} (h : Breaks seen t fault)
    (hs : ∀ x, x ∈ seen ↔ x ∈ more) : Breaks more t fault := by
  cases h with
  | dependency hsplit hbefore hd =>
    exact .dependency hsplit (fun x hx => (hs x).mp (hbefore x hx)) (mt (hs _).mpr hd)
  | identity hdeps hid => exact .identity (fun d hd => (hs d).mp (hdeps d hd)) ((hs _).mp hid)

/-- What the check looks for in one task is how it breaks the order. -/
theorem breaks_iff {seen : List TaskId} {t : Task} {fault : GraphFault} :
    Breaks seen t fault ↔
      (∃ d, (t.dependencies.find? fun id => id ∉ seen) = some d ∧ fault = .unknownDependency t.id d) ∨
        ((t.dependencies.find? fun id => id ∉ seen) = none ∧ t.id ∈ seen ∧ fault = .duplicate t.id) := by
  constructor
  · rintro (⟨hsplit, hbefore, hd⟩ | ⟨hdeps, hid⟩)
    · refine Or.inl ⟨_, List.find?_eq_some_iff_append.mpr ⟨by simpa using hd, _, _, hsplit, ?_⟩, rfl⟩
      exact fun x hx => by simpa using hbefore x hx
    · exact Or.inr ⟨List.find?_eq_none.mpr fun d hd => by simpa using hdeps d hd, hid, rfl⟩
  · rintro (⟨d, hfind, rfl⟩ | ⟨hfind, hid, rfl⟩)
    · obtain ⟨hd, before, behind, hsplit, hbefore⟩ := List.find?_eq_some_iff_append.mp hfind
      exact .dependency hsplit (fun x hx => by simpa using hbefore x hx) (by simpa using hd)
    · exact .identity (fun d hd => by simpa using List.find?_eq_none.mp hfind d hd) hid

section Check

variable {owner : ExpressionId} {seen : List TaskId} {t : Task} {rest : List Task} {fault : GraphFault}

theorem check_cons_of_breaks (howner : t.owner = owner) (h : Breaks seen t fault) :
    check owner seen (t :: rest) = .error fault := by
  rw [check, if_neg (by simpa using howner)]
  rcases breaks_iff.mp h with ⟨d, hfind, rfl⟩ | ⟨hfind, hid, rfl⟩
  · rw [hfind]
  · rw [hfind]
    exact if_pos hid

/-- A task that breaks nothing is passed, whatever comes behind it. -/
theorem check_cons_of_not_breaks (howner : t.owner = owner) (h : ∀ fault, ¬Breaks seen t fault) :
    check owner seen (t :: rest) = check owner (t.id :: seen) rest := by
  rw [check, if_neg (by simpa using howner)]
  cases hfind : t.dependencies.find? fun id => id ∉ seen with
  | some d => exact absurd (breaks_iff.mpr (Or.inl ⟨d, hfind, rfl⟩)) (h _)
  | none => exact if_neg fun hid => h _ (breaks_iff.mpr (Or.inr ⟨hfind, hid, rfl⟩))

/-- Where the owner is right, the check names the task behind a front that passes. -/
theorem check_eq_error_iff {tasks : List Task} (howner : ∀ t ∈ tasks, t.owner = owner) :
    check owner seen tasks = .error fault ↔
      ∃ front t rest, tasks = front ++ t :: rest ∧ check owner seen front = .ok () ∧
        Breaks (front.map Task.id ++ seen) t fault := by
  induction tasks generalizing seen with
  | nil => simp [check]
  | cons t rest ih =>
    rw [List.forall_mem_cons] at howner
    by_cases hbreak : ∃ other, Breaks seen t other
    · obtain ⟨other, hother⟩ := hbreak
      have hread : check owner seen (t :: rest) = .error other := check_cons_of_breaks howner.1 hother
      rw [hread]
      constructor
      · intro h
        exact ⟨[], t, rest, rfl, rfl, Except.error.inj h ▸ hother⟩
      · rintro ⟨front, u, more, hsplit, hfront, hbreaks⟩
        cases front with
        | nil =>
          obtain ⟨rfl, -⟩ := List.cons.inj hsplit
          exact hread.symm.trans (check_cons_of_breaks howner.1 hbreaks)
        -- No front that holds the first task passes.
        | cons first front =>
          obtain ⟨rfl, -⟩ := List.cons.inj hsplit
          rw [check_cons_of_breaks howner.1 hother] at hfront
          exact absurd hfront (by simp)
    · have hpass : ∀ other, ¬Breaks seen t other := fun other h => hbreak ⟨other, h⟩
      have hseen : ∀ (front : List Task) (x : TaskId),
          x ∈ front.map Task.id ++ t.id :: seen ↔ x ∈ (t :: front).map Task.id ++ seen := by
        intro front x
        simp only [List.map_cons, List.cons_append, List.mem_append, List.mem_cons]
        exact or_left_comm
      rw [check_cons_of_not_breaks howner.1 hpass, ih howner.2]
      constructor
      · rintro ⟨front, u, more, rfl, hfront, hbreaks⟩
        refine ⟨t :: front, u, more, rfl, ?_, hbreaks.congr (hseen front)⟩
        rw [check_cons_of_not_breaks howner.1 hpass]
        exact hfront
      · rintro ⟨front, u, more, hsplit, hfront, hbreaks⟩
        cases front with
        | nil =>
          obtain ⟨rfl, -⟩ := List.cons.inj hsplit
          exact absurd hbreaks (hpass fault)
        | cons first front =>
          obtain ⟨rfl, rfl⟩ := List.cons.inj hsplit
          rw [check_cons_of_not_breaks howner.1 hpass] at hfront
          exact ⟨front, u, more, rfl, hfront, hbreaks.congr fun x => (hseen front x).symm⟩

end Check

/-- **A batch of one owner fails** with its first break. -/
theorem validate_eq_error_iff {owner : ExpressionId} {tasks : List Task} {fault : GraphFault}
    (howner : ∀ t ∈ tasks, t.owner = owner) : validate tasks = .error fault ↔ FirstBreak tasks fault := by
  have hvalidate : validate tasks = check owner [] tasks := by
    cases tasks with
    | nil => rfl
    | cons t rest => rw [validate, howner t List.mem_cons_self]
  rw [hvalidate, check_eq_error_iff howner]
  refine exists_congr fun front => exists_congr fun t => exists_congr fun rest =>
    and_congr_right fun hsplit => ?_
  have hfront : ∀ u ∈ front, u.owner = owner :=
    fun u hu => howner u (hsplit ▸ List.mem_append_left _ hu)
  rw [check_eq_ok_iff, List.append_nil]
  constructor
  · exact fun h => ⟨h.1.2.1, h.1.2.2.1, h.2⟩
  · exact fun h => ⟨⟨hfront, h.1, h.2.1, fun _ _ => List.not_mem_nil⟩, h.2.2⟩

end Piecework.Batch
