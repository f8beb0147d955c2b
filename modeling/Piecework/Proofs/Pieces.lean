/-
# Piecework.Proofs.Pieces — the first fault of a text, and that nothing is lost where there is none.

A text falls into pieces: the longest runs of digits and points, and all other characters one by one.  With a piece
something may be wrong: a run may be no finite number, a character may not be allowed, and a closing bracket may
close nothing.  The first such piece decides what is reported, however the scanner and the stack of waiting
operators share the work.  Where no piece is faulty only an opening bracket can be left over, and if none is, all
numbers come out in order and all operators somewhere.

The work is told piece by piece, from any place in the text and with any stack: one piece in `exists_resume_sound`,
a whole front without a fault in `exists_resume_front`, and the piece that ends it in `resume_faulty`.
-/
import Mathlib.Data.List.SplitBy
import Mathlib.Data.String.Basic
import Piecework.Proofs.Acceptance

namespace Piecework

namespace Infix

/-! ## Pieces -/

/-- The longest runs of digits and points, and all other characters one by one. -/
def pieces (text : List Char) : List (List Char) := text.splitBy fun a b => isNumeral a && isNumeral b

/-- Lists of runs and single characters in which no run goes on behind its end. -/
inductive Pieced : List (List Char) → Prop
  | nil : Pieced []
  | run {run : List Char} {rest : List (List Char)} : run ≠ [] → (∀ c ∈ run, isNumeral c = true) →
      Stops rest.flatten → Pieced rest → Pieced (run :: rest)
  | single {c : Char} {rest : List (List Char)} : isNumeral c = false → Pieced rest → Pieced ([c] :: rest)

theorem flatten_pieces (text : List Char) : (pieces text).flatten = text :=
  List.flatten_splitBy _ text

/-- Behind a character of a numeral there are only such characters in the piece. -/
theorem isNumeral_of_isChain {c : Char} {more : List Char} (hc : isNumeral c = true)
    (h : (c :: more).IsChain fun a b => (isNumeral a && isNumeral b) = true) :
    ∀ d ∈ c :: more, isNumeral d = true := by
  induction more generalizing c with
  | nil => simpa using hc
  | cons d more ih =>
    obtain ⟨hcd, hrest⟩ := List.isChain_cons_cons.mp h
    have hd : isNumeral d = true := (Bool.and_eq_true_iff.mp hcd).2
    intro e he
    rcases List.mem_cons.mp he with rfl | he
    · exact hc
    · exact ih hd hrest e he

theorem pieced_pieces (text : List Char) : Pieced (pieces text) := by
  have hne : ∀ piece ∈ pieces text, piece ≠ [] := fun piece h => List.ne_nil_of_mem_splitBy h
  have hin : ∀ piece ∈ pieces text, piece.IsChain fun a b => (isNumeral a && isNumeral b) = true :=
    fun piece h => List.isChain_of_mem_splitBy h
  have hbetween := List.isChain_getLast_head_splitBy (fun a b => isNumeral a && isNumeral b) text
  change (pieces text).IsChain _ at hbetween
  generalize pieces text = ps at hne hin hbetween
  induction ps with
  | nil => exact .nil
  | cons piece rest ih =>
    have hrest : Pieced rest := ih (fun p hp => hne p (List.mem_cons_of_mem _ hp))
      (fun p hp => hin p (List.mem_cons_of_mem _ hp)) hbetween.tail
    obtain ⟨c, more, rfl⟩ := List.exists_cons_of_ne_nil (hne piece List.mem_cons_self)
    have hchain := hin _ List.mem_cons_self
    cases hc : isNumeral c with
    | false =>
      cases more with
      | nil => exact .single hc hrest
      | cons d more =>
        have hcd := (List.isChain_cons_cons.mp hchain).1
        rw [hc] at hcd
        exact absurd hcd (by simp)
    | true =>
      have hall := isNumeral_of_isChain hc hchain
      refine .run (List.cons_ne_nil _ _) hall ?_ hrest
      cases rest with
      | nil => exact fun d hd => absurd hd (by simp)
      | cons next rest =>
        obtain ⟨⟨_, hnext, hstop⟩, -⟩ := List.isChain_cons_cons.mp hbetween
        obtain ⟨d, others, rfl⟩ := List.exists_cons_of_ne_nil hnext
        rw [hall _ (List.getLast_mem _), Bool.true_and] at hstop
        rintro e ⟨⟩
        exact hstop

theorem Pieced.right (front : List (List Char)) {rest : List (List Char)} (h : Pieced (front ++ rest)) :
    Pieced rest := by
  induction front with
  | nil => exact h
  | cons piece front ih =>
    cases h with
    | run _ _ _ h => exact ih h
    | single _ h => exact ih h

theorem Pieced.stops {run : List Char} {rest : List (List Char)} (h : Pieced (run :: rest))
    (hrun : ∀ c ∈ run, isNumeral c = true) : Stops rest.flatten := by
  cases h with
  | run _ _ hs _ => exact hs
  | single hc _ => exact absurd (hrun _ List.mem_cons_self) (by simp [hc])

/-- The bytes that pieces take. -/
def place (front : List (List Char)) : Nat := (String.ofList front.flatten).utf8ByteSize

/-- The numbers of the runs, in order. -/
def runValues (ps : List (List Char)) : List Float :=
  (ps.filter fun piece => piece.all isNumeral).map numeralValue

/-! ## What can be wrong with a piece -/

/-- What is wrong with a piece behind others. -/
inductive Faulty (front : List (List Char)) : List Char → CompileFault → Prop
  /-- A run with two points, without a digit, or too large. -/
  | number {run : List Char} : (∀ c ∈ run, isNumeral c = true) →
      (1 < run.count '.' ∨ (∀ c ∈ run, c.isDigit = false) ∨ Number.isFinite (numeralValue run) = false) →
      Faulty front run (.number (.ofList run))
  /-- A character that is no symbol and no blank; its place is counted in bytes. -/
  | character {c : Char} : isNumeral c = false → Operation.ofSymbol? c = none → c ≠ '(' → c ≠ ')' →
      Text.isBlank c = false → Faulty front [c] (.notAllowed c (place front))
  /-- A closing bracket where all that were opened are closed. -/
  | closing : front.flatten.count '(' ≤ front.flatten.count ')' → Faulty front [')'] .brackets

/-- Nothing is wrong with any of the pieces. -/
def IsClean (ps : List (List Char)) : Prop :=
  ∀ front piece rest fault, ps = front ++ piece :: rest → ¬Faulty front piece fault

/-- The fault of the first piece with which something is wrong. -/
def FirstFault (ps : List (List Char)) (fault : CompileFault) : Prop :=
  ∃ front piece rest, ps = front ++ piece :: rest ∧ IsClean front ∧ Faulty front piece fault

/-- Pieces with which nothing is wrong behind others. -/
inductive Sound (front : List (List Char)) : List Char → Prop
  | number {run : List Char} : IsNumeral run → Number.isFinite (numeralValue run) = true → Sound front run
  | operator (o : Operation) : Sound front [o.symbol]
  | opening : Sound front ['(']
  | closing : front.flatten.count ')' < front.flatten.count '(' → Sound front [')']
  | blank {c : Char} : Text.isBlank c = true → Sound front [c]

theorem isClean_nil : IsClean [] :=
  fun _ _ _ _ h => absurd h (by simp)

theorem IsClean.concat {ps : List (List Char)} {piece : List Char} (h : IsClean ps)
    (hpiece : ∀ fault, ¬Faulty ps piece fault) : IsClean (ps ++ [piece]) := by
  intro front p rest fault hsplit
  rcases List.eq_nil_or_concat rest with rfl | ⟨rest, last, rfl⟩
  · obtain ⟨rfl, hp⟩ := List.append_inj' hsplit rfl
    obtain rfl := List.head_eq_of_cons_eq hp
    exact hpiece fault
  · rw [List.concat_eq_append, ← List.cons_append, ← List.append_assoc] at hsplit
    exact h front p rest fault (List.append_inj' hsplit rfl).1

/-- Either nothing is wrong, or there is a first piece with which something is. -/
theorem isClean_or_firstFault (ps : List (List Char)) : IsClean ps ∨ ∃ fault, FirstFault ps fault := by
  induction ps using List.reverseRecOn with
  | nil => exact Or.inl isClean_nil
  | append_singleton ps piece ih =>
    rcases ih with hclean | ⟨fault, front, p, rest, rfl, hclean, hfault⟩
    · by_cases hpiece : ∃ fault, Faulty ps piece fault
      · obtain ⟨fault, hfault⟩ := hpiece
        exact Or.inr ⟨fault, ps, piece, [], rfl, hclean, hfault⟩
      · exact Or.inl (hclean.concat fun fault hfault => hpiece ⟨fault, hfault⟩)
    · exact Or.inr ⟨fault, front, p, rest ++ [piece], by simp, hclean, hfault⟩

/-! ## Sound or faulty -/

/-- A character of a numeral is no other symbol, and takes one byte. -/
theorem numeral_apart {c : Char} (h : isNumeral c = true) :
    Operation.ofSymbol? c = none ∧ c ≠ '(' ∧ c ≠ ')' ∧ c.utf8Size = 1 := by
  have hall : numerals.all (fun c => Operation.ofSymbol? c = none ∧ c ≠ '(' ∧ c ≠ ')' ∧ c.utf8Size = 1) = true := by
    decide
  exact of_decide_eq_true (List.all_eq_true.mp hall c (mem_numerals h))

theorem sound_or_faulty {front rest : List (List Char)} {piece : List Char} (h : Pieced (piece :: rest)) :
    Sound front piece ∨ ∃ fault, Faulty front piece fault := by
  cases h with
  | run hne hrun _ _ =>
    by_cases hpoint : 1 < piece.count '.'
    · exact Or.inr ⟨_, .number hrun (Or.inl hpoint)⟩
    by_cases hdigit : ∃ c ∈ piece, c.isDigit = true
    · cases hfinite : Number.isFinite (numeralValue piece) with
      | true => exact Or.inl (.number ⟨hrun, hdigit, Nat.le_of_not_lt hpoint⟩ hfinite)
      | false => exact Or.inr ⟨_, .number hrun (Or.inr (Or.inr hfinite))⟩
    · exact Or.inr ⟨_, .number hrun (Or.inr (Or.inl (by simpa using hdigit)))⟩
  | @single c _ hc _ =>
    cases ho : Operation.ofSymbol? c with
    | some o =>
      rw [← Operation.ofSymbol?_eq_some_iff.mp ho]
      exact Or.inl (.operator o)
    | none =>
      by_cases hopening : c = '('
      · exact Or.inl (hopening ▸ .opening)
      by_cases hclosing : c = ')'
      · subst hclosing
        rcases Nat.lt_or_ge (front.flatten.count ')') (front.flatten.count '(') with hlt | hle
        · exact Or.inl (.closing hlt)
        · exact Or.inr ⟨_, .closing hle⟩
      cases hblank : Text.isBlank c with
      | true => exact Or.inl (.blank hblank)
      | false => exact Or.inr ⟨_, .character hc ho hopening hclosing hblank⟩

/-- A run with which something is wrong is no finite number. -/
theorem not_isNumeral_of_faulty {run : List Char}
    (h : 1 < run.count '.' ∨ (∀ c ∈ run, c.isDigit = false) ∨ Number.isFinite (numeralValue run) = false) :
    ¬(IsNumeral run ∧ Number.isFinite (numeralValue run) = true) := by
  rintro ⟨hnumeral, hfinite⟩
  rcases h with hpoint | hnone | hlarge
  · exact absurd hnumeral.point (Nat.not_le.mpr hpoint)
  · obtain ⟨c, hc, hdigit⟩ := hnumeral.digit
    exact absurd hdigit (by simp [hnone c hc])
  · exact absurd hfinite (by simp [hlarge])

/-- What is sound is not faulty. -/
theorem Sound.not_faulty {front : List (List Char)} {piece : List Char} (h : Sound front piece)
    (fault : CompileFault) : ¬Faulty front piece fault := by
  intro hfault
  cases hfault with
  | number hrun hbad =>
    cases h with
    | number hnumeral hfinite => exact not_isNumeral_of_faulty hbad ⟨hnumeral, hfinite⟩
    | operator o => exact absurd (hrun _ List.mem_cons_self) (by simp [not_isNumeral_symbol])
    | opening => exact absurd (hrun _ List.mem_cons_self) (by decide)
    | closing _ => exact absurd (hrun _ List.mem_cons_self) (by decide)
    | blank hblank => exact absurd (hrun _ List.mem_cons_self) (by simp [(blank_apart hblank).1])
  | character hc ho hl hr hb =>
    cases h with
    | number hnumeral _ => exact absurd (hnumeral.numeral _ List.mem_cons_self) (by simp [hc])
    | operator o =>
      rw [Operation.ofSymbol?_eq_some_iff.mpr rfl] at ho
      exact absurd ho (by simp)
    | opening => exact hl rfl
    | closing _ => exact hr rfl
    | blank hblank => exact absurd hblank (by simp [hb])
  | closing hle =>
    generalize hpiece : [')'] = piece at h
    cases h with
    | number hnumeral _ => exact absurd (hnumeral.numeral ')' (hpiece ▸ List.mem_cons_self)) (by decide)
    | operator o => cases o <;> exact absurd hpiece (by decide)
    | opening => exact absurd hpiece (by decide)
    | closing hlt => exact absurd hlt (Nat.not_lt.mpr hle)
    | blank hblank =>
      obtain rfl := List.head_eq_of_cons_eq hpiece
      exact absurd hblank (by decide)

end Infix

namespace Postfix

open Infix

/-! ## The work, piece by piece -/

/-- What becomes of a text from some place on, with what waits on the stack by then. -/
def resume (position : Nat) (stack : List Waiting) (text : List Char) : Except CompileFault (List Item) :=
  arrange (scanFrom position text).fault stack (scanFrom position text).symbols

theorem place_concat (front : List (List Char)) (piece : List Char) :
    place (front ++ [piece]) = place front + String.utf8Len piece := by
  rw [place, place, String.utf8ByteSize_ofList, String.utf8ByteSize_ofList, List.flatten_concat,
    String.utf8Len_append]

theorem utf8Len_run {run : List Char} (h : ∀ c ∈ run, isNumeral c = true) : String.utf8Len run = run.length := by
  induction run with
  | nil => rfl
  | cons c more ih =>
    rw [String.utf8Len_cons, ih fun d hd => h d (List.mem_cons_of_mem c hd), List.length_cons,
      (numeral_apart (h c List.mem_cons_self)).2.2.2]

theorem utf8Len_singleton (c : Char) : String.utf8Len [c] = c.utf8Size := by
  rw [String.utf8Len_cons, String.utf8Len_nil, Nat.zero_add]

/-- A piece stands for a symbol. -/
structure Means (piece : List Char) (symbol : Symbol) : Prop where
  numbers : numbersOf [symbol] = runValues [piece]
  operators : operatorsOf [symbol] = piece.filterMap Operation.ofSymbol?
  opening : [symbol].count .opening = piece.count '('
  closing : [symbol].count .closing = piece.count ')'

theorem means_run {run : List Char} (h : ∀ c ∈ run, isNumeral c = true) :
    Means run (.number (numeralValue run)) := by
  have hall : run.all isNumeral = true := List.all_eq_true.mpr h
  refine ⟨?_, ?_, ?_, ?_⟩
  · simp [runValues, hall, numbersOf]
  · exact (List.filterMap_eq_nil_iff.mpr fun c hc => (numeral_apart (h c hc)).1).symm
  · exact (List.count_eq_zero.mpr fun hc => (numeral_apart (h _ hc)).2.1 rfl).symm
  · exact (List.count_eq_zero.mpr fun hc => (numeral_apart (h _ hc)).2.2.1 rfl).symm

theorem means_operator (o : Operation) : Means [o.symbol] (.operator o) := by
  cases o <;> exact ⟨rfl, rfl, rfl, rfl⟩

theorem means_opening : Means ['('] .opening := ⟨rfl, rfl, rfl, rfl⟩

theorem means_closing : Means [')'] .closing := ⟨rfl, rfl, rfl, rfl⟩

/-- What has become of pieces: their numbers are put out, their operators are put out or wait, together with those
that were waiting before, and the brackets that were opened and not closed wait too. -/
structure Passes (stack : List Waiting) (ps : List (List Char)) (out : List Item) (kept : List Waiting) : Prop where
  numbers : numbersIn out = runValues ps
  operators : (operatorsIn out ++ held kept).Perm (ps.flatten.filterMap Operation.ofSymbol? ++ held stack)
  brackets : openings kept + ps.flatten.count ')' = openings stack + ps.flatten.count '('

namespace Passes

variable {stack middle kept : List Waiting} {u v : List (List Char)} {out more : List Item}

theorem refl (stack : List Waiting) : Passes stack [] [] stack :=
  ⟨rfl, .refl _, rfl⟩

theorem append (hu : Passes stack u out middle) (hv : Passes middle v more kept) :
    Passes stack (u ++ v) (out ++ more) kept := by
  constructor
  · rw [numbersIn_append, hu.numbers, hv.numbers, runValues, runValues, runValues, List.filter_append,
      List.map_append]
  · refine List.perm_iff_count.mpr fun o => ?_
    have hleft := hu.operators.count_eq o
    have hright := hv.operators.count_eq o
    simp only [operatorsIn_append, List.flatten_append, List.filterMap_append, List.count_append] at hleft hright ⊢
    omega
  · have hleft := hu.brackets
    have hright := hv.brackets
    simp only [List.flatten_append, List.count_append]
    omega

/-- A piece that stands for a symbol does what the symbol does. -/
theorem of_steps {piece : List Char} {symbol : Symbol} (h : Steps stack symbol out kept)
    (hmeans : Means piece symbol) : Passes stack [piece] out kept := by
  constructor
  · rw [h.numbers, hmeans.numbers]
  · rw [List.flatten_singleton, ← hmeans.operators]
    exact h.operators
  · rw [List.flatten_singleton, ← hmeans.opening, ← hmeans.closing]
    exact h.brackets

/-- A blank does nothing. -/
theorem blank {c : Char} (h : Text.isBlank c = true) : Passes stack [[c]] [] stack := by
  obtain ⟨hnumeral, hsymbol, hl, hr⟩ := blank_apart h
  constructor
  · simp [runValues, hnumeral, numbersIn]
  · simp [hsymbol, operatorsIn]
  · simp [hl, hr]

end Passes

/-- The brackets that wait are those that are open in front. -/
def Opened (front : List (List Char)) (stack : List Waiting) : Prop :=
  openings stack + front.flatten.count ')' = front.flatten.count '('

theorem Opened.append {front ps : List (List Char)} {stack kept : List Waiting} {out : List Item}
    (h : Opened front stack) (hpass : Passes stack ps out kept) : Opened (front ++ ps) kept := by
  have hbrackets := hpass.brackets
  simp only [Opened, List.flatten_append, List.count_append] at h ⊢
  omega

/-- A piece that is read as a symbol is taken off the text with it. -/
theorem exists_resume_symbol {front : List (List Char)} {piece text : List Char} {symbol : Symbol}
    {stack : List Waiting} (hmeans : Means piece symbol)
    (hscan : scanFrom (place front) (piece ++ text) = (scanFrom (place (front ++ [piece])) text).cons symbol)
    (hopen : symbol = .closing → openings stack ≠ 0) :
    ∃ out kept, Passes stack [piece] out kept ∧
      resume (place front) stack (piece ++ text) = emit out (resume (place (front ++ [piece])) kept text) := by
  rcases steps_or_unopened stack symbol with ⟨out, kept, hstep⟩ | ⟨hclosing, hnone⟩
  · refine ⟨out, kept, .of_steps hstep hmeans, ?_⟩
    rw [resume, hscan]
    exact hstep.arrange _ _
  · exact absurd hnone (hopen hclosing)

/-- One piece that is sound is taken off the text. -/
theorem exists_resume_sound {front rest : List (List Char)} {piece : List Char} {stack : List Waiting}
    (hpieced : Pieced (piece :: rest)) (hsound : Sound front piece) (hopened : Opened front stack) :
    ∃ out kept, Passes stack [piece] out kept ∧
      resume (place front) stack (piece ++ rest.flatten) =
        emit out (resume (place (front ++ [piece])) kept rest.flatten) := by
  cases hsound with
  | number hnumeral hfinite =>
    have hread : readNumber piece = .ok (numeralValue piece) :=
      (readNumber_eq_ok_iff hnumeral.numeral).mpr ⟨hnumeral, hfinite, rfl⟩
    refine exists_resume_symbol (means_run hnumeral.numeral) ?_ (fun h => absurd h (by simp))
    rw [scanFrom_run _ hnumeral (hpieced.stops hnumeral.numeral) hread, place_concat,
      utf8Len_run hnumeral.numeral]
  | operator o =>
    have hbytes : o.symbol.utf8Size = 1 := by cases o <;> decide
    refine exists_resume_symbol (means_operator o) ?_ (fun h => absurd h (by simp))
    rw [List.singleton_append, scanFrom_operator, place_concat, utf8Len_singleton, hbytes]
  | opening =>
    refine exists_resume_symbol means_opening ?_ (fun h => absurd h (by simp))
    rw [List.singleton_append, scanFrom_opening, place_concat]
    rfl
  | closing hopen =>
    refine exists_resume_symbol means_closing ?_ (fun _ hnone => ?_)
    · rw [List.singleton_append, scanFrom_closing, place_concat]
      rfl
    · rw [Opened, hnone] at hopened
      omega
  | @blank c hblank =>
    refine ⟨[], stack, .blank hblank, ?_⟩
    rw [emit_nil, List.singleton_append, resume, scanFrom_blank _ _ hblank, place_concat, utf8Len_singleton]
    rfl

/-- A front in which nothing is wrong is taken off the text. -/
theorem exists_resume_front (front : List (List Char)) {ps rest : List (List Char)} {stack : List Waiting}
    (hpieced : Pieced (ps ++ rest))
    (hclean : ∀ u piece v fault, ps = u ++ piece :: v → ¬Faulty (front ++ u) piece fault)
    (hopened : Opened front stack) :
    ∃ out kept, Passes stack ps out kept ∧
      resume (place front) stack (ps ++ rest).flatten =
        emit out (resume (place (front ++ ps)) kept rest.flatten) := by
  -- The pieces move to the front one by one, and what waits goes on to be what is open there.
  induction ps generalizing front stack with
  | nil => exact ⟨[], stack, .refl stack, by rw [emit_nil, List.append_nil, List.nil_append]⟩
  | cons piece ps ih =>
    rw [List.cons_append] at hpieced
    have hsound : Sound front piece := by
      rcases sound_or_faulty hpieced with hsound | ⟨fault, hfault⟩
      · exact hsound
      · refine absurd hfault ?_
        simpa using hclean [] piece ps fault rfl
    obtain ⟨out, middle, hpass, hpiece⟩ := exists_resume_sound hpieced hsound hopened
    have hrest : Pieced (ps ++ rest) := Pieced.right [piece] hpieced
    obtain ⟨more, kept, hmore, hps⟩ := ih _ hrest
      (fun u p v fault hsplit => by
        have hp := hclean (piece :: u) p v fault (by rw [hsplit, List.cons_append])
        simpa using hp)
      (hopened.append hpass)
    refine ⟨out ++ more, kept, hpass.append hmore, ?_⟩
    rw [List.cons_append, List.flatten_cons, hpiece, hps, emit_emit, List.append_assoc, List.singleton_append]

/-- The text ends at a piece that is faulty. -/
theorem resume_faulty {front rest : List (List Char)} {piece : List Char} {fault : CompileFault}
    {stack : List Waiting} (hpieced : Pieced (piece :: rest)) (hfault : Faulty front piece fault)
    (hopened : Opened front stack) :
    resume (place front) stack (piece :: rest).flatten = .error fault := by
  rw [List.flatten_cons]
  cases hfault with
  | number hrun hbad =>
    have hne : piece ≠ [] := by
      cases hpieced with
      | run hne _ _ _ => exact hne
      | single _ _ => exact List.cons_ne_nil _ _
    have hread : readNumber piece = .error (.number (.ofList piece)) := by
      cases h : readNumber piece with
      | error found => rw [eq_number_of_readNumber h]
      | ok value =>
        obtain ⟨hnumeral, hfinite, -⟩ := (readNumber_eq_ok_iff hrun).mp h
        exact absurd ⟨hnumeral, hfinite⟩ (not_isNumeral_of_faulty hbad)
    rw [resume, scanFrom_numerals _ hne hrun (hpieced.stops hrun), hread]
    rfl
  | @character c hnumeral hsymbol hl hr hblank =>
    rw [List.singleton_append, resume, scanFrom]
    simp only [hnumeral, hsymbol, hl, hr, hblank, if_false, Bool.false_eq_true]
    rfl
  | closing hnone =>
    rw [Opened] at hopened
    rw [List.singleton_append, resume, scanFrom_closing]
    exact arrange_unopened (by omega) _ _

/-- A front of the text in which nothing is wrong. -/
theorem exists_ofText_front {text : String} {ps rest : List (List Char)}
    (hsplit : pieces text.toList = ps ++ rest) (hclean : IsClean ps) :
    ∃ out kept, Passes [] ps out kept ∧ Opened ps kept ∧
      ofText text = emit out (resume (place ps) kept rest.flatten) := by
  have hpieced : Pieced (ps ++ rest) := hsplit ▸ pieced_pieces text.toList
  have hopened : Opened [] [] := rfl
  obtain ⟨out, kept, hpass, hresume⟩ := exists_resume_front [] hpieced hclean hopened
  refine ⟨out, kept, hpass, hopened.append hpass, ?_⟩
  rw [← hsplit, flatten_pieces] at hresume
  exact hresume

theorem ofText_of_firstFault {text : String} {fault : CompileFault}
    (h : FirstFault (pieces text.toList) fault) : ofText text = .error fault := by
  obtain ⟨front, piece, rest, hsplit, hclean, hfault⟩ := h
  obtain ⟨out, kept, -, hopened, htext⟩ := exists_ofText_front hsplit hclean
  have hpieced : Pieced (piece :: rest) := Pieced.right front (hsplit ▸ pieced_pieces text.toList)
  rw [htext, resume_faulty hpieced hfault hopened]
  rfl

/-- Where no piece is faulty the brackets that are left over decide. -/
theorem ofText_of_isClean {text : String} (h : IsClean (pieces text.toList)) :
    (text.toList.count ')' < text.toList.count '(' → ofText text = .error .brackets) ∧
      (text.toList.count '(' ≤ text.toList.count ')' → ∃ items, ofText text = .ok items ∧
        numbersIn items = runValues (pieces text.toList) ∧
        (operatorsIn items).Perm (text.toList.filterMap Operation.ofSymbol?)) := by
  obtain ⟨out, kept, hpass, hopened, htext⟩ := exists_ofText_front (List.append_nil _).symm h
  have hoperators := hpass.operators
  rw [Opened, flatten_pieces] at hopened
  rw [flatten_pieces, show held [] = [] from rfl, List.append_nil] at hoperators
  obtain ⟨hclosed, hunclosed⟩ := arrange_end kept
  rw [List.flatten_nil, resume, scanFrom_nil] at htext
  constructor
  · intro hcount
    rw [htext, hunclosed (by omega)]
    rfl
  · intro hcount
    refine ⟨out ++ putOut (held kept), ?_, ?_, ?_⟩
    · rw [htext, hclosed (by omega)]
      rfl
    · rw [numbersIn_append, numbersIn_putOut, List.append_nil, hpass.numbers]
    · rw [operatorsIn_append, operatorsIn_putOut]
      exact hoperators

/-- **The first fault decides, and otherwise nothing is lost.**  Of the pieces of a text either none is faulty or
there is a first one that is, and its fault is the result.  Where none is faulty a bracket that is not closed is the
fault; if there is none either, the numbers of the result are those of the runs, in order, and its operators are
those of the text, each as often. -/
theorem ofText_pieces (text : String) :
    (IsClean (pieces text.toList) ∨ ∃ fault, FirstFault (pieces text.toList) fault) ∧
    (∀ fault, FirstFault (pieces text.toList) fault → ofText text = .error fault) ∧
    (IsClean (pieces text.toList) → text.toList.count ')' < text.toList.count '(' →
      ofText text = .error .brackets) ∧
    (IsClean (pieces text.toList) → text.toList.count '(' ≤ text.toList.count ')' →
      ∃ items, ofText text = .ok items ∧ numbersIn items = runValues (pieces text.toList) ∧
        (operatorsIn items).Perm (text.toList.filterMap Operation.ofSymbol?)) :=
  ⟨isClean_or_firstFault _, fun _ h => ofText_of_firstFault h, fun h => (ofText_of_isClean h).1,
    fun h => (ofText_of_isClean h).2⟩

/-- A letter behind a bracket and a blank of two bytes, a bracket that stays open, and a product. -/
theorem ofText_pieces_bracketed :
    ofText "(\u00a0x)" = .error (.notAllowed 'x' 3) ∧ ofText "(1" = .error .brackets ∧
      ∃ items, ofText "1*2" = .ok items ∧ numbersIn items = [1, 2] ∧ (operatorsIn items).Perm [.multiply] := by
  have one : ∀ front, Sound front ['1'] := fun front => .number (by decide) (by decide +kernel)
  have two : ∀ front, Sound front ['2'] := fun front => .number (by decide) (by decide +kernel)
  refine ⟨?_, ?_, ?_⟩
  · obtain ⟨-, hfault, -⟩ := ofText_pieces "(\u00a0x)"
    refine hfault _ ⟨[['('], ['\u00a0']], ['x'], [[')']], by decide, ?_, ?_⟩
    · exact (isClean_nil.concat Sound.opening.not_faulty).concat (Sound.blank (by decide)).not_faulty
    · exact .character (by decide) (by decide) (by decide) (by decide) (by decide)
  · obtain ⟨-, -, hopen, -⟩ := ofText_pieces "(1"
    refine hopen ?_ (by decide)
    rw [show Infix.pieces "(1".toList = [['('], ['1']] by decide]
    exact (isClean_nil.concat Sound.opening.not_faulty).concat (one _).not_faulty
  · obtain ⟨-, -, -, hok⟩ := ofText_pieces "1*2"
    have hpieces : Infix.pieces "1*2".toList = [['1'], ['*'], ['2']] := by decide
    rw [hpieces] at hok
    obtain ⟨items, htext, hnumbers, hoperators⟩ := hok
      (((isClean_nil.concat (one _).not_faulty).concat (Sound.operator .multiply).not_faulty).concat
        (two _).not_faulty) (by decide)
    refine ⟨items, htext, ?_, ?_⟩
    · rw [hnumbers]
      decide +kernel
    · have hsymbols : "1*2".toList.filterMap Operation.ofSymbol? = [.multiply] := by decide
      rwa [hsymbols] at hoperators

end Postfix

end Piecework
