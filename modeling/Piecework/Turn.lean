/-
# Piecework.Turn — what one operation on a state comes to.

A turn is the answer, the state behind it and the lines that were said on the way.  Services, workers
and servers are written as functions to turns, so that a run of any of them is a fold and its journal
is the concatenation of the journals of its turns.
-/
import Piecework.Journal

namespace Piecework

/-- An answer, the state behind it and the lines said on the way. -/
structure Turn (σ α : Type) where
  answer : α
  state : σ
  journal : List Line

namespace Turn

variable {σ α β : Type}

/-- A turn that changes nothing and says nothing. -/
def look (s : σ) (a : α) : Turn σ α := ⟨a, s, []⟩

/-- The same turn with another answer. -/
def map (f : α → β) (t : Turn σ α) : Turn σ β := ⟨f t.answer, t.state, t.journal⟩

/-- The same turn with earlier lines in front. -/
def after (lines : List Line) (t : Turn σ α) : Turn σ α := ⟨t.answer, t.state, lines ++ t.journal⟩

end Turn

end Piecework
