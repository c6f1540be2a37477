import Mathlib

/-!
# Walks with a callback

A walk hands the elements of a list to a callback, one after the other, until the callback asks it to
stop. The callback keeps a state of its own, so the state at the end tells which elements it was given
and in which order.
-/

set_option autoImplicit false

namespace Strfry.Lib

variable {σ α : Type}

/-- Walk over a list: the state of the callback at the end, and the elements from the one on which it
stopped. -/
def walk (cb : σ → α → σ × Bool) : σ → List α → σ × List α
  | s, [] => (s, [])
  | s, a :: l => if (cb s a).2 then walk cb (cb s a).1 l else ((cb s a).1, a :: l)

/-- The state of a callback that is given the whole list. -/
def stateAfter (cb : σ → α → σ × Bool) (s : σ) (l : List α) : σ := l.foldl (fun s a => (cb s a).1) s

/-- The callback asks for more after each element of the list. -/
def Continues (cb : σ → α → σ × Bool) : σ → List α → Prop
  | _, [] => True
  | s, a :: l => (cb s a).2 = true ∧ Continues cb (cb s a).1 l

variable {cb : σ → α → σ × Bool}

theorem continues_of_forall (h : ∀ s a, (cb s a).2 = true) (s : σ) (l : List α) :
    Continues cb s l := by
  induction l generalizing s with
  | nil => trivial
  | cons a l ih => exact ⟨h s a, ih _⟩

/-- The walk goes through a list on which the callback continues. -/
theorem walk_append {s : σ} {l : List α} (h : Continues cb s l) (rest : List α) :
    walk cb s (l ++ rest) = walk cb (stateAfter cb s l) rest := by
  induction l generalizing s with
  | nil => rfl
  | cons a l ih =>
    rw [List.cons_append, walk, if_pos h.1, ih h.2]
    rfl

theorem walk_of_continues {s : σ} {l : List α} (h : Continues cb s l) :
    walk cb s l = (stateAfter cb s l, []) := by
  have happend := walk_append h []
  rw [List.append_nil] at happend
  exact happend

/-- The walk ends at the element on which the callback stops. -/
theorem walk_of_stops {s : σ} {l rest : List α} {a : α} (h : Continues cb s l)
    (hstop : (cb (stateAfter cb s l) a).2 = false) :
    walk cb s (l ++ a :: rest) = (stateAfter cb s (l ++ [a]), a :: rest) := by
  rw [walk_append h, walk, if_neg (by rw [hstop]; exact Bool.false_ne_true), stateAfter,
    stateAfter, List.foldl_append]
  rfl

end Strfry.Lib
