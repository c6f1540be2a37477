import Mathlib.Data.List.Basic

/-!
# Appended logs

A property of the entries of a log may depend on what is before them. `EachAfter` says that it holds of every
entry, and an entry that is appended must have it after the whole log.
-/

set_option autoImplicit false

namespace Strfry.Lib

universe u

variable {α : Type u} {P Q : List α → α → Prop} {log : List α} {e : α}

/-- Every entry of the log has the property, after the entries before it. -/
def EachAfter (P : List α → α → Prop) (log : List α) : Prop :=
  ∀ before e after, log = before ++ e :: after → P before e

theorem eachAfter_nil : EachAfter P [] := by
  intro before e after heq
  cases before <;> cases heq

/-- An entry of a log that was appended to is the last one, or one of the log before. -/
theorem split_concat {before after : List α} {a : α} (heq : log ++ [e] = before ++ a :: after) :
    (before = log ∧ a = e) ∨ ∃ after', log = before ++ a :: after' := by
  rcases List.eq_nil_or_concat after with rfl | ⟨after', last, rfl⟩
  · obtain ⟨hlog, hlast⟩ := List.append_inj' heq rfl
    cases hlast
    exact .inl ⟨hlog.symm, rfl⟩
  · rw [List.concat_eq_append, ← List.cons_append, ← List.append_assoc] at heq
    exact .inr ⟨after', (List.append_inj' heq rfl).1⟩

theorem EachAfter.concat (h : EachAfter P log) (he : P log e) : EachAfter P (log ++ [e]) := by
  intro before a after heq
  rcases split_concat heq with ⟨rfl, rfl⟩ | ⟨after', heq'⟩
  · exact he
  · exact h before a after' heq'

end Strfry.Lib
