import Mathlib

/-!
# Fields of a text

A text is split at every occurrence of a separator. `fields_induction` takes a text apart the way a
scanner reads it: a last field, or a field, the separator and the rest.
-/

set_option autoImplicit false

namespace Strfry.Lib

section Fields

variable {α : Type}

/-- Every text is a field, or a field followed by the separator and a shorter text. -/
theorem fields_induction [DecidableEq α] {motive : List α → Prop} (sep : α)
    (last : ∀ w, sep ∉ w → motive w)
    (more : ∀ w t, sep ∉ w → motive t → motive (w ++ sep :: t)) : ∀ s, motive s := by
  intro s
  induction hn : s.length using Nat.strong_induction_on generalizing s with
  | _ n ih =>
    by_cases hsep : sep ∈ s
    · obtain ⟨w, t, rfl, hw⟩ := List.eq_append_cons_of_mem hsep
      apply more w t hw
      apply ih t.length _ t rfl
      simp only [List.length_append, List.length_cons] at hn
      omega
    · exact last s hsep

/-- A separator at the start gives an empty first field. -/
theorem splitOn_cons_self [DecidableEq α] (sep : α) (t : List α) :
    (sep :: t).splitOn sep = [] :: t.splitOn sep := by
  have hnil : sep ∉ ([] : List α) := by simp
  simpa using List.splitOn_append_cons_self_of_not_mem hnil t

/-- A separator at the end gives an empty last field. -/
theorem splitOn_concat_self [DecidableEq α] (sep : α) (t : List α) :
    (t ++ [sep]).splitOn sep = t.splitOn sep ++ [[]] := by
  simpa using List.splitOn_append_cons_self (a := sep) t []

/-- The fields determine the text. -/
theorem eq_intercalate_of_splitOn_eq [DecidableEq α] {sep : α} {s : List α} {ws : List (List α)}
    (h : s.splitOn sep = ws) : s = [sep].intercalate ws := by
  rw [← h, List.intercalate_splitOn]

/-- Two texts joined by a separator have the fields of both. -/
theorem intercalate_append_cons {sep : α} {l r : List (List α)} (hl : l ≠ []) (hr : r ≠ []) :
    [sep].intercalate (l ++ r) = [sep].intercalate l ++ sep :: [sep].intercalate r := by
  induction l with
  | nil => exact absurd rfl hl
  | cons w l ih =>
    cases l with
    | nil => simp [List.intercalate_cons_of_ne_nil hr]
    | cons v l => simp only [List.cons_append, List.intercalate_cons_cons, List.append_assoc,
        ← ih (by simp), List.nil_append]

/-- What occurs in a joined text is the separator or occurs in a field. -/
theorem mem_intercalate {sep c : α} {ws : List (List α)} (hc : c ∈ [sep].intercalate ws) :
    c = sep ∨ ∃ w ∈ ws, c ∈ w := by
  induction ws with
  | nil => simp at hc
  | cons w ws ih =>
    cases ws with
    | nil => exact .inr ⟨w, by simp, by simpa using hc⟩
    | cons v ws =>
      simp only [List.intercalate_cons_cons, List.mem_append, List.mem_singleton] at hc
      rcases hc with (hc | hc) | hc
      · exact .inr ⟨w, by simp, hc⟩
      · exact .inl hc
      · rcases ih hc with h | ⟨u, hu, hcu⟩
        · exact .inl h
        · exact .inr ⟨u, List.mem_cons_of_mem w hu, hcu⟩

/-- Joining fields of at most `k` elements each. -/
theorem length_intercalate_le {sep : α} {k : Nat} {ws : List (List α)}
    (h : ∀ w ∈ ws, w.length ≤ k) : ([sep].intercalate ws).length ≤ (k + 1) * ws.length := by
  induction ws with
  | nil => simp
  | cons w ws ih =>
    have hw := h w (by simp)
    have ih := ih fun v hv => h v (List.mem_cons_of_mem w hv)
    cases ws with
    | nil => simp; omega
    | cons v ws =>
      rw [List.intercalate_cons_cons, List.length_append, List.length_append, List.length_singleton,
        List.length_cons, Nat.mul_succ]
      omega

/-- The last occurrence of a separator splits a text in one way. -/
theorem append_cons_inj_of_last {sep : α} {p q p' q' : List α} (hq : sep ∉ q) (hq' : sep ∉ q')
    (h : p ++ sep :: q = p' ++ sep :: q') : p = p' ∧ q = q' := by
  rcases List.append_eq_append_iff.mp h with ⟨as, rfl, has⟩ | ⟨as, rfl, has⟩
  · cases as with
    | nil => exact ⟨by simp, by simpa using has⟩
    | cons a as =>
      rw [List.cons_append, List.cons.injEq] at has
      exact absurd (by rw [has.2]; simp) hq
  · cases as with
    | nil => exact ⟨by simp, by simpa using has.symm⟩
    | cons a as =>
      rw [List.cons_append, List.cons.injEq] at has
      exact absurd (by rw [has.2]; simp) hq'

/-- A text that contains the separator has a last occurrence of it. -/
theorem exists_last_split {sep : α} {s : List α} (h : sep ∈ s) :
    ∃ p q, s = p ++ sep :: q ∧ sep ∉ q := by
  obtain ⟨p, q, hs, hp⟩ := List.eq_append_cons_of_mem (List.mem_reverse.mpr h)
  refine ⟨q.reverse, p.reverse, ?_, by simpa using hp⟩
  rw [← List.reverse_reverse s, hs]
  simp

end Fields

end Strfry.Lib
