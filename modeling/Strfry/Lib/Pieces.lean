import Mathlib

/-!
# Lines in a buffer of fixed size

A reader with room for `cap` elements takes from a stream what comes up to the end of the line, and no more
than fits. A long line therefore arrives in several pieces, and a piece may end anywhere in it. `pieces` is
the whole of what the reader takes from a stream.

A stream is `Ended` when nothing of an unfinished line is left in it. Then its pieces do not depend on what
follows (`pieces_append`).
-/

set_option autoImplicit false

namespace Strfry.Lib

section Pieces

variable {α : Type} [DecidableEq α] (nl : α)

/-- What the reader takes, and what it leaves. -/
def takeLine : Nat → List α → List α × List α
  | 0, s => ([], s)
  | _ + 1, [] => ([], [])
  | n + 1, c :: s => if c = nl then ([c], s) else (c :: (takeLine n s).1, (takeLine n s).2)

/-- The reader need not wait for more: its buffer is full, or the line has ended. -/
def Whole (cap : Nat) (piece : List α) : Prop := piece.length = cap ∨ piece.getLast? = some nl

instance (cap : Nat) (piece : List α) : Decidable (Whole nl cap piece) := inferInstanceAs (Decidable (_ ∨ _))

/-- No unfinished line is left in the stream. -/
def Ended (s : List α) : Prop := s = [] ∨ s.getLast? = some nl

variable {nl}

theorem takeLine_flatten (n : Nat) (s : List α) : (takeLine nl n s).1 ++ (takeLine nl n s).2 = s := by
  induction n generalizing s with
  | zero => rfl
  | succ n ih =>
    cases s with
    | nil => rfl
    | cons c s =>
      rw [takeLine]
      split
      · rfl
      · rw [List.cons_append, ih]

theorem takeLine_ne_nil {n : Nat} {s : List α} (hn : n ≠ 0) (hs : s ≠ []) : (takeLine nl n s).1 ≠ [] := by
  obtain ⟨n, rfl⟩ := Nat.exists_eq_succ_of_ne_zero hn
  obtain ⟨c, s, rfl⟩ := List.exists_cons_of_ne_nil hs
  rw [takeLine]
  split
  · exact List.cons_ne_nil _ _
  · exact List.cons_ne_nil _ _

theorem length_takeLine_rest {n : Nat} {s : List α} (hn : n ≠ 0) (hs : s ≠ []) :
    (takeLine nl n s).2.length < s.length := by
  have hsplit : (takeLine nl n s).1 ++ (takeLine nl n s).2 = s := takeLine_flatten n s
  have hne : (takeLine nl n s).1 ≠ [] := takeLine_ne_nil hn hs
  have hlength := congrArg List.length hsplit
  have hpos := List.length_pos_iff.mpr hne
  rw [List.length_append] at hlength
  omega

/-- What comes behind a whole piece does not change it. -/
theorem takeLine_append {n : Nat} {s : List α} (h : Whole nl n (takeLine nl n s).1) (t : List α) :
    takeLine nl n (s ++ t) = ((takeLine nl n s).1, (takeLine nl n s).2 ++ t) := by
  induction n generalizing s with
  | zero => rfl
  | succ n ih =>
    cases s with
    | nil =>
      rcases h with h | h
      · cases h
      · cases h
    | cons c s =>
      rw [List.cons_append, takeLine, takeLine]
      rw [takeLine] at h
      by_cases hc : c = nl
      · rw [if_pos hc, if_pos hc]
      · rw [if_neg hc] at h
        rw [if_neg hc, if_neg hc]
        have hrest : Whole nl n (takeLine nl n s).1 := by
          rcases h with h | h
          · exact .inl (Nat.succ_injective h)
          · right
            rw [List.getLast?_cons] at h
            cases hlast : (takeLine nl n s).1.getLast? with
            | none =>
              rw [hlast] at h
              exact absurd (Option.some.inj h) hc
            | some d =>
              rw [hlast] at h
              exact h
        rw [ih hrest]

/-- From a stream that is ended the reader takes a whole piece, and what it leaves is ended. -/
theorem takeLine_ended {n : Nat} {s : List α} (h : s.getLast? = some nl) :
    Whole nl n (takeLine nl n s).1 ∧ Ended nl (takeLine nl n s).2 := by
  induction n generalizing s with
  | zero => exact ⟨.inl rfl, .inr h⟩
  | succ n ih =>
    cases s with
    | nil => cases h
    | cons c s =>
      rw [takeLine]
      by_cases hc : c = nl
      · rw [if_pos hc]
        refine ⟨.inr (by rw [hc]; rfl), ?_⟩
        cases s with
        | nil => exact .inl rfl
        | cons d s => exact .inr (by rwa [List.getLast?_cons_cons] at h)
      · rw [if_neg hc]
        cases s with
        | nil => exact absurd (Option.some.inj h) hc
        | cons d s =>
          rw [List.getLast?_cons_cons] at h
          obtain ⟨hwhole, hended⟩ := ih h
          refine ⟨?_, hended⟩
          rcases hwhole with hlength | hlast
          · exact .inl (by rw [List.length_cons, hlength])
          · exact .inr (by rw [List.getLast?_cons, hlast]; rfl)

/-- A line that fits is taken with its end. -/
theorem takeLine_line {n : Nat} {line : List α} (hline : nl ∉ line) (hfits : line.length < n) (t : List α) :
    takeLine nl n (line ++ nl :: t) = (line ++ [nl], t) := by
  induction line generalizing n with
  | nil =>
    obtain ⟨n, rfl⟩ := Nat.exists_eq_succ_of_ne_zero (Nat.ne_of_gt hfits)
    rw [List.nil_append, takeLine, if_pos rfl, List.nil_append]
  | cons c line ih =>
    rw [List.mem_cons, not_or] at hline
    obtain ⟨n, rfl⟩ := Nat.exists_eq_succ_of_ne_zero (Nat.ne_of_gt (Nat.zero_lt_of_lt hfits))
    rw [List.cons_append, takeLine, if_neg (Ne.symm hline.1), ih hline.2 (Nat.lt_of_succ_lt_succ hfits)]
    rfl

/-- Of a line that does not fit the reader takes the beginning. -/
theorem takeLine_long {n : Nat} {line : List α} (hline : nl ∉ line) (hlong : n ≤ line.length)
    (t : List α) : takeLine nl n (line ++ t) = (line.take n, line.drop n ++ t) := by
  induction n generalizing line with
  | zero => rfl
  | succ n ih =>
    cases line with
    | nil => cases hlong
    | cons c line =>
      rw [List.mem_cons, not_or] at hline
      rw [List.cons_append, takeLine, if_neg (Ne.symm hline.1), ih hline.2 (Nat.le_of_succ_le_succ hlong)]
      rfl

variable (nl)

/-- All that the reader takes from a stream. -/
def pieces (cap : Nat) (s : List α) : List (List α) :=
  if cap = 0 ∨ s = [] then []
  else (takeLine nl cap s).1 :: pieces cap (takeLine nl cap s).2
termination_by s.length
decreasing_by
  rename_i h
  exact length_takeLine_rest (fun hcap => h (.inl hcap)) fun hs => h (.inr hs)

variable {nl} {cap : Nat} {s : List α}

theorem pieces_nil (cap : Nat) : pieces nl cap [] = [] := by
  rw [pieces, if_pos (.inr rfl)]

theorem pieces_of_ne_nil (hcap : cap ≠ 0) (hs : s ≠ []) :
    pieces nl cap s = (takeLine nl cap s).1 :: pieces nl cap (takeLine nl cap s).2 := by
  rw [pieces, if_neg (not_or.mpr ⟨hcap, hs⟩)]

theorem pieces_ne_nil (hcap : cap ≠ 0) (hs : s ≠ []) : pieces nl cap s ≠ [] := by
  rw [pieces_of_ne_nil hcap hs]
  exact List.cons_ne_nil _ _

theorem pieces_append (hcap : cap ≠ 0) (h : Ended nl s) (t : List α) :
    pieces nl cap (s ++ t) = pieces nl cap s ++ pieces nl cap t := by
  induction hn : s.length using Nat.strong_induction_on generalizing s with
  | _ n ih =>
    subst hn
    rcases h with rfl | hlast
    · rw [pieces_nil]
      rfl
    · have hs : s ≠ [] := by
        rintro rfl
        cases hlast
      have hst : s ++ t ≠ [] := fun hnil => hs (List.append_eq_nil_iff.mp hnil).1
      obtain ⟨hwhole, hended⟩ := takeLine_ended (n := cap) hlast
      rw [pieces_of_ne_nil hcap hst, pieces_of_ne_nil hcap hs, takeLine_append hwhole,
        ih _ (length_takeLine_rest hcap hs) hended rfl, List.cons_append]

theorem pieces_line {line : List α} (hline : nl ∉ line) (hfits : line.length < cap) :
    pieces nl cap (line ++ [nl]) = [line ++ [nl]] := by
  rw [pieces_of_ne_nil (by omega) (by simp), takeLine_line hline hfits, pieces_nil]

end Pieces

end Strfry.Lib
