import Mathlib

/-!
# Lists in order of last use

The front of such a list is the element used last. `moveToFront` is a use of an element of the list.
An element that is not used goes back by at most one place (`getElem?_moveToFront`), so its place is
bounded by the number of uses of other elements since its own.
-/

set_option autoImplicit false

namespace Strfry.Lib

variable {α : Type} [DecidableEq α]

/-- Move an element to the front. -/
def moveToFront (a : α) (l : List α) : List α := a :: l.erase a

theorem mem_moveToFront {a b : α} {l : List α} : b ∈ moveToFront a l ↔ b = a ∨ b ∈ l := by
  by_cases h : b = a
  · simp [moveToFront, h]
  · simp [moveToFront, h, List.mem_erase_of_ne h]

theorem nodup_moveToFront {l : List α} (h : l.Nodup) (a : α) : (moveToFront a l).Nodup :=
  List.nodup_cons.2 ⟨h.not_mem_erase, h.erase a⟩

theorem map_erase_of_nodup {β : Type} [DecidableEq β] {f : α → β} {l : List α} (hnd : (l.map f).Nodup)
    {a : α} (ha : a ∈ l) : (l.erase a).map f = (l.map f).erase (f a) := by
  induction l with
  | nil => cases ha
  | cons b l ih =>
    rw [List.map_cons, List.nodup_cons] at hnd
    by_cases hb : b = a
    · subst hb
      rw [List.erase_cons_head, List.map_cons, List.erase_cons_head]
    · have ha' : a ∈ l := (List.mem_cons.1 ha).resolve_left (Ne.symm hb)
      have hne : f b ≠ f a := fun heq => hnd.1 (heq ▸ List.mem_map_of_mem ha')
      rw [List.erase_cons_tail (by simpa using hb), List.map_cons, List.map_cons,
        List.erase_cons_tail (by simpa using hne), ih hnd.2 ha']

/-- The keys of a list are moved as its elements are. -/
theorem map_moveToFront {β : Type} [DecidableEq β] {f : α → β} {l : List α} (hnd : (l.map f).Nodup)
    {a : α} (ha : a ∈ l) : (moveToFront a l).map f = moveToFront (f a) (l.map f) := by
  rw [moveToFront, List.map_cons, map_erase_of_nodup hnd ha, moveToFront]

/-- What is left of a list after an element is taken out stood at most one place further back. -/
theorem getElem?_erase {a b : α} {l : List α} {i : Nat} (h : (l.erase a)[i]? = some b) :
    ∃ j, l[j]? = some b ∧ i ≤ j := by
  induction l generalizing i with
  | nil => simp at h
  | cons c l ih =>
    by_cases hc : c = a
    · rw [List.erase_cons, if_pos (by simpa using hc)] at h
      exact ⟨i + 1, by simpa using h, Nat.le_succ i⟩
    · rw [List.erase_cons, if_neg (by simpa using hc)] at h
      cases i with
      | zero => exact ⟨0, by simpa using h, le_rfl⟩
      | succ i =>
        obtain ⟨j, hj, hle⟩ := ih (by simpa using h)
        exact ⟨j + 1, by simpa using hj, Nat.succ_le_succ hle⟩

/-- An element goes back by at most one place when another one is used. -/
theorem getElem?_moveToFront {a b : α} {l : List α} {i : Nat}
    (h : (moveToFront a l)[i]? = some b) :
    (i = 0 ∧ b = a) ∨ ∃ j, l[j]? = some b ∧ i ≤ j + 1 := by
  cases i with
  | zero =>
    left
    simpa [moveToFront, eq_comm] using h
  | succ i =>
    right
    obtain ⟨j, hj, hle⟩ := getElem?_erase (show (l.erase a)[i]? = some b by simpa [moveToFront] using h)
    exact ⟨j, hj, Nat.succ_le_succ hle⟩

/-! ## Order of last use -/

/-- The number of uses after the last use of an element; `uses` are the uses so far, the latest first. -/
def usesSince (uses : List α) (a : α) : Nat := uses.idxOf a

/-- The list is in the order of last use. -/
def SortedByUse (uses l : List α) : Prop := l.Pairwise fun a b => usesSince uses a < usesSince uses b

theorem SortedByUse.sublist {uses l l' : List α} (h : SortedByUse uses l) (hsub : l'.Sublist l) :
    SortedByUse uses l' :=
  List.Pairwise.sublist hsub h

/-- A use of a new element puts it to the front. -/
theorem SortedByUse.use {uses l : List α} (h : SortedByUse uses l) {a : α} (ha : a ∉ l) :
    SortedByUse (a :: uses) (a :: l) := by
  have hne : ∀ b ∈ l, a ≠ b := fun b hb hab => ha (hab ▸ hb)
  refine List.pairwise_cons.2 ⟨fun b hb => ?_, List.Pairwise.imp_of_mem (fun {b c} hb hc hbc => ?_) h⟩
  · rw [usesSince, usesSince, List.idxOf_cons_self, List.idxOf_cons_ne _ (hne b hb)]
    exact Nat.succ_pos _
  · rw [usesSince, usesSince, List.idxOf_cons_ne _ (hne b hb), List.idxOf_cons_ne _ (hne c hc)]
    exact Nat.succ_lt_succ hbc

/-- A use of an element of the list moves it to the front. -/
theorem SortedByUse.moveToFront {uses l : List α} (h : SortedByUse uses l) (hnd : l.Nodup) (a : α) :
    SortedByUse (a :: uses) (moveToFront a l) :=
  (h.sublist List.erase_sublist).use hnd.not_mem_erase

theorem length_moveToFront {a : α} {l : List α} (ha : a ∈ l) : (moveToFront a l).length = l.length := by
  have hpos := List.length_pos_of_mem ha
  rw [moveToFront, List.length_cons, List.length_erase_of_mem ha]
  omega

end Strfry.Lib
