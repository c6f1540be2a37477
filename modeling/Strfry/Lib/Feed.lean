import Strfry.Lib.Table

/-!
# Following a table

A reader follows a table by the key of the last row it was given: each time it is given the rows behind that key,
or the first few of them. `Feed` is a table with such a reader, and the table may change in any way between two
reads.

The rows come in the order of their keys, and none comes twice (`Feed.Ordered`). That none is missed needs that no
key is used for a second row, even after the first one is gone (`Feed.Complete`).
-/

set_option autoImplicit false

namespace Strfry.Lib

universe u

variable {α : Type u}

/-- A table and its reader. `highest` is the largest key that there has been, and `seen` what the reader was
given. -/
structure Feed (α : Type u) where
  table : Table α
  highest : Nat
  cursor : Nat
  seen : List (Nat × α)

namespace Feed

/-- A reader that starts behind the last row. -/
def start (t : Table α) : Feed α := ⟨t, t.lastKey, t.lastKey, []⟩

/-- The cursor after some rows. -/
def advance (cursor : Nat) (rows : List (Nat × α)) : Nat := (rows.getLast?.map Prod.fst).getD cursor

/-- The table changes, or the reader is given the first of the rows behind its cursor. -/
inductive Step : Feed α → Feed α → Prop
  | change {s : Feed α} (t : Table α) :
      Step s { s with table := t, highest := max s.highest t.lastKey }
  | read {s : Feed α} {rows : List (Nat × α)} (behind : rows <+: s.table.rowsFrom (s.cursor + 1)) :
      Step s { s with cursor := advance s.cursor rows, seen := s.seen ++ rows }

/-- A new row has a key that no row has had. -/
def Fresh (s s' : Feed α) : Prop := ∀ r ∈ s'.table.rows, r ∈ s.table.rows ∨ s.highest < r.1

/-- The rows came in the order of their keys, from behind `k` up to the cursor. -/
structure Ordered (k : Nat) (s : Feed α) : Prop where
  sorted : s.seen.Pairwise fun a b => a.1 < b.1
  bounds : ∀ r ∈ s.seen, k < r.1 ∧ r.1 ≤ s.cursor
  le_cursor : k ≤ s.cursor

/-- No row between `k` and the cursor was missed. -/
structure Complete (k : Nat) (s : Feed α) : Prop where
  lastKey_le : s.table.lastKey ≤ s.highest
  cursor_le : s.cursor ≤ s.highest
  all : ∀ r ∈ s.table.rows, k < r.1 → r.1 ≤ s.cursor → r ∈ s.seen

variable {s s' : Feed α} {k : Nat} {t : Table α} {rows : List (Nat × α)}

/-! ## The cursor -/

@[simp] theorem advance_nil (cursor : Nat) : advance cursor ([] : List (Nat × α)) = cursor := rfl

theorem advance_cons (cursor : Nat) (r : Nat × α) (rows : List (Nat × α)) :
    advance cursor (r :: rows) = advance r.1 rows := by
  cases rows <;> simp [advance, List.getLast?_cons]

theorem advance_concat (cursor : Nat) (rows : List (Nat × α)) (r : Nat × α) :
    advance cursor (rows ++ [r]) = r.1 := by
  rw [advance, List.getLast?_concat]
  rfl

/-- No row is behind the cursor that it moves to. -/
theorem le_advance (cursor : Nat) (hsorted : rows.Pairwise fun a b => a.1 < b.1) {r : Nat × α} (hr : r ∈ rows) :
    r.1 ≤ advance cursor rows := by
  induction rows using List.reverseRecOn with
  | nil => cases hr
  | append_singleton rows last ih =>
    rw [advance_concat]
    rcases List.mem_append.mp hr with hr | hr
    · exact ((List.pairwise_append.mp hsorted).2.2 r hr last (List.mem_singleton_self _)).le
    · rw [List.mem_singleton.mp hr]

/-- The cursor stays, or is the key of a row. -/
theorem advance_cases (cursor : Nat) (rows : List (Nat × α)) :
    (rows = [] ∧ advance cursor rows = cursor) ∨ ∃ r ∈ rows, advance cursor rows = r.1 := by
  induction rows using List.reverseRecOn with
  | nil => exact .inl ⟨rfl, rfl⟩
  | append_singleton rows last _ =>
    exact .inr ⟨last, List.mem_append_right _ (List.mem_singleton_self _), advance_concat _ _ _⟩

theorem sorted_of_behind {cursor : Nat} (behind : rows <+: t.rowsFrom (cursor + 1)) :
    rows.Pairwise fun a b => a.1 < b.1 :=
  (t.sorted.filter _).sublist behind.sublist

theorem mem_of_behind {cursor : Nat} (behind : rows <+: t.rowsFrom (cursor + 1)) {r : Nat × α} (hr : r ∈ rows) :
    r ∈ t.rows ∧ cursor < r.1 :=
  Table.mem_rowsFrom.mp (behind.subset hr)

theorem cursor_le_advance {cursor : Nat} (behind : rows <+: t.rowsFrom (cursor + 1)) :
    cursor ≤ advance cursor rows := by
  rcases advance_cases cursor rows with ⟨-, heq⟩ | ⟨r, hr, heq⟩
  · exact heq.ge
  · rw [heq]
    exact (mem_of_behind behind hr).2.le

/-- What is not given is behind the new cursor. -/
theorem mem_behind {cursor : Nat} (behind : rows <+: t.rowsFrom (cursor + 1)) {r : Nat × α} (hr : r ∈ t.rows)
    (hlt : cursor < r.1) (hle : r.1 ≤ advance cursor rows) : r ∈ rows := by
  have hall : r ∈ t.rowsFrom (cursor + 1) := Table.mem_rowsFrom.mpr ⟨hr, hlt⟩
  have hsorted : (t.rowsFrom (cursor + 1)).Pairwise fun a b => a.1 < b.1 := t.sorted.filter _
  obtain ⟨rest, hrest⟩ := behind
  rw [← hrest] at hall hsorted
  rcases List.mem_append.mp hall with hmem | hmem
  · exact hmem
  · -- a row that is left is behind the last one that was given
    rcases advance_cases cursor rows with ⟨-, heq⟩ | ⟨r', hr', heq⟩
    · exact absurd hle (by rw [heq]; exact not_le.mpr hlt)
    · have hlt' := (List.pairwise_append.mp hsorted).2.2 r' hr' r hmem
      exact absurd hle (by rw [heq]; exact not_le.mpr hlt')

/-! ## Runs -/

theorem ordered_start (t : Table α) : Ordered t.lastKey (start t) where
  sorted := .nil
  bounds := fun _ hr => absurd hr List.not_mem_nil
  le_cursor := le_rfl

theorem complete_start (t : Table α) : Complete t.lastKey (start t) where
  lastKey_le := le_rfl
  cursor_le := le_rfl
  all := fun _ hr hlt _ => absurd (Table.le_lastKey hr) (not_le.mpr hlt)

theorem Ordered.step (h : Ordered k s) (hstep : Step s s') : Ordered k s' := by
  cases hstep with
  | change t => exact ⟨h.sorted, h.bounds, h.le_cursor⟩
  | read behind =>
    have hle := cursor_le_advance behind
    refine ⟨?_, fun r hr => ?_, h.le_cursor.trans hle⟩
    · refine List.pairwise_append.mpr ⟨h.sorted, sorted_of_behind behind, fun a ha b hb => ?_⟩
      exact (h.bounds a ha).2.trans_lt (mem_of_behind behind hb).2
    · rcases List.mem_append.mp hr with hr | hr
      · exact ⟨(h.bounds r hr).1, (h.bounds r hr).2.trans hle⟩
      · exact ⟨h.le_cursor.trans_lt (mem_of_behind behind hr).2,
          le_advance _ (sorted_of_behind behind) hr⟩

theorem Complete.step (h : Complete k s) (hstep : Step s s') (hfresh : Fresh s s') : Complete k s' := by
  cases hstep with
  | change t =>
    refine ⟨le_max_right _ _, h.cursor_le.trans (le_max_left _ _), fun r hr hlt hle => ?_⟩
    rcases hfresh r hr with hold | hnew
    · exact h.all r hold hlt hle
    · exact absurd (hle.trans h.cursor_le) (not_le.mpr hnew)
  | @read rows behind =>
    refine ⟨h.lastKey_le, ?_, fun r hr hlt hle => ?_⟩
    · rcases advance_cases s.cursor rows with ⟨-, heq⟩ | ⟨r, hr, heq⟩
      · exact heq.le.trans h.cursor_le
      · exact heq.le.trans ((Table.le_lastKey (mem_of_behind behind hr).1).trans h.lastKey_le)
    · rcases le_or_gt r.1 s.cursor with hold | hnew
      · exact List.mem_append_left _ (h.all r hr hlt hold)
      · exact List.mem_append_right _ (mem_behind behind hr hnew hle)

end Feed

end Strfry.Lib
