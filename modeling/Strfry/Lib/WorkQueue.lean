import Mathlib

/-!
# Work queues with a memory

A work queue remembers everything that was ever reported to it, so that a report that comes again adds
nothing. What is taken from it is kept apart by its user: `Accounts` says that nothing is pending or taken
twice, and `Covers` that nothing has been lost.
-/

set_option autoImplicit false

namespace Strfry.Lib

/-- What was reported, and what is still pending; the last report is taken first. -/
structure WorkQueue (α : Type) where
  seen : List α := []
  pending : List α := []

namespace WorkQueue

variable {α : Type}

/-- A report, which counts only once. -/
def report [DecidableEq α] (q : WorkQueue α) (x : α) : WorkQueue α :=
  if x ∈ q.seen then q else ⟨x :: q.seen, x :: q.pending⟩

/-- All pending work is given up. -/
def clear (q : WorkQueue α) : WorkQueue α := { q with pending := [] }

/-- Nothing is pending or taken twice, and all of it was reported. -/
structure Accounts (q : WorkQueue α) (taken : List α) : Prop where
  nodup : (q.pending ++ taken).Nodup
  seen : ∀ x ∈ q.pending ++ taken, x ∈ q.seen

/-- Everything that was reported is pending or taken. -/
def Covers (q : WorkQueue α) (taken : List α) : Prop := ∀ x ∈ q.seen, x ∈ q.pending ++ taken

variable {q : WorkQueue α} {taken : List α}

theorem accounts_empty : Accounts (α := α) {} [] := ⟨List.nodup_nil, nofun⟩

theorem covers_empty : Covers (α := α) {} [] := nofun

theorem Accounts.nodup_taken (h : q.Accounts taken) : taken.Nodup :=
  h.nodup.of_append_right

/-- The order in which things were taken does not matter. -/
theorem Accounts.perm (h : q.Accounts taken) {taken' : List α} (hp : taken.Perm taken') :
    q.Accounts taken' :=
  ⟨(hp.append_left q.pending).nodup_iff.mp h.nodup,
    fun x hx => h.seen x ((hp.append_left q.pending).mem_iff.mpr hx)⟩

theorem Covers.perm (h : q.Covers taken) {taken' : List α} (hp : taken.Perm taken') : q.Covers taken' :=
  fun x hx => (hp.append_left q.pending).mem_iff.mp (h x hx)

theorem Accounts.clear (h : q.Accounts taken) : q.clear.Accounts taken :=
  ⟨h.nodup_taken, fun x hx => h.seen x (List.mem_append_right _ hx)⟩

section Report

variable [DecidableEq α]

theorem Accounts.report (h : q.Accounts taken) (x : α) : (q.report x).Accounts taken := by
  rw [WorkQueue.report]
  split
  · exact h
  · rename_i hx
    refine ⟨List.nodup_cons.mpr ⟨fun hmem => hx (h.seen x hmem), h.nodup⟩, ?_⟩
    exact List.forall_mem_cons.mpr ⟨List.mem_cons_self, fun y hy => List.mem_cons_of_mem x (h.seen y hy)⟩

theorem Covers.report (h : q.Covers taken) (x : α) : (q.report x).Covers taken := by
  rw [WorkQueue.report]
  split
  · exact h
  · exact List.forall_mem_cons.mpr ⟨List.mem_cons_self, fun y hy => List.mem_cons_of_mem x (h y hy)⟩

theorem Accounts.reports (h : q.Accounts taken) (xs : List α) : (xs.foldl WorkQueue.report q).Accounts taken := by
  induction xs generalizing q with
  | nil => exact h
  | cons x xs ih => exact ih (h.report x)

theorem Covers.reports (h : q.Covers taken) (xs : List α) : (xs.foldl WorkQueue.report q).Covers taken := by
  induction xs generalizing q with
  | nil => exact h
  | cons x xs ih => exact ih (h.report x)

theorem mem_seen_report {x y : α} : y ∈ (q.report x).seen ↔ y = x ∨ y ∈ q.seen := by
  rw [report]
  split
  · rename_i hx
    constructor
    · exact Or.inr
    · rintro (rfl | hy)
      · exact hx
      · exact hy
  · exact List.mem_cons

/-- What is reported is remembered, and nothing is forgotten. -/
theorem mem_seen_reports {xs : List α} {y : α} :
    y ∈ (xs.foldl WorkQueue.report q).seen ↔ y ∈ xs ∨ y ∈ q.seen := by
  induction xs generalizing q with
  | nil => simp
  | cons x xs ih => rw [List.foldl_cons, ih, mem_seen_report, List.mem_cons, or_left_comm, or_assoc]

end Report

/-- The beginning of what is pending is taken. -/
def rest (q : WorkQueue α) (n : Nat) : WorkQueue α := { q with pending := q.pending.drop n }

theorem perm_take (q : WorkQueue α) (taken : List α) (n : Nat) :
    ((q.rest n).pending ++ (taken ++ q.pending.take n)).Perm (q.pending ++ taken) := by
  calc (q.rest n).pending ++ (taken ++ q.pending.take n)
      = (q.pending.drop n ++ taken) ++ q.pending.take n := (List.append_assoc _ _ _).symm
    _ |>.Perm (q.pending.take n ++ (q.pending.drop n ++ taken)) := List.perm_append_comm
    _ = q.pending ++ taken := by rw [← List.append_assoc, List.take_append_drop]

theorem Accounts.take (h : q.Accounts taken) (n : Nat) :
    (q.rest n).Accounts (taken ++ q.pending.take n) :=
  ⟨(perm_take q taken n).nodup_iff.mpr h.nodup, fun x hx => h.seen x ((perm_take q taken n).mem_iff.mp hx)⟩

theorem Covers.take (h : q.Covers taken) (n : Nat) : (q.rest n).Covers (taken ++ q.pending.take n) :=
  fun x hx => (perm_take q taken n).mem_iff.mpr (h x hx)

end WorkQueue

end Strfry.Lib
