import Mathlib

/-!
# Faults of a computation

A computation that stops at its first exception, and a function that finds the first fault of its input:
`Judges` says that the exception is the one for the fault. It holds of a sequence, and of a loop, when it
holds of the parts.
-/

set_option autoImplicit false

namespace Strfry.Lib

section Faults

variable {φ ε α β σ : Type} {Thrown : φ → ε → Prop}

/-- There is no fault when the computation succeeds, and otherwise it throws for the fault. -/
def Judges (Thrown : φ → ε → Prop) (fault : Option φ) (x : Except ε α) : Prop :=
  match x with
  | .ok _ => fault = none
  | .error e => ∃ f, fault = some f ∧ Thrown f e

theorem judges_ok (a : α) : Judges Thrown none (.ok a) := rfl

theorem judges_error {f : φ} {e : ε} (h : Thrown f e) : Judges Thrown (some f) (.error e : Except ε α) :=
  ⟨f, rfl, h⟩

/-- Of two computations in a row the fault is that of the first one, if it has one. -/
theorem Judges.bind {o o' : Option φ} {x : Except ε α} {f : α → Except ε β} (hx : Judges Thrown o x)
    (hf : ∀ a, x = .ok a → Judges Thrown o' (f a)) : Judges Thrown (o.or o') (x >>= f) := by
  cases x with
  | ok a =>
    have hnone : o = none := hx
    rw [hnone, Option.none_or]
    exact hf a rfl
  | error e =>
    obtain ⟨fault, rfl, hthrown⟩ := hx
    exact ⟨fault, Option.some_or, hthrown⟩

/-- A computation that cannot fail may follow. -/
theorem Judges.then_ok {o : Option φ} {x : Except ε α} (hx : Judges Thrown o x) (g : α → β) :
    Judges Thrown o (x >>= fun a => .ok (g a)) := by
  have h := hx.bind (f := fun a => .ok (g a)) fun a _ => judges_ok (g a)
  rwa [Option.or_none] at h

theorem findSome?_cons_or (f : α → Option β) (x : α) (xs : List α) :
    (x :: xs).findSome? f = (f x).or (xs.findSome? f) := by
  rw [List.findSome?_cons]
  cases f x with
  | none => rfl
  | some b => rfl

/-- The fault of a list of computations is the first one of an element. -/
theorem judges_mapM {fault : α → Option φ} {f : α → Except ε β} (h : ∀ x, Judges Thrown (fault x) (f x))
    (xs : List α) : Judges Thrown (xs.findSome? fault) (xs.mapM f) := by
  induction xs with
  | nil => exact judges_ok _
  | cons x xs ih =>
    rw [List.mapM_cons, findSome?_cons_or]
    exact (h x).bind fun y _ => ih.then_ok _

/-- The fault of a loop is the first one of an element, whatever the state. -/
theorem judges_foldlM {fault : α → Option φ} {f : σ → α → Except ε σ}
    (h : ∀ s x, Judges Thrown (fault x) (f s x)) (xs : List α) (s : σ) :
    Judges Thrown (xs.findSome? fault) (xs.foldlM f s) := by
  induction xs generalizing s with
  | nil => exact judges_ok _
  | cons x xs ih =>
    rw [List.foldlM_cons, findSome?_cons_or]
    exact (h s x).bind fun s' _ => ih s'

end Faults

end Strfry.Lib
