import Mathlib

/-!
# Writing into a buffer

A buffer is a list of fixed length. A write copies a list to an offset, and a view reads a piece from an
offset; both are `none` if they leave the buffer. Offsets are integers, as differences of pointers are.
-/

set_option autoImplicit false

namespace Strfry.Lib

variable {α : Type}

/-- Copy `src` to the offset `p`. -/
def copyTo (buf : List α) (p : Int) (src : List α) : Option (List α) :=
  if 0 ≤ p ∧ p + src.length ≤ buf.length then
    some (buf.take p.toNat ++ src ++ buf.drop (p.toNat + src.length))
  else none

/-- The `n` elements from the offset `p`. -/
def viewAt (buf : List α) (p : Int) (n : Nat) : Option (List α) :=
  if 0 ≤ p ∧ p + n ≤ buf.length then some ((buf.drop p.toNat).take n) else none

/-- A write replaces what was there, and nothing else. -/
theorem copyTo_append {a b c src : List α} {p : Int} (hp : p = a.length) (h : src.length = b.length) :
    copyTo (a ++ b ++ c) p src = some (a ++ src ++ c) := by
  have hin : 0 ≤ p ∧ p + src.length ≤ ((a ++ b ++ c).length : Int) := by
    simp only [List.length_append]
    omega
  have hnat : p.toNat = a.length := by omega
  have hdrop : (a ++ b ++ c).drop (a.length + src.length) = c := by
    apply List.drop_left'
    rw [List.length_append, h]
  have htake : (a ++ b ++ c).take a.length = a := by
    rw [List.append_assoc]
    exact List.take_left
  rw [copyTo, if_pos hin, hnat, hdrop, htake]

theorem viewAt_append {a b : List α} {p : Int} {n : Nat} (hp : p = a.length) (hn : n = b.length) :
    viewAt (a ++ b) p n = some b := by
  have hin : 0 ≤ p ∧ p + n ≤ ((a ++ b).length : Int) := by
    rw [List.length_append]
    omega
  have hnat : p.toNat = a.length := by omega
  rw [viewAt, if_pos hin, hnat, List.drop_left, hn, List.take_length]

/-- The buffer cut to a length, or filled up with `pad`. -/
def resizeTo (buf : List α) (n : Nat) (pad : α) : List α :=
  buf.take n ++ List.replicate (n - buf.length) pad

@[simp] theorem length_resizeTo (buf : List α) (n : Nat) (pad : α) :
    (resizeTo buf n pad).length = n := by
  rw [resizeTo, List.length_append, List.length_take, List.length_replicate]
  omega

end Strfry.Lib
