import Mathlib

/-!
# Byte strings

Byte strings are lists of `UInt8`. They are ordered as `std::string` orders them: the first
differing byte decides, and a proper prefix comes before its extensions. `leBytes k n` is the
little-endian encoding of `n` in `k` bytes; it keeps `n` modulo `256 ^ k`.
-/

set_option autoImplicit false

namespace Strfry.Lib

instance instLinearOrderUInt8 : LinearOrder UInt8 where
  le_refl := UInt8.le_refl
  le_trans := fun _ _ _ => UInt8.le_trans
  le_antisymm := fun _ _ => UInt8.le_antisymm
  le_total := UInt8.le_total
  toDecidableLE := inferInstance
  lt_iff_le_not_ge := by
    intro a b
    simp only [UInt8.le_iff_toNat_le, UInt8.lt_iff_toNat_lt]
    omega

abbrev Bytes := List UInt8

/-- The largest value of an unsigned 64-bit integer. -/
def maxU64 : Nat := 2 ^ 64 - 1

/-- The bytes of an ASCII literal. -/
def ascii (s : String) : Bytes := s.toList.map fun c => UInt8.ofNat c.toNat

/-- Little-endian encoding in `k` bytes. -/
def leBytes : Nat → Nat → Bytes
  | 0, _ => []
  | k + 1, n => UInt8.ofNat (n % 256) :: leBytes k (n / 256)

/-- Value of a little-endian byte string. -/
def ofLeBytes : Bytes → Nat
  | [] => 0
  | b :: bs => b.toNat + 256 * ofLeBytes bs

@[simp] theorem length_leBytes (k n : Nat) : (leBytes k n).length = k := by
  induction k generalizing n with
  | zero => rfl
  | succ k ih => simp [leBytes, ih]

theorem ofLeBytes_leBytes (k n : Nat) : ofLeBytes (leBytes k n) = n % 256 ^ k := by
  induction k generalizing n with
  | zero => simp [leBytes, ofLeBytes, Nat.mod_one]
  | succ k ih =>
    have hbyte : (UInt8.ofNat (n % 256)).toNat = n % 256 := by
      rw [UInt8.toNat_ofNat']
      omega
    simp only [leBytes, ofLeBytes, ih, hbyte]
    rw [pow_succ', Nat.mod_mul]

theorem ofLeBytes_lt (b : Bytes) : ofLeBytes b < 256 ^ b.length := by
  induction b with
  | nil => exact Nat.one_pos
  | cons x b ih =>
    have hx : x.toNat < 256 := x.toNat_lt
    rw [ofLeBytes, List.length_cons, pow_succ']
    omega

/-- A byte string is the encoding of its value. -/
theorem leBytes_ofLeBytes (b : Bytes) : leBytes b.length (ofLeBytes b) = b := by
  induction b with
  | nil => rfl
  | cons x b ih =>
    have hx : x.toNat < 256 := x.toNat_lt
    have hmod : (x.toNat + 256 * ofLeBytes b) % 256 = x.toNat := by omega
    have hdiv : (x.toNat + 256 * ofLeBytes b) / 256 = ofLeBytes b := by omega
    rw [List.length_cons, leBytes, ofLeBytes, hmod, hdiv, ih, UInt8.ofNat_toNat]

/-- The encoding of a 64-bit integer in native (little-endian) byte order. -/
def le64 (n : Nat) : Bytes := leBytes 8 n

@[simp] theorem length_le64 (n : Nat) : (le64 n).length = 8 := length_leBytes 8 n

theorem ofLeBytes_le64 {n : Nat} (h : n < 2 ^ 64) : ofLeBytes (le64 n) = n := by
  rw [le64, ofLeBytes_leBytes]
  exact Nat.mod_eq_of_lt (by norm_num at h ⊢; exact h)

theorem le64_ofLeBytes {b : Bytes} (h : b.length = 8) : le64 (ofLeBytes b) = b := by
  rw [le64, ← h, leBytes_ofLeBytes]

theorem le64_injective {m n : Nat} (hm : m < 2 ^ 64) (hn : n < 2 ^ 64) (h : le64 m = le64 n) :
    m = n := by
  rw [← ofLeBytes_le64 hm, ← ofLeBytes_le64 hn, h]

/-- A byte string starts with `p` exactly when its first `p.length` bytes are `p`. -/
theorem isPrefixOf_append_iff {p s t : Bytes} (h : s.length = p.length) :
    p.isPrefixOf (s ++ t) = true ↔ s = p := by
  rw [List.isPrefixOf_iff_prefix, List.prefix_iff_eq_take, ← h, List.take_left]
  exact eq_comm

end Strfry.Lib
