import Mathlib

/-!
# Selections of rows

A selection of a set of rows is a finite set that holds the keys of the rows with a property. It is kept
along with the rows: when a row is added or removed, its key is inserted or erased, if the row has the
property.

A selection is `Sound` when it has no other keys, and `Complete` when it has all of them. The two are apart
because a selection that is started late, with rows already there, is only sound until it is filled up.
Removal needs keys that tell the rows apart.
-/

set_option autoImplicit false

namespace Strfry.Lib.Selection

variable {ρ κ : Type} {p : ρ → Bool} {key : ρ → κ} {rows : Set ρ} {t : Finset κ} {r : ρ}

/-- The selection has only keys of rows with the property. -/
def Sound (p : ρ → Bool) (key : ρ → κ) (rows : Set ρ) (t : Finset κ) : Prop :=
  ∀ x ∈ t, ∃ r ∈ rows, p r = true ∧ key r = x

/-- The selection has the keys of all rows with the property. -/
def Complete (p : ρ → Bool) (key : ρ → κ) (rows : Set ρ) (t : Finset κ) : Prop :=
  ∀ r ∈ rows, p r = true → key r ∈ t

/-- A selection that is sound and complete has exactly the keys of the rows with the property. -/
theorem mem_iff (hs : Sound p key rows t) (hc : Complete p key rows t) (x : κ) :
    x ∈ t ↔ ∃ r ∈ rows, p r = true ∧ key r = x := by
  constructor
  · exact hs x
  · rintro ⟨r, hr, hp, rfl⟩
    exact hc r hr hp

theorem sound_empty : Sound p key rows ∅ := fun x hx => absurd hx (Finset.notMem_empty x)

variable [DecidableEq κ]

/-- The selection when a row is added. -/
def add (p : ρ → Bool) (key : ρ → κ) (r : ρ) (t : Finset κ) : Finset κ :=
  if p r then insert (key r) t else t

/-- The selection when a row is removed. -/
def remove (p : ρ → Bool) (key : ρ → κ) (r : ρ) (t : Finset κ) : Finset κ :=
  if p r then t.erase (key r) else t

theorem mem_add {x : κ} : x ∈ add p key r t ↔ (p r = true ∧ x = key r) ∨ x ∈ t := by
  rw [add]
  split
  · rename_i hp
    rw [Finset.mem_insert]
    exact or_congr_left (and_iff_right hp).symm
  · rename_i hp
    exact (or_iff_right fun h => hp h.1).symm

theorem mem_remove {x : κ} : x ∈ remove p key r t ↔ x ∈ t ∧ (p r = true → x ≠ key r) := by
  rw [remove]
  split
  · rename_i hp
    rw [Finset.mem_erase, and_comm]
    exact and_congr_right fun _ => ⟨fun hne _ => hne, fun hne => hne hp⟩
  · rename_i hp
    exact (and_iff_left fun h => absurd h hp).symm

theorem Sound.add (h : Sound p key rows t) (r : ρ) : Sound p key (insert r rows) (add p key r t) := by
  intro x hx
  rcases mem_add.mp hx with ⟨hp, rfl⟩ | hx
  · exact ⟨r, Set.mem_insert r rows, hp, rfl⟩
  · obtain ⟨r', hr', hp, hkey⟩ := h x hx
    exact ⟨r', Set.mem_insert_of_mem r hr', hp, hkey⟩

theorem Complete.add (h : Complete p key rows t) (r : ρ) :
    Complete p key (insert r rows) (add p key r t) := by
  intro r' hr' hp
  rw [mem_add]
  rcases Set.mem_insert_iff.mp hr' with rfl | hr'
  · exact .inl ⟨hp, rfl⟩
  · exact .inr (h r' hr' hp)

theorem Sound.remove (h : Sound p key rows t) (r : ρ) :
    Sound p key (rows \ {r}) (remove p key r t) := by
  intro x hx
  obtain ⟨hx, hne⟩ := mem_remove.mp hx
  obtain ⟨r', hr', hp, rfl⟩ := h x hx
  refine ⟨r', ⟨hr', ?_⟩, hp, rfl⟩
  rintro rfl
  exact hne hp rfl

/-- No other row has the key of the row that is removed. -/
theorem Complete.remove (h : Complete p key rows t) (hinj : rows.InjOn key) (hr : r ∈ rows) :
    Complete p key (rows \ {r}) (remove p key r t) := by
  rintro r' ⟨hr', hne⟩ hp
  rw [mem_remove]
  refine ⟨h r' hr' hp, fun _ hkey => ?_⟩
  exact hne (hinj hr' hr hkey)

/-- Filling up. -/
theorem Sound.union {s : Finset κ} (h : Sound p key rows t) (hs : Sound p key rows s) :
    Sound p key rows (t ∪ s) := by
  intro x hx
  rcases Finset.mem_union.mp hx with hx | hx
  · exact h x hx
  · exact hs x hx

theorem Complete.union_right {s : Finset κ} (hs : Complete p key rows s) (t : Finset κ) :
    Complete p key rows (t ∪ s) :=
  fun r hr hp => Finset.mem_union_right t (hs r hr hp)

end Strfry.Lib.Selection
