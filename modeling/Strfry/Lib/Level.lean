import Mathlib

/-!
# Levels that rise with time

`level cap rate x t₀ t` is the level at time `t` of something that stood at `x` at time `t₀`, rises by
`rate` a unit of time and does not rise above `cap`. Reading the level on the way changes nothing
(`level_level`). Between two times it rises by at most `rate` times their distance
(`level_le_add`), which bounds what can be taken out of it in between.
-/

set_option autoImplicit false

namespace Strfry.Lib

section Bounds

variable {K : Type} [Field K] [LinearOrder K] {cap rate x t : K}

/-- The level at time `t`. -/
def level (cap rate x t₀ t : K) : K := min cap (x + (t - t₀) * rate)

theorem level_le (cap rate x t₀ t : K) : level cap rate x t₀ t ≤ cap := min_le_left _ _

theorem level_self (h : x ≤ cap) : level cap rate x t t = x := by
  rw [level, sub_self, zero_mul, add_zero, min_eq_right h]

end Bounds

section Rise

variable {K : Type} [Field K] [LinearOrder K] [IsStrictOrderedRing K] {cap rate x y t₀ t t' : K}

/-- A level that was full stays full. -/
theorem level_full (hrate : 0 ≤ rate) (h : t₀ ≤ t) : level cap rate cap t₀ t = cap := by
  have := mul_nonneg (sub_nonneg.2 h) hrate
  exact min_eq_left (by linarith)

/-- A level that is read at `t` and goes on from there. -/
theorem level_level (hrate : 0 ≤ rate) (h : t ≤ t') :
    level cap rate (level cap rate x t₀ t) t t' = level cap rate x t₀ t' := by
  have hpos := mul_nonneg (sub_nonneg.2 h) hrate
  have hadd : (t - t₀) * rate + (t' - t) * rate = (t' - t₀) * rate := by ring
  unfold level
  rcases le_total cap (x + (t - t₀) * rate) with hle | hle
  · rw [min_eq_left hle, min_eq_left (by linarith), min_eq_left (by linarith)]
  · rw [min_eq_right hle, add_assoc, hadd]

theorem level_mono_left (h : x ≤ y) : level cap rate x t₀ t ≤ level cap rate y t₀ t :=
  min_le_min_left _ (by linarith)

theorem level_nonneg (hrate : 0 ≤ rate) (hcap : 0 ≤ cap) (hx : 0 ≤ x) (h : t₀ ≤ t) :
    0 ≤ level cap rate x t₀ t := by
  have := mul_nonneg (sub_nonneg.2 h) hrate
  exact le_min hcap (by linarith)

/-- Between two times a level rises by at most the rate. -/
theorem level_le_add (hrate : 0 ≤ rate) (h : t ≤ t') :
    level cap rate x t₀ t' ≤ level cap rate x t₀ t + (t' - t) * rate := by
  rw [← level_level hrate h, level]
  exact min_le_right _ _

/-- After long enough a level is full. -/
theorem level_eq_cap (hx : 0 ≤ x) (h : cap ≤ (t - t₀) * rate) : level cap rate x t₀ t = cap :=
  min_eq_left (by linarith)

end Rise

end Strfry.Lib
