import Mathlib

/-!
# Sorting and merging with a comparison function

`std::sort` promises a permutation in which no later element is smaller than an earlier one;
the order of equivalent elements is left open. `StdSort` is a sorting function with this promise
and no more, so that results about it hold for every implementation. `stdMerge` is `std::merge`,
which on equivalent elements takes the left sequence first.
-/

set_option autoImplicit false

namespace Strfry.Lib

universe u

/-- Comparison functions a sort accepts: asymmetric, with a transitive negation. -/
structure StrictWeak {α : Type u} (lt : α → α → Bool) : Prop where
  asymm : ∀ a b, lt a b = true → lt b a = false
  negTrans : ∀ a b c, lt a b = false → lt b c = false → lt a c = false

/-- The order of a sorted sequence: no element is smaller than an earlier one. -/
abbrev SortedBy {α : Type u} (lt : α → α → Bool) (l : List α) : Prop :=
  l.Pairwise fun a b => lt b a = false

/-- An implementation of `std::sort`. -/
structure StdSort where
  sort : {α : Type} → (α → α → Bool) → List α → List α
  perm : ∀ {α : Type} (lt : α → α → Bool) (l : List α), (sort lt l).Perm l
  sorted : ∀ {α : Type} (lt : α → α → Bool), StrictWeak lt → ∀ l : List α,
    SortedBy lt (sort lt l)

namespace StdSort

theorem mem_sort (S : StdSort) {α : Type} {lt : α → α → Bool} {l : List α} {a : α} :
    a ∈ S.sort lt l ↔ a ∈ l :=
  (S.perm lt l).mem_iff

/-- Insertion sort, which keeps equivalent elements in order. -/
def insertion : StdSort where
  sort lt l := l.insertionSort fun a b => lt b a = false
  perm lt l := List.perm_insertionSort _ l
  sorted := by
    intro α lt h l
    have : Std.Total fun a b : α => lt b a = false := ⟨fun a b => by
      cases hab : lt b a with
      | false => exact Or.inl rfl
      | true => exact Or.inr (h.asymm b a hab)⟩
    have : IsTrans α fun a b => lt b a = false := ⟨fun a b c hab hbc => h.negTrans c b a hbc hab⟩
    exact List.pairwise_insertionSort _ l

end StdSort

/-- `std::merge`: the elements of `ys` smaller than `x` go before `x`. -/
def stdMerge {α : Type u} (lt : α → α → Bool) : List α → List α → List α
  | [], ys => ys
  | x :: xs, ys => ys.takeWhile (lt · x) ++ x :: stdMerge lt xs (ys.dropWhile (lt · x))

section Merge

variable {α : Type u} {lt : α → α → Bool}

theorem stdMerge_perm (xs ys : List α) : (stdMerge lt xs ys).Perm (xs ++ ys) := by
  induction xs generalizing ys with
  | nil => exact List.Perm.refl ys
  | cons x xs ih =>
    rw [stdMerge]
    have hrest : (ys.takeWhile (lt · x) ++ stdMerge lt xs (ys.dropWhile (lt · x))).Perm
        (xs ++ ys) := by
      refine ((ih _).append_left _).trans ?_
      rw [← List.append_assoc]
      refine (List.perm_append_comm.append_right _).trans ?_
      rw [List.append_assoc, List.takeWhile_append_dropWhile]
    exact List.perm_middle.trans (hrest.cons x)

theorem mem_stdMerge {xs ys : List α} {a : α} : a ∈ stdMerge lt xs ys ↔ a ∈ xs ∨ a ∈ ys := by
  rw [(stdMerge_perm xs ys).mem_iff, List.mem_append]

/-- What remains after dropping the elements smaller than `x` is not smaller than `x`. -/
theorem not_lt_of_mem_dropWhile (h : StrictWeak lt) {x : α} {ys : List α} (hys : SortedBy lt ys)
    {b : α} (hb : b ∈ ys.dropWhile (lt · x)) : lt b x = false := by
  induction ys with
  | nil => simp at hb
  | cons y ys ih =>
    rw [SortedBy, List.pairwise_cons] at hys
    by_cases hyx : lt y x = true
    · rw [List.dropWhile_cons_of_pos (p := (lt · x)) hyx] at hb
      exact ih hys.2 hb
    · rw [List.dropWhile_cons_of_neg (p := (lt · x)) hyx] at hb
      rcases List.mem_cons.1 hb with rfl | hb
      · exact Bool.eq_false_iff.2 hyx
      · exact h.negTrans b y x (hys.1 b hb) (Bool.eq_false_iff.2 hyx)

theorem stdMerge_sorted (h : StrictWeak lt) {xs ys : List α} (hxs : SortedBy lt xs)
    (hys : SortedBy lt ys) : SortedBy lt (stdMerge lt xs ys) := by
  induction xs generalizing ys with
  | nil => exact hys
  | cons x xs ih =>
    rw [SortedBy, List.pairwise_cons] at hxs
    have hdrop : SortedBy lt (ys.dropWhile (lt · x)) := hys.sublist (List.dropWhile_sublist _)
    have hx : ∀ b ∈ stdMerge lt xs (ys.dropWhile (lt · x)), lt b x = false := by
      intro b hb
      rcases mem_stdMerge.1 hb with hb | hb
      · exact hxs.1 b hb
      · exact not_lt_of_mem_dropWhile h hys hb
    rw [stdMerge, SortedBy, List.pairwise_append, List.pairwise_cons]
    refine ⟨hys.sublist (List.takeWhile_sublist _), ⟨hx, ih hxs.2 hdrop⟩, ?_⟩
    intro a ha b hb
    have hax : lt a x = true := List.mem_takeWhile_imp (p := (lt · x)) ha
    rcases List.mem_cons.1 hb with rfl | hb
    · exact h.asymm a b hax
    · exact h.negTrans b x a (hx b hb) (h.asymm a x hax)

end Merge

end Strfry.Lib
