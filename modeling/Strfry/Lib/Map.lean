import Mathlib

/-!
# Maps as association lists

`Map` is `AList` at a constant family. A hash map is used through its lookups, so the lemmas here
say what each operation looks up. An ordered map is also walked downwards from an upper bound
(`downFrom`); a walk that stops at the first key other than the one it started from sees that key
alone (`takeWhile_downFrom`). A map of maps is used through `find₂`.
-/

set_option autoImplicit false

namespace Strfry.Lib

universe u v

/-- A finite map from keys to values. -/
abbrev Map (K : Type u) (V : Type v) := AList fun _ : K => V

namespace Map

variable {K : Type u} {V : Type v}

/-- The number of keys. -/
def size (m : Map K V) : Nat := m.keys.length

section Lookup

variable [DecidableEq K]

/-- Write a value under `k` unless there is one. -/
def tryEmplace (m : Map K V) (k : K) (v : V) : Map K V :=
  if k ∈ m then m else m.insert k v

theorem lookup_insert (m : Map K V) (k j : K) (v : V) :
    AList.lookup j (m.insert k v) = if j = k then some v else m.lookup j := by
  split_ifs with h
  · subst h
    exact AList.lookup_insert m
  · exact AList.lookup_insert_ne h

theorem lookup_erase (m : Map K V) (k j : K) :
    AList.lookup j (m.erase k) = if j = k then none else m.lookup j := by
  split_ifs with h
  · subst h
    exact AList.lookup_erase j m
  · exact AList.lookup_erase_ne h

theorem lookup_tryEmplace (m : Map K V) (k j : K) (v : V) :
    AList.lookup j (m.tryEmplace k v) =
      if j = k then some ((m.lookup k).getD v) else m.lookup j := by
  unfold tryEmplace
  split_ifs with hk hj hj
  · subst hj
    obtain ⟨w, hw⟩ := Option.isSome_iff_exists.1 (AList.lookup_isSome.2 hk)
    rw [hw, Option.getD_some]
  · rfl
  · subst hj
    rw [AList.lookup_insert, AList.lookup_eq_none.2 hk, Option.getD_none]
  · exact AList.lookup_insert_ne hj

theorem lookup_foldl_erase (ks : List K) (m : Map K V) (j : K) :
    AList.lookup j (ks.foldl (fun m k => m.erase k) m) = if j ∈ ks then none else m.lookup j := by
  induction ks generalizing m with
  | nil => simp
  | cons k ks ih =>
    rw [List.foldl_cons, ih, lookup_erase]
    by_cases hk : j = k <;> by_cases hks : j ∈ ks <;> simp [hk, hks]

theorem mem_keys_iff {m : Map K V} {k : K} : k ∈ m.keys ↔ ∃ v, m.lookup k = some v := by
  rw [← AList.mem_keys, ← AList.lookup_isSome, Option.isSome_iff_exists]

theorem keys_eq_nil_iff {m : Map K V} : m.keys = [] ↔ ∀ k, m.lookup k = none := by
  simp only [List.eq_nil_iff_forall_not_mem, AList.lookup_eq_none, AList.mem_keys]

/-- The size is the number of keys that are looked up. -/
theorem size_eq_ncard (m : Map K V) : m.size = {k | (m.lookup k).isSome}.ncard := by
  have hset : {k | (m.lookup k).isSome} = (m.keys.toFinset : Set K) := by
    ext k
    simp [Option.isSome_iff_exists, mem_keys_iff]
  rw [hset, Set.ncard_coe_finset, List.toFinset_card_of_nodup m.keys_nodup]
  rfl

end Lookup

section Nested

variable {I : Type u} [DecidableEq K] [DecidableEq I]

/-- The value under two keys. -/
def find₂ (m : Map K (Map I V)) (k : K) (i : I) : Option V :=
  (m.lookup k).bind fun inner => inner.lookup i

/-- Write a value under two keys unless there is one. -/
def emplaceIn (m : Map K (Map I V)) (k : K) (i : I) (v : V) : Map K (Map I V) :=
  m.insert k (((m.lookup k).getD ∅).tryEmplace i v)

/-- Write a value under two keys. -/
def assignIn (m : Map K (Map I V)) (k : K) (i : I) (v : V) : Map K (Map I V) :=
  m.insert k (((m.lookup k).getD ∅).insert i v)

/-- Remove the value under two keys, and the first key when nothing is left under it. -/
def eraseIn (m : Map K (Map I V)) (k : K) (i : I) : Map K (Map I V) :=
  if (((m.lookup k).getD ∅).erase i).keys = [] then m.erase k
  else m.insert k (((m.lookup k).getD ∅).erase i)

theorem lookup_getD (m : Map K (Map I V)) (k : K) (i : I) :
    ((m.lookup k).getD ∅).lookup i = m.find₂ k i := by
  unfold find₂
  cases m.lookup k <;> rfl

/-- The number of values under a first key. -/
theorem size_lookup (m : Map K (Map I V)) (k : K) :
    size ((m.lookup k).getD ∅) = {i | (m.find₂ k i).isSome}.ncard := by
  simp only [size_eq_ncard, lookup_getD]

theorem find₂_emplaceIn (m : Map K (Map I V)) (k k' : K) (i i' : I) (v : V) :
    (m.emplaceIn k i v).find₂ k' i' =
      if k' = k ∧ i' = i then some ((m.find₂ k i).getD v) else m.find₂ k' i' := by
  rw [find₂, emplaceIn, lookup_insert]
  by_cases hk : k' = k
  · subst hk
    by_cases hi : i' = i <;> simp [hi, lookup_tryEmplace, lookup_getD]
  · simp [hk, find₂]

theorem find₂_assignIn (m : Map K (Map I V)) (k k' : K) (i i' : I) (v : V) :
    (m.assignIn k i v).find₂ k' i' = if k' = k ∧ i' = i then some v else m.find₂ k' i' := by
  rw [find₂, assignIn, lookup_insert]
  by_cases hk : k' = k
  · subst hk
    by_cases hi : i' = i <;> simp [hi, lookup_insert, lookup_getD]
  · simp [hk, find₂]

theorem find₂_eraseIn (m : Map K (Map I V)) (k k' : K) (i i' : I) :
    (m.eraseIn k i).find₂ k' i' = if k' = k ∧ i' = i then none else m.find₂ k' i' := by
  have hinner : ∀ j, (((m.lookup k).getD ∅).erase i).lookup j =
      if j = i then none else m.find₂ k j := by
    intro j
    rw [lookup_erase, lookup_getD]
  rw [find₂, eraseIn]
  by_cases hk : k' = k
  · subst hk
    simp only [true_and, ← hinner]
    split
    · rename_i hnil
      rw [lookup_erase, if_pos rfl, Option.bind_none, keys_eq_nil_iff.1 hnil]
    · rw [lookup_insert, if_pos rfl, Option.bind_some]
  · simp only [hk, false_and, if_false, find₂]
    split
    · rw [lookup_erase, if_neg hk]
    · rw [lookup_insert, if_neg hk]

theorem find₂_erase (m : Map K (Map I V)) (k k' : K) (i : I) :
    Map.find₂ (m.erase k) k' i = if k' = k then none else m.find₂ k' i := by
  rw [find₂, lookup_erase]
  split <;> rfl

/-- A removal adds no first key. -/
theorem lookup_eraseIn_eq_none {m : Map K (Map I V)} {k' : K} (h : m.lookup k' = none) (k : K)
    (i : I) : (m.eraseIn k i).lookup k' = none := by
  rw [eraseIn]
  split
  · rw [lookup_erase, h, ite_self]
  · rename_i hne
    rw [lookup_insert]
    split
    · rename_i hk
      subst hk
      rw [h] at hne
      exact absurd rfl hne
    · exact h

/-- A first key with nothing under it changes no value. -/
theorem find₂_tryEmplace (m : Map K (Map I V)) (k k' : K) (i : I) :
    Map.find₂ (m.tryEmplace k ∅) k' i = m.find₂ k' i := by
  rw [find₂, lookup_tryEmplace]
  split
  · rename_i hk
    rw [hk, Option.bind_some, lookup_getD]
  · rfl

end Nested

section Walk

variable [LinearOrder K]

/-- The keys at or below `k`, in descending order. -/
def downFrom (m : Map K V) (k : K) : List K := (m.keys.filter (· ≤ k)).insertionSort (· ≥ ·)

theorem mem_downFrom {m : Map K V} {k j : K} : j ∈ m.downFrom k ↔ j ∈ m.keys ∧ j ≤ k := by
  simp [downFrom, List.mem_insertionSort]

theorem pairwise_downFrom (m : Map K V) (k : K) : (m.downFrom k).Pairwise (· > ·) := by
  have hge : (m.downFrom k).Pairwise (· ≥ ·) := List.pairwise_insertionSort _ _
  have hnd : (m.downFrom k).Nodup :=
    (List.perm_insertionSort _ _).nodup_iff.2 (m.keys_nodup.filter _)
  exact hge.imp₂ (fun a b h hne => lt_of_le_of_ne h hne.symm) hnd

/-- The walk down from `k` while the key is `k`. -/
theorem takeWhile_downFrom [DecidableEq K] (m : Map K V) (k : K) :
    (m.downFrom k).takeWhile (· == k) = if k ∈ m.keys then [k] else [] := by
  have hmem : ∀ j, j ∈ m.downFrom k ↔ j ∈ m.keys ∧ j ≤ k := fun j => mem_downFrom
  have hpair := m.pairwise_downFrom k
  cases hl : m.downFrom k with
  | nil =>
    rw [if_neg fun hk => ?_, List.takeWhile_nil]
    have := (hmem k).2 ⟨hk, le_rfl⟩
    rw [hl] at this
    exact absurd this List.not_mem_nil
  | cons a l =>
    rw [hl] at hmem hpair
    obtain ⟨hlt, -⟩ := List.pairwise_cons.1 hpair
    by_cases hk : k ∈ m.keys
    · -- `k` itself heads the walk, and every later key is smaller
      obtain rfl : a = k := by
        rcases List.mem_cons.1 ((hmem k).2 ⟨hk, le_rfl⟩) with h | h
        · exact h.symm
        · exact absurd (hlt k h) (not_lt.2 ((hmem a).1 List.mem_cons_self).2)
      have hrest : l.takeWhile (· == a) = [] := by
        cases l with
        | nil => rfl
        | cons b l =>
          rw [List.takeWhile_cons_of_neg]
          simpa using (hlt b List.mem_cons_self).ne
      rw [if_pos hk, List.takeWhile_cons_of_pos (by simp), hrest]
    · have hak : a ≠ k := by
        rintro rfl
        exact hk ((hmem a).1 List.mem_cons_self).1
      rw [if_neg hk, List.takeWhile_cons_of_neg (by simpa using hak)]

end Walk

end Map

end Strfry.Lib
