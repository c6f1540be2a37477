import Mathlib

/-!
# Tables keyed by integers

A table is a list of rows in strictly increasing key order, as a cursor over an integer-keyed
database visits them. `insertNext` appends a row under the successor of the largest key. Rows,
lookups and keys are related by `get?_eq_some_iff`; every operation has one lookup lemma.
-/

set_option autoImplicit false

namespace Strfry.Lib

universe u

/-- Rows in strictly increasing key order. -/
structure Table (α : Type u) where
  rows : List (Nat × α)
  sorted : rows.Pairwise fun a b => a.1 < b.1

namespace Table

variable {α : Type u}

/-- The table without rows. -/
def empty : Table α := ⟨[], List.Pairwise.nil⟩

/-- The row under key `k`. -/
def get? (t : Table α) (k : Nat) : Option α :=
  (t.rows.find? fun r => r.1 == k).map Prod.snd

/-- The largest key, or `0` in an empty table. -/
def lastKey (t : Table α) : Nat :=
  (t.rows.getLast?.map Prod.fst).getD 0

/-- Write a row under `k`, replacing the one that is there. -/
def put (t : Table α) (k : Nat) (v : α) : Table α where
  rows := t.rows.filter (fun r => r.1 < k) ++ (k, v) :: t.rows.filter (fun r => k < r.1)
  sorted := by
    rw [List.pairwise_append, List.pairwise_cons]
    refine ⟨t.sorted.filter _, ⟨?_, t.sorted.filter _⟩, ?_⟩
    · intro b hb
      exact of_decide_eq_true (List.mem_filter.1 hb).2
    · intro a ha b hb
      have hak : a.1 < k := of_decide_eq_true (List.mem_filter.1 ha).2
      rcases List.mem_cons.1 hb with rfl | hb
      · exact hak
      · exact hak.trans (of_decide_eq_true (List.mem_filter.1 hb).2)

/-- Remove the row under `k`. -/
def del (t : Table α) (k : Nat) : Table α where
  rows := t.rows.filter fun r => r.1 != k
  sorted := t.sorted.filter _

/-- Append a row under the successor of the largest key. -/
def insertNext (t : Table α) (v : α) : Nat × Table α :=
  (t.lastKey + 1, t.put (t.lastKey + 1) v)

/-- The rows with key at least `k`, in increasing key order. -/
def rowsFrom (t : Table α) (k : Nat) : List (Nat × α) :=
  t.rows.filter fun r => k ≤ r.1

theorem nodup_keys (t : Table α) : (t.rows.map Prod.fst).Nodup :=
  List.pairwise_map.2 (t.sorted.imp fun h => h.ne)

theorem nodup_rows (t : Table α) : t.rows.Nodup :=
  List.Nodup.of_map _ t.nodup_keys

/-- A key has at most one row. -/
theorem eq_of_mem {t : Table α} {k : Nat} {v w : α} (hv : (k, v) ∈ t.rows)
    (hw : (k, w) ∈ t.rows) : v = w :=
  congrArg Prod.snd (List.inj_on_of_nodup_map t.nodup_keys hv hw rfl)

theorem get?_eq_some_iff {t : Table α} {k : Nat} {v : α} :
    t.get? k = some v ↔ (k, v) ∈ t.rows := by
  constructor
  · intro h
    obtain ⟨r, hr, rfl⟩ := Option.map_eq_some_iff.1 h
    have hk : r.1 = k := by simpa using List.find?_some hr
    exact hk ▸ List.mem_of_find?_eq_some hr
  · intro h
    have hsome : (t.rows.find? fun r => r.1 == k).isSome := by
      rw [List.find?_isSome]
      exact ⟨(k, v), h, by simp⟩
    obtain ⟨r, hr⟩ := Option.isSome_iff_exists.1 hsome
    have hk : r.1 = k := by simpa using List.find?_some hr
    have hmem : (k, r.2) ∈ t.rows := hk ▸ List.mem_of_find?_eq_some hr
    rw [get?, hr, Option.map_some, eq_of_mem hmem h]

theorem get?_eq_none_iff {t : Table α} {k : Nat} :
    t.get? k = none ↔ ∀ v, (k, v) ∉ t.rows := by
  constructor
  · intro h v hv
    rw [get?_eq_some_iff.2 hv] at h
    cases h
  · intro h
    cases hg : t.get? k with
    | none => rfl
    | some v => exact absurd (get?_eq_some_iff.1 hg) (h v)

theorem isSome_get?_iff {t : Table α} {k : Nat} :
    (t.get? k).isSome = true ↔ k ∈ t.rows.map Prod.fst := by
  rw [Option.isSome_iff_exists, List.mem_map]
  constructor
  · rintro ⟨v, hv⟩
    exact ⟨(k, v), get?_eq_some_iff.1 hv, rfl⟩
  · rintro ⟨⟨k', v⟩, hr, rfl⟩
    exact ⟨v, get?_eq_some_iff.2 hr⟩

@[simp] theorem rows_empty : (empty : Table α).rows = [] := rfl

@[simp] theorem get?_empty (k : Nat) : (empty : Table α).get? k = none := rfl

theorem mem_rows_put {t : Table α} {k : Nat} {v : α} {r : Nat × α} :
    r ∈ (t.put k v).rows ↔ r = (k, v) ∨ (r ∈ t.rows ∧ r.1 ≠ k) := by
  simp only [put, List.mem_append, List.mem_filter, List.mem_cons, decide_eq_true_eq]
  constructor
  · rintro (⟨h, hlt⟩ | rfl | ⟨h, hlt⟩)
    · exact Or.inr ⟨h, hlt.ne⟩
    · exact Or.inl rfl
    · exact Or.inr ⟨h, hlt.ne'⟩
  · rintro (rfl | ⟨h, hne⟩)
    · exact Or.inr (Or.inl rfl)
    · rcases lt_or_gt_of_ne hne with hlt | hlt
      · exact Or.inl ⟨h, hlt⟩
      · exact Or.inr (Or.inr ⟨h, hlt⟩)

theorem mem_rows_del {t : Table α} {k : Nat} {r : Nat × α} :
    r ∈ (t.del k).rows ↔ r ∈ t.rows ∧ r.1 ≠ k := by
  simp [del, List.mem_filter]

theorem mem_rowsFrom {t : Table α} {k : Nat} {r : Nat × α} :
    r ∈ t.rowsFrom k ↔ r ∈ t.rows ∧ k ≤ r.1 := by
  simp [rowsFrom, List.mem_filter]

theorem get?_put (t : Table α) (k : Nat) (v : α) (j : Nat) :
    (t.put k v).get? j = if j = k then some v else t.get? j := by
  split_ifs with h
  · subst h
    exact get?_eq_some_iff.2 (mem_rows_put.2 (Or.inl rfl))
  · ext w
    rw [get?_eq_some_iff, get?_eq_some_iff, mem_rows_put]
    constructor
    · rintro (he | ⟨hm, -⟩)
      · exact absurd (congrArg Prod.fst he) h
      · exact hm
    · exact fun hm => Or.inr ⟨hm, h⟩

theorem get?_del (t : Table α) (k j : Nat) :
    (t.del k).get? j = if j = k then none else t.get? j := by
  split_ifs with h
  · subst h
    exact get?_eq_none_iff.2 fun v hv => (mem_rows_del.1 hv).2 rfl
  · ext w
    rw [get?_eq_some_iff, get?_eq_some_iff, mem_rows_del]
    exact and_iff_left h

/-- Every key is at most the last one. -/
theorem le_lastKey {t : Table α} {r : Nat × α} (h : r ∈ t.rows) : r.1 ≤ t.lastKey := by
  obtain ⟨l, b, hl⟩ : ∃ l b, t.rows = l ++ [b] :=
    ⟨_, _, (List.dropLast_append_getLast (List.ne_nil_of_mem h)).symm⟩
  have hs := t.sorted
  rw [hl, List.pairwise_append] at hs
  have hlast : t.lastKey = b.1 := by simp [lastKey, hl]
  rw [hl, List.mem_append, List.mem_singleton] at h
  rw [hlast]
  rcases h with h | rfl
  · exact (hs.2.2 r h b (by simp)).le
  · exact le_rfl

/-- A nonempty table has a row under its last key. -/
theorem lastKey_mem {t : Table α} (h : t.rows ≠ []) : ∃ v, (t.lastKey, v) ∈ t.rows := by
  obtain ⟨l, b, hl⟩ : ∃ l b, t.rows = l ++ [b] :=
    ⟨_, _, (List.dropLast_append_getLast h).symm⟩
  have hlast : t.lastKey = b.1 := by simp [lastKey, hl]
  exact ⟨b.2, by rw [hlast, hl]; simp⟩

theorem mem_rows_insertNext {t : Table α} {v : α} {r : Nat × α} :
    r ∈ (t.insertNext v).2.rows ↔ r = (t.lastKey + 1, v) ∨ r ∈ t.rows := by
  rw [insertNext, mem_rows_put]
  constructor
  · rintro (h | ⟨h, -⟩)
    · exact Or.inl h
    · exact Or.inr h
  · rintro (h | h)
    · exact Or.inl h
    · exact Or.inr ⟨h, by have := le_lastKey h; omega⟩

end Table

end Strfry.Lib
