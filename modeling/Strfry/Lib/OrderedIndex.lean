import Mathlib

/-!
# Ordered indices with duplicate keys

An index entry has a string part, an integer part and the row it points to. Entries are ordered
by these three in turn; the order of the string parts is a parameter. A position has the same
three parts, and may point behind every row (`⊤`). `descFrom` and `ascFrom` are what a cursor
visits from a start position: every entry on that side once, in order. The set of entries
determines both (`eq_of_pairwise_gt`).
-/

set_option autoImplicit false

namespace Strfry.Lib

universe u

/-- An index entry, or a position in an index. -/
structure Entry (K : Type u) where
  key : K
  num : Nat
  val : WithTop Nat
  deriving DecidableEq

namespace Entry

variable {K : Type u}

/-- The row an entry points to. -/
def row (e : Entry K) : Nat := e.val.untopD 0

@[simp] theorem row_mk (k : K) (n v : Nat) : (⟨k, n, v⟩ : Entry K).row = v := rfl

/-- The three parts, in the order in which they are compared. -/
def parts (e : Entry K) : K ×ₗ (Nat ×ₗ WithTop Nat) := toLex (e.key, toLex (e.num, e.val))

theorem parts_injective : Function.Injective (parts : Entry K → _) := by
  rintro ⟨k, n, v⟩ ⟨k', n', v'⟩ h
  have h' : (k, toLex (n, v)) = (k', toLex (n', v')) := h
  obtain ⟨rfl, h''⟩ := Prod.mk.injEq .. ▸ h'
  have h3 : (n, v) = (n', v') := h''
  obtain ⟨rfl, rfl⟩ := Prod.mk.injEq .. ▸ h3
  rfl

variable [LinearOrder K]

instance : LinearOrder (Entry K) := LinearOrder.lift' parts parts_injective

theorem lt_iff {a b : Entry K} :
    a < b ↔ a.key < b.key ∨ (a.key = b.key ∧ (a.num < b.num ∨ (a.num = b.num ∧ a.val < b.val))) := by
  change parts a < parts b ↔ _
  simp only [parts, Prod.Lex.toLex_lt_toLex]

theorem le_iff {a b : Entry K} :
    a ≤ b ↔ a.key < b.key ∨ (a.key = b.key ∧ (a.num < b.num ∨ (a.num = b.num ∧ a.val ≤ b.val))) := by
  change parts a ≤ parts b ↔ _
  simp only [parts, Prod.Lex.toLex_le_toLex]

/-- Entries with the same string part are compared by their integer parts and rows. -/
theorem le_iff_of_key_eq {a b : Entry K} (h : a.key = b.key) :
    a ≤ b ↔ a.num < b.num ∨ (a.num = b.num ∧ a.val ≤ b.val) := by
  simp [le_iff, h]

theorem key_le_of_le {a b : Entry K} (h : a ≤ b) : a.key ≤ b.key := by
  rcases le_iff.1 h with h | h
  · exact h.le
  · exact h.1.le

end Entry

section Seek

variable {ε : Type u} [LinearOrder ε]

/-- The entries at or below `p`, each once, in descending order. -/
def descFrom (xs : List ε) (p : ε) : List ε :=
  (xs.filter (· ≤ p)).dedup.insertionSort (· ≥ ·)

/-- The entries at or above `p`, each once, in ascending order. -/
def ascFrom (xs : List ε) (p : ε) : List ε :=
  (xs.filter (p ≤ ·)).dedup.insertionSort (· ≤ ·)

theorem mem_descFrom {xs : List ε} {p e : ε} : e ∈ descFrom xs p ↔ e ∈ xs ∧ e ≤ p := by
  simp [descFrom, List.mem_insertionSort]

theorem mem_ascFrom {xs : List ε} {p e : ε} : e ∈ ascFrom xs p ↔ e ∈ xs ∧ p ≤ e := by
  simp [ascFrom, List.mem_insertionSort]

theorem pairwise_descFrom (xs : List ε) (p : ε) : (descFrom xs p).Pairwise (· > ·) := by
  have hge : (descFrom xs p).Pairwise (· ≥ ·) := List.pairwise_insertionSort _ _
  have hnd : (descFrom xs p).Nodup :=
    (List.perm_insertionSort _ _).nodup_iff.2 (List.nodup_dedup _)
  exact hge.imp₂ (fun a b h hne => lt_of_le_of_ne h hne.symm) hnd

theorem pairwise_ascFrom (xs : List ε) (p : ε) : (ascFrom xs p).Pairwise (· < ·) := by
  have hle : (ascFrom xs p).Pairwise (· ≤ ·) := List.pairwise_insertionSort _ _
  have hnd : (ascFrom xs p).Nodup :=
    (List.perm_insertionSort _ _).nodup_iff.2 (List.nodup_dedup _)
  exact hle.imp₂ (fun a b h hne => lt_of_le_of_ne h hne) hnd

/-- Two strictly descending lists with the same elements are equal. -/
theorem eq_of_pairwise_gt {xs ys : List ε} (hx : xs.Pairwise (· > ·)) (hy : ys.Pairwise (· > ·))
    (h : ∀ e, e ∈ xs ↔ e ∈ ys) : xs = ys := by
  have hperm : xs.Perm ys :=
    (List.perm_ext_iff_of_nodup (hx.imp fun h => h.ne') (hy.imp fun h => h.ne')).2 h
  exact hperm.eq_of_pairwise (fun a b _ _ hab hba => absurd hab hba.asymm) hx hy

/-- The first entry at or above `p` is the least one. -/
theorem head?_ascFrom_eq_some_iff {xs : List ε} {p e : ε} :
    (ascFrom xs p).head? = some e ↔ e ∈ xs ∧ p ≤ e ∧ ∀ a ∈ xs, p ≤ a → e ≤ a := by
  have hs := pairwise_ascFrom xs p
  constructor
  · intro h
    obtain ⟨l, hl⟩ := List.head?_eq_some_iff.1 h
    have he := mem_ascFrom.1 (List.mem_of_mem_head? h)
    refine ⟨he.1, he.2, fun a ha hpa => ?_⟩
    have hmem : a ∈ ascFrom xs p := mem_ascFrom.2 ⟨ha, hpa⟩
    rw [hl, List.mem_cons] at hmem
    rw [hl, List.pairwise_cons] at hs
    rcases hmem with rfl | hmem
    · exact le_rfl
    · exact (hs.1 a hmem).le
  · rintro ⟨he, hpe, hmin⟩
    have hmem : e ∈ ascFrom xs p := mem_ascFrom.2 ⟨he, hpe⟩
    cases hl : ascFrom xs p with
    | nil => simp [hl] at hmem
    | cons b l =>
      have hb := mem_ascFrom.1 (hl ▸ List.mem_cons_self : b ∈ ascFrom xs p)
      rw [hl, List.pairwise_cons] at hs
      rw [hl, List.mem_cons] at hmem
      rcases hmem with rfl | hmem
      · rfl
      · exact absurd (hs.1 e hmem) (hmin b hb.1 hb.2).not_gt

/-- The first entry at or below `p` is the greatest one. -/
theorem head?_descFrom_eq_some_iff {xs : List ε} {p e : ε} :
    (descFrom xs p).head? = some e ↔ e ∈ xs ∧ e ≤ p ∧ ∀ a ∈ xs, a ≤ p → a ≤ e := by
  have hs := pairwise_descFrom xs p
  constructor
  · intro h
    obtain ⟨l, hl⟩ := List.head?_eq_some_iff.1 h
    have he := mem_descFrom.1 (List.mem_of_mem_head? h)
    refine ⟨he.1, he.2, fun a ha hpa => ?_⟩
    have hmem : a ∈ descFrom xs p := mem_descFrom.2 ⟨ha, hpa⟩
    rw [hl, List.mem_cons] at hmem
    rw [hl, List.pairwise_cons] at hs
    rcases hmem with rfl | hmem
    · exact le_rfl
    · exact (hs.1 a hmem).le
  · rintro ⟨he, hpe, hmax⟩
    have hmem : e ∈ descFrom xs p := mem_descFrom.2 ⟨he, hpe⟩
    cases hl : descFrom xs p with
    | nil => simp [hl] at hmem
    | cons b l =>
      have hb := mem_descFrom.1 (hl ▸ List.mem_cons_self : b ∈ descFrom xs p)
      rw [hl, List.pairwise_cons] at hs
      rw [hl, List.mem_cons] at hmem
      rcases hmem with rfl | hmem
      · rfl
      · exact absurd (hs.1 e hmem) (hmax b hb.1 hb.2).not_gt

end Seek

end Strfry.Lib
