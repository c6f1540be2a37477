import Strfry.IPv4Address

/-!
# IPv6 addresses in proxy headers

The scanner of IPv6 addresses, `isValidIPAddress`, and the text forms that the scanner is about.

`IsIPv6` is the text form of an IPv6 address: eight groups, or at most seven around one `::`, where the
last two may be written as a dotted quad. The scanner counts colons and groups and does not look at where
a single colon stands. On texts without a dot it therefore accepts `Plain` addresses, and besides these
the ones with a single colon before or after them (`reads_iff_plain`).
-/

set_option autoImplicit false

namespace Strfry

open Lib

/-- The byte `:`. -/
abbrev colon : UInt8 := 58

/-- The digits that the scanner of an IPv6 address accepts. -/
def isHexDigit (c : UInt8) : Bool :=
  isDigit c || (97 ≤ c && c ≤ 102) || (65 ≤ c && c ≤ 70)

section Scanner

/-- The variables of the loop in `isValidIPv6`. -/
structure IPv6Scan where
  colonCount : Nat
  doubleColonCount : Nat
  groupCount : Nat
  hexDigits : Nat
  lastWasColon : Bool

namespace IPv6Scan

/-- The loop; `none` is `return false`. -/
def scan : IPv6Scan → Bytes → Option IPv6Scan
  | st, [] => some st
  | st, c :: cs =>
    if c = colon then
      if st.lastWasColon then
        if 1 < st.doubleColonCount + 1 then none
        else scan ⟨st.colonCount + 1, st.doubleColonCount + 1, st.groupCount, st.hexDigits, true⟩ cs
      else if 0 < st.hexDigits then
        scan ⟨st.colonCount + 1, st.doubleColonCount, st.groupCount + 1, 0, true⟩ cs
      else scan ⟨st.colonCount + 1, st.doubleColonCount, st.groupCount, st.hexDigits, true⟩ cs
    else if c = dot then some st  -- `break`
    else if isHexDigit c then
      if 4 < st.hexDigits + 1 then none
      else scan ⟨st.colonCount, st.doubleColonCount, st.groupCount, st.hexDigits + 1, false⟩ cs
    else none

/-- The checks after the loop. -/
def accepts (st : IPv6Scan) : Bool :=
  let groupCount := if 0 < st.hexDigits then st.groupCount + 1 else st.groupCount
  if st.doubleColonCount = 0 ∧ groupCount ≠ 8 then false
  else if st.doubleColonCount = 1 ∧ 7 < groupCount then false
  else 2 ≤ st.colonCount

end IPv6Scan

/-- The text after the last colon. -/
def afterLastColon (ip : Bytes) : Bytes := ip.rtakeWhile (· ≠ colon)

/-- `isValidIPv6`. -/
def isValidIPv6 (ip : Bytes) : Bool :=
  if ip = [] ∨ 45 < ip.length then false
  else
    let suffix := afterLastColon ip
    if colon ∈ ip ∧ suffix ≠ [] ∧ dot ∈ suffix ∧ isValidIPv4 suffix = false then false
    else
      match IPv6Scan.scan ⟨0, 0, 0, 0, false⟩ ip with
      | none => false
      | some st => st.accepts

/-- `isValidIPAddress`. -/
def isValidIPAddress (ip : Bytes) : Bool :=
  if ip = [] ∨ 45 < ip.length then false
  else if colon ∉ ip then isValidIPv4 ip
  else isValidIPv6 ip

/-- One to four hexadecimal digits. -/
structure IsGroup (w : Bytes) : Prop where
  nonempty : w ≠ []
  digits : w.all isHexDigit = true
  length_le : w.length ≤ 4

/-- Fields that are groups. -/
def AreGroups (ws : List Bytes) : Prop := ∀ w ∈ ws, IsGroup w

/-- A field that the scanner does not refuse. -/
def IsPart (w : Bytes) : Prop := w = [] ∨ IsGroup w

theorem isPart_iff {w : Bytes} : IsPart w ↔ w.all isHexDigit = true ∧ w.length ≤ 4 := by
  constructor
  · rintro (rfl | h)
    · simp
    · exact ⟨h.digits, h.length_le⟩
  · rintro ⟨hdigits, hlength⟩
    by_cases hne : w = []
    · exact .inl hne
    · exact .inr ⟨hne, hdigits, hlength⟩

theorem isHexDigit_ne {c : UInt8} (h : isHexDigit c = true) : c ≠ colon ∧ c ≠ dot := by
  constructor <;> rintro rfl <;> exact absurd h (by decide)

theorem IsGroup.colon_notMem {w : Bytes} (h : IsGroup w) : colon ∉ w := fun hc =>
  (isHexDigit_ne (List.all_eq_true.mp h.digits colon hc)).1 rfl

theorem IsGroup.dot_notMem {w : Bytes} (h : IsGroup w) : dot ∉ w := fun hc =>
  (isHexDigit_ne (List.all_eq_true.mp h.digits dot hc)).2 rfl

@[simp] theorem areGroups_nil : AreGroups [] := by simp [AreGroups]

@[simp] theorem areGroups_cons {w : Bytes} {ws : List Bytes} :
    AreGroups (w :: ws) ↔ IsGroup w ∧ AreGroups ws := by
  simp [AreGroups]

@[simp] theorem areGroups_append {l r : List Bytes} :
    AreGroups (l ++ r) ↔ AreGroups l ∧ AreGroups r := by
  simp [AreGroups, or_imp, forall_and]

@[simp] theorem not_isGroup_nil : ¬ IsGroup [] := fun h => h.nonempty rfl

namespace IPv6Scan

/-- The scanner reads the bytes before the first dot. -/
theorem scan_append_dot (st : IPv6Scan) {h : Bytes} (t : Bytes) (hdot : dot ∉ h) :
    scan st (h ++ dot :: t) = scan st h := by
  induction h generalizing st with
  | nil =>
    have hne : dot ≠ colon := by decide
    simp [scan, hne]
  | cons c h ih =>
    simp only [List.mem_cons, not_or] at hdot
    simp only [List.cons_append, scan, ih _ hdot.2, Ne.symm hdot.1, if_false]

/-- Reading hexadecimal digits. -/
theorem scan_digits (c d g k : Nat) (l : Bool) {w : Bytes} (t : Bytes) (hw : w.all isHexDigit = true)
    (hk : k + w.length ≤ 4) :
    scan ⟨c, d, g, k, l⟩ (w ++ t) = scan ⟨c, d, g, k + w.length, l && w.isEmpty⟩ t := by
  induction w generalizing k l with
  | nil => simp
  | cons b w ih =>
    simp only [List.all_cons, Bool.and_eq_true, List.length_cons] at hw hk
    have hne := isHexDigit_ne hw.1
    have hshort : ¬ 4 < k + 1 := by omega
    rw [List.cons_append, scan]
    simp only [hne.1, hne.2, hw.1, hshort, if_false, if_true]
    rw [ih (k + 1) false hw.2 (by omega)]
    simp [Nat.add_assoc, Nat.add_comm 1]

/-- A field that is not a part is refused. -/
theorem scan_refuse (c d g k : Nat) (l : Bool) {w : Bytes} (t : Bytes) (hcolon : colon ∉ w)
    (hdot : dot ∉ w) (hw : ¬ (w.all isHexDigit = true ∧ k + w.length ≤ 4)) (hk : k ≤ 4) :
    scan ⟨c, d, g, k, l⟩ (w ++ t) = none := by
  induction w generalizing k l with
  | nil => exact absurd ⟨rfl, by simpa using hk⟩ hw
  | cons b w ih =>
    simp only [List.mem_cons, not_or] at hcolon hdot
    rw [List.cons_append, scan]
    simp only [Ne.symm hcolon.1, Ne.symm hdot.1, if_false]
    by_cases hb : isHexDigit b = true
    · simp only [hb, if_true]
      by_cases hlong : 4 < k + 1
      · simp [hlong]
      · simp only [hlong, if_false]
        apply ih (k + 1) false hcolon.2 hdot.2 _ (by omega)
        intro h
        apply hw
        simp only [List.all_cons, hb, h.1, List.length_cons, Bool.and_self, true_and]
        omega
    · simp [hb]

/-- The scanner accepts the text `t` from `st` on. -/
def Reads (st : IPv6Scan) (t : Bytes) : Prop := ∃ st', scan st t = some st' ∧ st'.accepts = true

/-- Before a field: `c` colons, `d` double colons and `g` groups so far; `l` says whether a colon has
been read last. -/
def before (c d g : Nat) (l : Bool) : IPv6Scan := ⟨c, d, g, 0, l⟩

theorem not_reads_field (c d g : Nat) (l : Bool) {w : Bytes} (t : Bytes) (hcolon : colon ∉ w)
    (hdot : dot ∉ w) (hw : ¬ IsPart w) : ¬ Reads (before c d g l) (w ++ t) := by
  rintro ⟨st', hscan, -⟩
  rw [before, scan_refuse c d g 0 l t hcolon hdot (by rwa [isPart_iff, ← Nat.zero_add w.length] at hw)
    (by decide)] at hscan
  contradiction

theorem not_reads_last (c d g : Nat) (l : Bool) {w : Bytes} (hcolon : colon ∉ w) (hdot : dot ∉ w)
    (hw : ¬ IsPart w) : ¬ Reads (before c d g l) w := by
  have hno := not_reads_field c d g l [] hcolon hdot hw
  rwa [List.append_nil] at hno

/-- The last field is a group. -/
theorem reads_group {c d g : Nat} {l : Bool} {w : Bytes} (hw : IsGroup w) :
    Reads (before c d g l) w ↔
      (d = 0 → g + 1 = 8) ∧ (d = 1 → g + 1 ≤ 7) ∧ 2 ≤ c := by
  have hlength : 0 < w.length := List.length_pos_iff.mpr hw.nonempty
  have hscan := scan_digits c d g 0 l [] hw.digits (by have := hw.length_le; omega)
  rw [List.append_nil] at hscan
  simp only [Reads, before, hscan, scan, Option.some.injEq, exists_eq_left', accepts, Nat.zero_add,
    hlength, if_true]
  grind

/-- The last field is empty. -/
theorem reads_nil {c d g : Nat} {l : Bool} :
    Reads (before c d g l) [] ↔ (d = 0 → g = 8) ∧ (d = 1 → g ≤ 7) ∧ 2 ≤ c := by
  simp only [Reads, before, scan, Option.some.injEq, exists_eq_left', accepts]
  grind

/-- A group and a colon. -/
theorem reads_group_colon {c d g : Nat} {l : Bool} {w t : Bytes} (hw : IsGroup w) :
    Reads (before c d g l) (w ++ colon :: t) ↔ Reads (before (c + 1) d (g + 1) true) t := by
  have hlength : 0 < w.length := List.length_pos_iff.mpr hw.nonempty
  have hempty : w.isEmpty = false := by simpa using hw.nonempty
  simp only [Reads, before]
  rw [scan_digits c d g 0 l _ hw.digits (by have := hw.length_le; omega), scan]
  simp [hempty, hlength]

/-- A single colon before the first field. -/
theorem reads_colon {c d g : Nat} {t : Bytes} :
    Reads (before c d g false) (colon :: t) ↔ Reads (before (c + 1) d g true) t := by
  simp [Reads, before, scan]

/-- A second colon in a row. -/
theorem reads_colon_colon {c d g : Nat} {t : Bytes} :
    Reads (before c d g true) (colon :: t) ↔ d = 0 ∧ Reads (before (c + 1) (d + 1) g true) t := by
  simp only [Reads, before, scan, if_true]
  by_cases hd : d = 0
  · simp [hd]
  · have : 1 < d + 1 := by omega
    simp [hd, this]

/-- Fields `P` with `n` groups, perhaps followed by an empty field. -/
inductive Closing : List Bytes → Nat → Prop
  | nil : Closing [] 0
  | colon : Closing [[]] 0
  | group {w : Bytes} {P : List Bytes} {n : Nat} : IsGroup w → Closing P n → Closing (w :: P) (n + 1)

/-- Fields with `n` groups around one empty field, perhaps followed by another. -/
inductive Squeezed : List Bytes → Nat → Prop
  | here {P : List Bytes} {n : Nat} : P ≠ [] → Closing P n → Squeezed ([] :: P) n
  | group {w : Bytes} {P : List Bytes} {n : Nat} : IsGroup w → Squeezed P n → Squeezed (w :: P) (n + 1)

theorem closing_cons {w : Bytes} {P : List Bytes} {n : Nat} :
    Closing (w :: P) n ↔
      (w = [] ∧ P = [] ∧ n = 0) ∨ (IsGroup w ∧ ∃ m, n = m + 1 ∧ Closing P m) := by
  constructor
  · intro h
    cases h with
    | colon => exact .inl ⟨rfl, rfl, rfl⟩
    | group hw hP => exact .inr ⟨hw, _, rfl, hP⟩
  · rintro (⟨rfl, rfl, rfl⟩ | ⟨hw, m, rfl, hP⟩)
    · exact .colon
    · exact .group hw hP

theorem squeezed_cons {w : Bytes} {P : List Bytes} {n : Nat} :
    Squeezed (w :: P) n ↔
      (w = [] ∧ P ≠ [] ∧ Closing P n) ∨ (IsGroup w ∧ ∃ m, n = m + 1 ∧ Squeezed P m) := by
  constructor
  · intro h
    cases h with
    | here hne hP => exact .inl ⟨rfl, hne, hP⟩
    | group hw hP => exact .inr ⟨hw, _, rfl, hP⟩
  · rintro (⟨rfl, hne, hP⟩ | ⟨hw, m, rfl, hP⟩)
    · exact .here hne hP
    · exact .group hw hP

theorem not_squeezed_nil {n : Nat} : ¬ Squeezed [] n := nofun

theorem closing_nil {n : Nat} : Closing [] n ↔ n = 0 :=
  ⟨fun h => by cases h; rfl, fun h => h ▸ .nil⟩

/-- After a double colon. -/
theorem reads_closing {c g : Nat} {t : Bytes} (hdot : dot ∉ t) (hc : 2 ≤ c) :
    Reads (before c 1 g true) t ↔ ∃ n, Closing (t.splitOn colon) n ∧ g + n ≤ 7 := by
  induction t using fields_induction colon generalizing c g with
  | last w hw =>
    rw [List.splitOn_eq_singleton hw]
    simp only [closing_cons, closing_nil]
    by_cases hpart : IsPart w
    · rcases hpart with rfl | hgroup
      · simp [reads_nil, hc]
      · simp [reads_group hgroup, hgroup, hgroup.nonempty, hc]
    · have hno := not_reads_last c 1 g true hw hdot hpart
      simp only [IsPart, not_or] at hpart
      simp [hno, hpart]
  | more w t hw ih =>
    simp only [List.mem_append, List.mem_cons, not_or] at hdot
    rw [List.splitOn_append_cons_self_of_not_mem hw]
    simp only [closing_cons, List.splitOn_ne_nil]
    by_cases hpart : IsPart w
    · rcases hpart with rfl | hgroup
      · simp [reads_colon_colon]
      · rw [reads_group_colon hgroup, ih hdot.2.2 (by omega)]
        simp only [hgroup, false_and, and_false, false_or, true_and, ↓existsAndEq]
        simp [Nat.add_assoc, Nat.add_comm 1]
    · have hno := not_reads_field c 1 g true (colon :: t) hw hdot.1 hpart
      simp only [IsPart, not_or] at hpart
      simp [hno, hpart]

/-- After a single colon. -/
theorem reads_open {c g : Nat} {t : Bytes} (hdot : dot ∉ t) (hc : 1 ≤ c) (hg : g ≤ c) :
    Reads (before c 0 g true) t ↔
      (∃ n, Closing (t.splitOn colon) n ∧ g + n = 8) ∨
        ∃ n, Squeezed (t.splitOn colon) n ∧ g + n ≤ 7 := by
  induction t using fields_induction colon generalizing c g with
  | last w hw =>
    rw [List.splitOn_eq_singleton hw]
    simp only [closing_cons, closing_nil, squeezed_cons, not_squeezed_nil]
    by_cases hpart : IsPart w
    · rcases hpart with rfl | hgroup
      · simp only [reads_nil]
        simp
        omega
      · simp only [reads_group hgroup, hgroup, hgroup.nonempty]
        simp
        omega
    · have hno := not_reads_last c 0 g true hw hdot hpart
      simp only [IsPart, not_or] at hpart
      simp [hno, hpart]
  | more w t hw ih =>
    simp only [List.mem_append, List.mem_cons, not_or] at hdot
    rw [List.splitOn_append_cons_self_of_not_mem hw]
    simp only [closing_cons, squeezed_cons, List.splitOn_ne_nil]
    by_cases hpart : IsPart w
    · rcases hpart with rfl | hgroup
      · simp [reads_colon_colon, reads_closing hdot.2.2 (by omega : 2 ≤ c + 1)]
      · rw [reads_group_colon hgroup, ih hdot.2.2 (by omega) (by omega)]
        simp [hgroup, hgroup.nonempty, Nat.add_assoc, Nat.add_comm 1]
    · have hno := not_reads_field c 0 g true (colon :: t) hw hdot.1 hpart
      simp only [IsPart, not_or] at hpart
      simp [hno, hpart]

/-- The fields that the scanner accepts after a first field or a leading colon. -/
def Accepted (P : List Bytes) : Prop := Closing P 8 ∨ ∃ n, Squeezed P n ∧ n ≤ 7

/-- The fields of the texts without a dot that the scanner accepts. -/
theorem reads_start {h : Bytes} (hdot : dot ∉ h) :
    Reads (before 0 0 0 false) h ↔ ∃ w P, h.splitOn colon = w :: P ∧
      ((w = [] ∧ Accepted P) ∨ (IsGroup w ∧ Accepted (w :: P))) := by
  by_cases hcolon : colon ∈ h
  · obtain ⟨w, t, rfl, hw⟩ := List.eq_append_cons_of_mem hcolon
    simp only [List.mem_append, List.mem_cons, not_or] at hdot
    rw [List.splitOn_append_cons_self_of_not_mem hw]
    simp only [Accepted, List.cons.injEq, ↓existsAndEq, true_and, closing_cons, squeezed_cons]
    by_cases hpart : IsPart w
    · rcases hpart with rfl | hgroup
      · rw [List.nil_append, reads_colon, reads_open hdot.2.2 (by omega) (by omega)]
        simp
      · rw [reads_group_colon hgroup, reads_open hdot.2.2 (by omega) (by omega)]
        simp [hgroup, hgroup.nonempty, Nat.add_comm 1]
    · have hno := not_reads_field 0 0 0 false (colon :: t) hw hdot.1 hpart
      simp only [IsPart, not_or] at hpart
      simp [hno, hpart]
  · rw [List.splitOn_eq_singleton hcolon]
    simp only [Accepted, List.cons.injEq, ↓existsAndEq, true_and, closing_cons, squeezed_cons,
      closing_nil, not_squeezed_nil]
    by_cases hpart : IsPart h
    · rcases hpart with rfl | hgroup
      · simp [reads_nil]
      · simp [reads_group hgroup, hgroup, hgroup.nonempty]
    · have hno := not_reads_last 0 0 0 false hcolon hdot hpart
      simp only [IsPart, not_or] at hpart
      simp [hno, hpart]

end IPv6Scan

section Texts

/-- `n` groups and then the fields `tail`, joined by single colons. -/
def Full (tail : List Bytes) (n : Nat) (s : Bytes) : Prop :=
  ∃ ws, AreGroups ws ∧ ws.length = n ∧ s = [colon].intercalate (ws ++ tail)

/-- `n` groups around one `::`, and the fields `tail` after the last of them. -/
def Short (tail : List Bytes) (n : Nat) (s : Bytes) : Prop :=
  ∃ l r, AreGroups l ∧ AreGroups r ∧ l.length + r.length = n ∧
    s = [colon].intercalate l ++ colon :: colon :: [colon].intercalate (r ++ tail)

/-- An address without a dotted quad. -/
def Plain (s : Bytes) : Prop := Full [] 8 s ∨ ∃ n ≤ 7, Short [] n s

/-- The text forms of an IPv6 address. A dotted quad stands for the last two groups. -/
def IsIPv6 (s : Bytes) : Prop :=
  Plain s ∨ ∃ quad, IsIPv4 quad ∧ (Full [quad] 6 s ∨ ∃ n ≤ 5, Short [quad] n s)

/-- `s` is `core` with a single colon before it, after it, or both. -/
def LoneColon (core s : Bytes) : Prop :=
  (s = colon :: core ∧ core.head? ≠ some colon) ∨
  (s = core ++ [colon] ∧ core.getLast? ≠ some colon) ∨
  (s = colon :: (core ++ [colon]) ∧ core.head? ≠ some colon ∧ core.getLast? ≠ some colon)

theorem closing_iff {P : List Bytes} {n : Nat} :
    IPv6Scan.Closing P n ↔ ∃ r, AreGroups r ∧ r.length = n ∧ (P = r ∨ P = r ++ [[]]) := by
  constructor
  · intro h
    induction h with
    | nil => exact ⟨[], by simp, rfl, .inl rfl⟩
    | colon => exact ⟨[], by simp, rfl, .inr rfl⟩
    | @group w P n hw hP ih =>
      obtain ⟨r, hr, rfl, rfl | rfl⟩ := ih
      · exact ⟨w :: P, by simp [hw, hr], rfl, .inl rfl⟩
      · exact ⟨w :: r, by simp [hw, hr], rfl, .inr rfl⟩
  · rintro ⟨r, hr, rfl, rfl | rfl⟩
    · induction P with
      | nil => exact .nil
      | cons w P ih =>
        rw [areGroups_cons] at hr
        exact .group hr.1 (ih hr.2)
    · induction r with
      | nil => exact .colon
      | cons w r ih =>
        rw [areGroups_cons] at hr
        exact .group hr.1 (ih hr.2)

theorem squeezed_iff {P : List Bytes} {n : Nat} :
    IPv6Scan.Squeezed P n ↔ ∃ l r, AreGroups l ∧ AreGroups r ∧ l.length + r.length = n ∧
      ((r ≠ [] ∧ P = l ++ [] :: r) ∨ P = l ++ [] :: (r ++ [[]])) := by
  constructor
  · intro h
    induction h with
    | here hne hP =>
      obtain ⟨r, hr, rfl, rfl | rfl⟩ := closing_iff.mp hP
      · exact ⟨[], _, by simp, hr, by simp, .inl ⟨hne, rfl⟩⟩
      · exact ⟨[], r, by simp, hr, by simp, .inr rfl⟩
    | @group w P n hw hP ih =>
      obtain ⟨l, r, hl, hr, rfl, hfields⟩ := ih
      refine ⟨w :: l, r, by simp [hw, hl], hr, by simp [Nat.add_right_comm], ?_⟩
      rcases hfields with ⟨hne, rfl⟩ | rfl
      · exact .inl ⟨hne, rfl⟩
      · exact .inr rfl
  · rintro ⟨l, r, hl, hr, rfl, hfields⟩
    induction l generalizing P with
    | nil =>
      rcases hfields with ⟨hne, rfl⟩ | rfl
      · exact .here hne (closing_iff.mpr ⟨r, hr, by simp, .inl rfl⟩)
      · exact .here (by simp) (closing_iff.mpr ⟨r, hr, by simp, .inr rfl⟩)
    | cons w l ih =>
      rw [areGroups_cons] at hl
      rw [List.length_cons, Nat.add_right_comm]
      rcases hfields with ⟨hne, rfl⟩ | rfl
      · exact .group hl.1 (ih hl.2 (.inl ⟨hne, rfl⟩))
      · exact .group hl.1 (ih hl.2 (.inr rfl))

theorem AreGroups.colon_notMem {ws : List Bytes} (h : AreGroups ws) : ∀ w ∈ ws, colon ∉ w :=
  fun w hw => (h w hw).colon_notMem

theorem AreGroups.head_ne {ws : List Bytes} (h : AreGroups ws) (hne : ws ≠ []) (t : Bytes) :
    ([colon].intercalate ws ++ t).head? ≠ some colon := by
  cases ws with
  | nil => exact absurd rfl hne
  | cons w ws =>
    have hw := h w (by simp)
    obtain ⟨c, rest, rfl⟩ := List.exists_cons_of_ne_nil hw.nonempty
    have hc : c ≠ colon := fun heq => hw.colon_notMem (by simp [heq])
    simpa using hc

theorem AreGroups.getLast_ne {ws : List Bytes} (h : AreGroups ws) (hne : ws ≠ []) (t : Bytes) :
    (t ++ [colon].intercalate ws).getLast? ≠ some colon := by
  induction ws generalizing t with
  | nil => exact absurd rfl hne
  | cons w ws ih =>
    by_cases hws : ws = []
    · subst hws
      have hw := h w (by simp)
      rw [List.intercalate_singleton, List.getLast?_append_of_ne_nil t hw.nonempty]
      intro hlast
      exact hw.colon_notMem (List.mem_of_getLast? hlast)
    · rw [List.intercalate_cons_of_ne_nil hws, ← List.append_assoc]
      exact ih (areGroups_cons.mp h).2 hws _

/-- The fields of joined groups. -/
theorem AreGroups.splitOn_intercalate {ws : List Bytes} (h : AreGroups ws) (hne : ws ≠ []) :
    ([colon].intercalate ws).splitOn colon = ws :=
  List.splitOn_intercalate colon h.colon_notMem hne

open IPv6Scan (Closing Squeezed Accepted before)

/-- A text with the fields `w :: P`, when they are accepted and `w` is a group. -/
theorem plain_of_accepted {w : Bytes} {P : List Bytes} (hw : IsGroup w)
    (h : Accepted (w :: P)) : ∃ core, Plain core ∧ core.head? ≠ some colon ∧
      ([colon].intercalate (w :: P) = core ∨
        ([colon].intercalate (w :: P) = core ++ [colon] ∧ core.getLast? ≠ some colon)) := by
  rcases h with h | ⟨n, h, hn⟩
  · obtain ⟨r, hr, hlength, hfields⟩ := closing_iff.mp h
    have hne : r ≠ [] := by rintro rfl; simp at hlength
    refine ⟨[colon].intercalate r, .inl ⟨r, hr, hlength, by simp⟩, ?_, ?_⟩
    · simpa using hr.head_ne hne []
    · rcases hfields with hfields | hfields
      · exact .inl (by rw [hfields])
      · refine .inr ⟨?_, by simpa using hr.getLast_ne hne []⟩
        rw [hfields, intercalate_append_cons hne (by simp), List.intercalate_singleton]
  · obtain ⟨l, r, hl, hr, rfl, hfields⟩ := squeezed_iff.mp h
    have hne : l ≠ [] := by
      rintro rfl
      rcases hfields with ⟨-, hfields⟩ | hfields
      · exact hw.nonempty (List.cons.inj hfields).1
      · exact hw.nonempty (List.cons.inj hfields).1
    refine ⟨[colon].intercalate l ++ colon :: colon :: [colon].intercalate r,
      .inr ⟨_, hn, l, r, hl, hr, rfl, by simp⟩, hl.head_ne hne _, ?_⟩
    rcases hfields with ⟨hrne, hfields⟩ | hfields
    · left
      rw [hfields, intercalate_append_cons hne (by simp), List.intercalate_cons_of_ne_nil hrne]
      simp
    · rw [hfields, intercalate_append_cons hne (by simp), List.intercalate_cons_of_ne_nil (by simp)]
      by_cases hrne : r = []
      · left
        simp [hrne]
      · refine .inr ⟨?_, ?_⟩
        · rw [intercalate_append_cons hrne (by simp)]
          simp
        · have hlast := hr.getLast_ne hrne ([colon].intercalate l ++ [colon, colon])
          simpa using hlast

/-- What the scanner accepts of a text without a dot. -/
theorem plain_of_reads {h : Bytes} (hdot : dot ∉ h) (hreads : IPv6Scan.Reads (before 0 0 0 false) h) :
    Plain h ∨ ∃ core, Plain core ∧ LoneColon core h := by
  obtain ⟨w, P, hfields, hP⟩ := (IPv6Scan.reads_start hdot).mp hreads
  have htext := eq_intercalate_of_splitOn_eq hfields
  rcases hP with ⟨rfl, hP⟩ | ⟨hw, hP⟩
  · cases P with
    | nil =>
      rcases hP with hP | ⟨n, hP, -⟩
      · cases hP
      · cases hP
    | cons v P =>
      rw [List.intercalate_cons_cons, List.nil_append, List.singleton_append] at htext
      by_cases hv : v = []
      · subst hv
        rcases hP with hP | ⟨n, hP, hn⟩
        · cases hP with
          | group hgroup => exact absurd hgroup not_isGroup_nil
        · cases hP with
          | group hgroup => exact absurd hgroup not_isGroup_nil
          | here hne hP =>
            -- the text starts with a double colon
            rw [List.intercalate_cons_of_ne_nil hne, List.nil_append, List.singleton_append] at htext
            obtain ⟨r, hr, rfl, rfl | rfl⟩ := closing_iff.mp hP
            · exact .inl (.inr ⟨_, hn, [], P, by simp, hr, by simp, by simpa using htext⟩)
            · by_cases hrne : r = []
              · subst hrne
                exact .inl (.inr ⟨_, hn, [], [], by simp, by simp, by simp, by simpa using htext⟩)
              · refine .inr ⟨colon :: colon :: [colon].intercalate r,
                  .inr ⟨_, hn, [], r, by simp, hr, by simp, by simp⟩, .inr (.inl ⟨?_, ?_⟩)⟩
                · rw [htext, intercalate_append_cons hrne (by simp)]
                  simp
                · have hlast := hr.getLast_ne hrne [colon, colon]
                  simpa using hlast
      · have hgroup : IsGroup v := by
          rcases hP with hP | ⟨n, hP, -⟩
          · cases hP with
            | group hgroup => exact hgroup
          · cases hP with
            | here => exact absurd rfl hv
            | group hgroup => exact hgroup
        obtain ⟨core, hcore, hhead, hjoin | ⟨hjoin, hlast⟩⟩ := plain_of_accepted hgroup hP
        · exact .inr ⟨core, hcore, .inl ⟨by rw [htext, hjoin], hhead⟩⟩
        · exact .inr ⟨core, hcore, .inr (.inr ⟨by rw [htext, hjoin], hhead, hlast⟩)⟩
  · obtain ⟨core, hcore, -, hjoin | ⟨hjoin, hlast⟩⟩ := plain_of_accepted hw hP
    · exact .inl (by rw [htext, hjoin]; exact hcore)
    · exact .inr ⟨core, hcore, .inr (.inl ⟨by rw [htext, hjoin], hlast⟩)⟩

theorem squeezed_append {l P : List Bytes} {n : Nat} (hl : AreGroups l) (hP : Squeezed P n) :
    Squeezed (l ++ P) (l.length + n) := by
  induction l with
  | nil => simpa using hP
  | cons w l ih =>
    rw [areGroups_cons] at hl
    rw [List.length_cons, Nat.add_right_comm]
    exact .group hl.1 (ih hl.2)

/-- The fields of a text around a double colon. -/
theorem splitOn_short {l : List Bytes} (hl : AreGroups l) (hne : l ≠ []) (t : Bytes) :
    ([colon].intercalate l ++ colon :: colon :: t).splitOn colon = l ++ [] :: t.splitOn colon := by
  rw [List.splitOn_append_cons_self, hl.splitOn_intercalate hne, splitOn_cons_self]

/-- The fields of an address, with an empty one after them when a single colon follows. -/
theorem fields_of_plain {core : Bytes} {e : List Bytes} (hcore : Plain core)
    (he : e = [] ∨ (e = [[]] ∧ core.getLast? ≠ some colon)) :
    ∃ w P, core.splitOn colon ++ e = w :: P ∧
      ((w = [] ∧ core.head? = some colon ∧ Accepted P) ∨ (IsGroup w ∧ Accepted (w :: P))) := by
  rcases hcore with ⟨ws, hws, hlength, rfl⟩ | ⟨n, hn, l, r, hl, hr, rfl, rfl⟩
  · have hne : ws ≠ [] := by rintro rfl; simp at hlength
    rw [List.append_nil, hws.splitOn_intercalate hne]
    have hclosing : Closing (ws ++ e) 8 := by
      apply closing_iff.mpr
      rcases he with rfl | ⟨rfl, -⟩
      · exact ⟨ws, hws, hlength, .inl (by simp)⟩
      · exact ⟨ws, hws, hlength, .inr rfl⟩
    obtain ⟨w, P, rfl⟩ := List.exists_cons_of_ne_nil hne
    exact ⟨w, P ++ e, rfl, .inr ⟨(areGroups_cons.mp hws).1, .inl hclosing⟩⟩
  · rw [List.append_nil] at he ⊢
    -- what follows the double colon
    have hclosing : Closing (([colon].intercalate r).splitOn colon ++ e) r.length := by
      apply closing_iff.mpr
      by_cases hrne : r = []
      · subst hrne
        rcases he with rfl | ⟨-, hlast⟩
        · exact ⟨[], by simp, rfl, .inr (by simp)⟩
        · simp at hlast
      · rw [hr.splitOn_intercalate hrne]
        rcases he with rfl | ⟨rfl, -⟩
        · exact ⟨r, hr, rfl, .inl (by simp)⟩
        · exact ⟨r, hr, rfl, .inr rfl⟩
    have hhere : Squeezed ([] :: (([colon].intercalate r).splitOn colon ++ e)) r.length :=
      .here (by simp) hclosing
    by_cases hne : l = []
    · subst hne
      refine ⟨[], _, ?_, .inl ⟨rfl, by simp, .inr ⟨r.length, hhere, by simpa using hn⟩⟩⟩
      rw [List.intercalate_nil, List.nil_append, splitOn_cons_self, splitOn_cons_self]
      rfl
    · have hsqueezed := squeezed_append hl hhere
      rw [splitOn_short hl hne, List.append_assoc]
      obtain ⟨w, l, rfl⟩ := List.exists_cons_of_ne_nil hne
      exact ⟨w, _, rfl, .inr ⟨(areGroups_cons.mp hl).1, .inr ⟨_, hsqueezed, hn⟩⟩⟩

theorem reads_of_plain {h : Bytes} (hdot : dot ∉ h)
    (hplain : Plain h ∨ ∃ core, Plain core ∧ LoneColon core h) : IPv6Scan.Reads (before 0 0 0 false) h := by
  rw [IPv6Scan.reads_start hdot]
  rcases hplain with hplain | ⟨core, hcore, ⟨rfl, hhead⟩ | ⟨rfl, hlast⟩ | ⟨rfl, hhead, hlast⟩⟩
  · obtain ⟨w, P, hfields, hP⟩ := fields_of_plain hplain (.inl rfl)
    rw [List.append_nil] at hfields
    exact ⟨w, P, hfields, hP.imp_left fun h => ⟨h.1, h.2.2⟩⟩
  · obtain ⟨w, P, hfields, ⟨-, hcolon, -⟩ | ⟨-, hP⟩⟩ := fields_of_plain hcore (.inl rfl)
    · exact absurd hcolon hhead
    · rw [List.append_nil] at hfields
      exact ⟨[], w :: P, by rw [splitOn_cons_self, hfields], .inl ⟨rfl, hP⟩⟩
  · obtain ⟨w, P, hfields, hP⟩ := fields_of_plain hcore (.inr ⟨rfl, hlast⟩)
    exact ⟨w, P, by rw [splitOn_concat_self, hfields], hP.imp_left fun h => ⟨h.1, h.2.2⟩⟩
  · obtain ⟨w, P, hfields, ⟨-, hcolon, -⟩ | ⟨-, hP⟩⟩ := fields_of_plain hcore (.inr ⟨rfl, hlast⟩)
    · exact absurd hcolon hhead
    · exact ⟨[], w :: P, by rw [splitOn_cons_self, splitOn_concat_self, hfields], .inl ⟨rfl, hP⟩⟩

/-- The texts without a dot that the scanner accepts: addresses, and addresses with a single colon
before or after them. -/
theorem reads_iff_plain {h : Bytes} (hdot : dot ∉ h) :
    IPv6Scan.Reads (before 0 0 0 false) h ↔ Plain h ∨ ∃ core, Plain core ∧ LoneColon core h :=
  ⟨plain_of_reads hdot, reads_of_plain hdot⟩

end Texts

end Scanner

end Strfry
