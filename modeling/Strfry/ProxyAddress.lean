import Strfry.IPv6Address

/-!
# Client addresses from proxy headers

`getClientIP` takes the client's address from a proxy header when the value passes `isValidIPAddress`.

The scanner of IPv6 addresses does not look at where a single colon stands, stops at the first dot, and
counts a dotted quad as one group. `Misread` lists the texts on which that makes a difference.
`isValidIPAddress` recognises the text forms of IPv6 addresses on all other texts with a colon, and on
none of these.
-/

set_option autoImplicit false

namespace Strfry

open Lib
open IPv6Scan (before)

section Quads

/-- What the scanner takes for an address with the dotted quad `quad` at its end: seven groups before
it, or at most six around `::`. -/
def Tolerated (quad s : Bytes) : Prop := Full [quad] 7 s ∨ ∃ n ≤ 6, Short [quad] n s

/-- The texts with a colon that `isValidIPAddress` gets wrong. -/
inductive Misread : Bytes → Prop
  /-- An address with a single colon before or after it. -/
  | loneColon {core s : Bytes} : Plain core → LoneColon core s → Misread s
  /-- A dot before the last colon: only what stands before the dot is read, and what stands after the
  last colon when it has a dot too. -/
  | earlyDot {h p q : Bytes} : Plain h ∨ (∃ core, Plain core ∧ LoneColon core h) →
      colon ∉ q → (dot ∈ q → IsIPv4 q) → (h ++ dot :: p ++ colon :: q).length ≤ 45 →
      Misread (h ++ dot :: p ++ colon :: q)
  /-- One group too many before a dotted quad. -/
  | manyGroups {quad s : Bytes} : IsIPv4 quad → Full [quad] 7 s ∨ Short [quad] 6 s →
      s.length ≤ 45 → Misread s
  /-- Six groups and a dotted quad, which is an address. -/
  | sixGroups {quad s : Bytes} : IsIPv4 quad → Full [quad] 6 s → Misread s
  /-- A single colon before groups and a dotted quad. -/
  | loneColonQuad {quad core : Bytes} : IsIPv4 quad → Tolerated quad core →
      core.head? ≠ some colon → (colon :: core).length ≤ 45 → Misread (colon :: core)

theorem IsIPv4.colon_notMem {q : Bytes} (h : IsIPv4 q) : colon ∉ q := by
  obtain ⟨ws, -, hws, rfl⟩ := h
  intro hc
  rcases mem_intercalate hc with heq | ⟨w, hw, hcw⟩
  · exact absurd heq (by decide)
  · exact absurd (List.all_eq_true.mp (hws w hw).digits colon hcw) (by decide)

/-- A dotted quad is an octet, a dot and the rest. -/
theorem IsIPv4.exists_octet {q : Bytes} (h : IsIPv4 q) : ∃ o t, q = o ++ dot :: t ∧ IsOctet o := by
  obtain ⟨ws, hlength, hws, rfl⟩ := h
  match ws, hlength with
  | [a, b, c, d], _ => exact ⟨a, b ++ dot :: (c ++ dot :: d), by simp, hws a (by simp)⟩

theorem IsIPv4.dot_mem {q : Bytes} (h : IsIPv4 q) : dot ∈ q := by
  obtain ⟨o, t, rfl, -⟩ := h.exists_octet
  simp

theorem IsOctet.isGroup {w : Bytes} (h : IsOctet w) : IsGroup w := by
  refine ⟨h.nonempty, ?_, by have := h.length_le; omega⟩
  apply List.all_eq_true.mpr
  intro c hc
  simp [isHexDigit, List.all_eq_true.mp h.digits c hc]

/-- The groups before the last field of a text without `::`. -/
def FullStem (n : Nat) (p : Bytes) : Prop :=
  ∃ ws, AreGroups ws ∧ ws.length = n ∧ p = [colon].intercalate ws

/-- What stands before the last colon of a text with `::`. -/
def ShortStem (n : Nat) (p : Bytes) : Prop :=
  ∃ l r, AreGroups l ∧ AreGroups r ∧ l.length + r.length = n ∧
    p = [colon].intercalate l ++ colon :: r.flatMap (colon :: ·)

theorem cons_intercalate_concat (r : List Bytes) (q : Bytes) :
    colon :: [colon].intercalate (r ++ [q]) = r.flatMap (colon :: ·) ++ colon :: q := by
  induction r with
  | nil => simp
  | cons w r ih =>
    rw [List.cons_append, List.intercalate_cons_of_ne_nil (by simp), List.flatMap_cons,
      List.append_assoc (colon :: w), ← ih]
    simp

theorem full_concat_iff {n : Nat} {q s : Bytes} (hn : 0 < n) :
    Full [q] n s ↔ ∃ p, s = p ++ colon :: q ∧ FullStem n p := by
  constructor
  · rintro ⟨ws, hws, rfl, rfl⟩
    have hne : ws ≠ [] := List.length_pos_iff.mp hn
    exact ⟨_, by rw [intercalate_append_cons hne (by simp), List.intercalate_singleton],
      ws, hws, rfl, rfl⟩
  · rintro ⟨p, rfl, ws, hws, rfl, rfl⟩
    have hne : ws ≠ [] := List.length_pos_iff.mp hn
    exact ⟨ws, hws, rfl, by
      rw [intercalate_append_cons hne (by simp), List.intercalate_singleton]⟩

theorem short_concat_iff {n : Nat} {q s : Bytes} :
    Short [q] n s ↔ ∃ p, s = p ++ colon :: q ∧ ShortStem n p := by
  constructor
  · rintro ⟨l, r, hl, hr, rfl, rfl⟩
    exact ⟨_, by rw [cons_intercalate_concat, ← List.cons_append, ← List.append_assoc],
      l, r, hl, hr, rfl, rfl⟩
  · rintro ⟨p, rfl, l, r, hl, hr, rfl, rfl⟩
    exact ⟨l, r, hl, hr, rfl, by
      rw [cons_intercalate_concat, ← List.cons_append, ← List.append_assoc]⟩

theorem fullStem_dot {n : Nat} {p : Bytes} (h : FullStem n p) : dot ∉ p := by
  obtain ⟨ws, hws, -, rfl⟩ := h
  intro hdot
  rcases mem_intercalate hdot with heq | ⟨w, hw, hdot⟩
  · exact absurd heq (by decide)
  · exact (hws w hw).dot_notMem hdot

theorem shortStem_dot {n : Nat} {p : Bytes} (h : ShortStem n p) : dot ∉ p := by
  obtain ⟨l, r, hl, hr, -, rfl⟩ := h
  have hne : dot ≠ colon := by decide
  simp only [List.mem_append, List.mem_cons, List.mem_flatMap, hne, false_or, not_or, not_exists,
    not_and]
  exact ⟨fullStem_dot ⟨l, hl, rfl, rfl⟩, fun w hw => (hr w hw).dot_notMem⟩

/-- A last group can be taken out of an address without a dotted quad. -/
theorem full_succ_iff {n : Nat} {o p : Bytes} (ho : IsGroup o) (hn : 0 < n) :
    Full [] (n + 1) (p ++ colon :: o) ↔ FullStem n p := by
  constructor
  · rintro ⟨ws, hws, hlength, htext⟩
    rcases List.eq_nil_or_concat ws with rfl | ⟨ws, w, rfl⟩
    · simp at hlength
    · rw [List.concat_eq_append] at *
      simp only [areGroups_append, areGroups_cons, areGroups_nil, and_true] at hws
      have hne : ws ≠ [] := by
        rintro rfl
        simp at hlength
        omega
      rw [List.append_nil, intercalate_append_cons hne (by simp), List.intercalate_singleton] at htext
      obtain ⟨rfl, -⟩ := append_cons_inj_of_last ho.colon_notMem hws.2.colon_notMem htext
      exact ⟨ws, hws.1, by simpa using hlength, rfl⟩
  · rintro ⟨ws, hws, rfl, rfl⟩
    have hne : ws ≠ [] := List.length_pos_iff.mp hn
    refine ⟨ws ++ [o], by simp [hws, ho], by simp, ?_⟩
    rw [List.append_nil, intercalate_append_cons hne (by simp), List.intercalate_singleton]

theorem short_iff_stem {n : Nat} {o p : Bytes} (ho : IsGroup o) :
    Short [] n (p ++ colon :: o) ↔ ∃ m, n = m + 1 ∧ ShortStem m p := by
  constructor
  · rintro ⟨l, r, hl, hr, rfl, htext⟩
    rcases List.eq_nil_or_concat r with rfl | ⟨r, w, rfl⟩
    · -- the text would end with a colon
      have hsplit : p ++ colon :: o = ([colon].intercalate l ++ [colon]) ++ colon :: [] := by
        simpa using htext
      exact absurd (append_cons_inj_of_last ho.colon_notMem (by simp) hsplit).2 ho.nonempty
    · rw [List.concat_eq_append] at *
      simp only [areGroups_append, areGroups_cons, areGroups_nil, and_true] at hr
      rw [List.append_nil, cons_intercalate_concat, ← List.cons_append, ← List.append_assoc] at htext
      obtain ⟨rfl, -⟩ := append_cons_inj_of_last ho.colon_notMem hr.2.colon_notMem htext
      exact ⟨_, by simp [Nat.add_assoc], l, r, hl, hr.1, rfl, rfl⟩
  · rintro ⟨m, rfl, l, r, hl, hr, rfl, rfl⟩
    refine ⟨l, r ++ [o], hl, by simp [hr, ho], by simp [Nat.add_assoc], ?_⟩
    rw [List.append_nil, cons_intercalate_concat, ← List.cons_append, ← List.append_assoc]

/-- What stands before the last field of a text that the scanner takes for an address. -/
def ToleratedStem (p : Bytes) : Prop := FullStem 7 p ∨ ∃ n ≤ 6, ShortStem n p

theorem plain_iff_stem {o p : Bytes} (ho : IsGroup o) :
    Plain (p ++ colon :: o) ↔ ToleratedStem p := by
  rw [Plain, full_succ_iff ho (by decide), ToleratedStem]
  simp only [short_iff_stem ho]
  constructor
  · rintro (h | ⟨n, hn, m, rfl, h⟩)
    · exact .inl h
    · exact .inr ⟨m, by omega, h⟩
  · rintro (h | ⟨m, hm, h⟩)
    · exact .inl h
    · exact .inr ⟨m + 1, by omega, m, rfl, h⟩

theorem tolerated_iff_stem {quad s : Bytes} :
    Tolerated quad s ↔ ∃ p, s = p ++ colon :: quad ∧ ToleratedStem p := by
  rw [Tolerated, full_concat_iff (by decide)]
  simp only [short_concat_iff, ToleratedStem]
  constructor
  · rintro (⟨p, hs, h⟩ | ⟨n, hn, p, hs, h⟩)
    · exact ⟨p, hs, .inl h⟩
    · exact ⟨p, hs, .inr ⟨n, hn, h⟩⟩
  · rintro ⟨p, hs, h | ⟨n, hn, h⟩⟩
    · exact .inl ⟨p, hs, h⟩
    · exact .inr ⟨n, hn, p, hs, h⟩

/-- The first octet of a dotted quad is read in its place. -/
theorem plain_iff_tolerated {o quad p : Bytes} (ho : IsGroup o) (hquad : IsIPv4 quad) :
    Plain (p ++ colon :: o) ↔ Tolerated quad (p ++ colon :: quad) := by
  rw [plain_iff_stem ho, tolerated_iff_stem]
  constructor
  · intro h
    exact ⟨p, rfl, h⟩
  · rintro ⟨p', hs, h⟩
    rwa [(append_cons_inj_of_last hquad.colon_notMem hquad.colon_notMem hs).1]

theorem Plain.colon_mem {s : Bytes} (h : Plain s) : colon ∈ s := by
  rcases h with ⟨ws, -, hlength, rfl⟩ | ⟨n, -, l, r, -, -, -, rfl⟩
  · match ws, hlength with
    | w :: v :: ws, _ => simp
  · simp

theorem Plain.dot_notMem {s : Bytes} (h : Plain s) : dot ∉ s := by
  have hne : dot ≠ colon := by decide
  rcases h with ⟨ws, hws, -, rfl⟩ | ⟨n, -, l, r, hl, hr, -, rfl⟩
  · rw [List.append_nil]
    exact fullStem_dot ⟨ws, hws, rfl, rfl⟩
  · simp only [List.append_nil, List.mem_append, List.mem_cons, hne, false_or, not_or]
    exact ⟨fullStem_dot ⟨l, hl, rfl, rfl⟩, fullStem_dot ⟨r, hr, rfl, rfl⟩⟩

theorem Plain.length_le {s : Bytes} (h : Plain s) : s.length ≤ 40 := by
  have hgroups : ∀ {ws}, AreGroups ws → ([colon].intercalate ws).length ≤ 5 * ws.length :=
    fun hws => length_intercalate_le fun w hw => (hws w hw).length_le
  rcases h with ⟨ws, hws, hlength, rfl⟩ | ⟨n, hn, l, r, hl, hr, rfl, rfl⟩
  · have := hgroups hws
    rw [List.append_nil]
    omega
  · have := hgroups hl
    have := hgroups hr
    rw [List.append_nil, List.length_append, List.length_cons, List.length_cons]
    omega

theorem LoneColon.length_le {core s : Bytes} (h : LoneColon core s) : s.length ≤ core.length + 2 := by
  rcases h with ⟨rfl, -⟩ | ⟨rfl, -⟩ | ⟨rfl, -⟩ <;> simp

theorem LoneColon.mem_iff {core s : Bytes} (h : LoneColon core s) {c : UInt8} (hc : c ≠ colon) :
    c ∈ s ↔ c ∈ core := by
  rcases h with ⟨rfl, -⟩ | ⟨rfl, -⟩ | ⟨rfl, -⟩ <;> simp [hc]

/-- An address neither starts nor ends with a single colon. -/
theorem Plain.not_loneColon {core s : Bytes} (h : Plain s) (hcore : Plain core) :
    ¬ LoneColon core s := by
  have hhead : ∀ {t : Bytes}, s = colon :: t → t.head? = some colon := by
    rintro t rfl
    rcases h with ⟨ws, hws, hlength, htext⟩ | ⟨n, -, l, r, hl, -, -, htext⟩
    · have hne : ws ≠ [] := by rintro rfl; simp at hlength
      rw [List.append_nil] at htext
      exact absurd (by rw [List.append_nil, ← htext]; rfl) (hws.head_ne hne [])
    · by_cases hne : l = []
      · rw [hne, List.intercalate_nil, List.nil_append, List.cons.injEq] at htext
        rw [htext.2]
        rfl
      · exact absurd (by rw [← htext]; rfl) (hl.head_ne hne _)
  have hlast : ∀ {t : Bytes}, s = t ++ [colon] → t.getLast? = some colon := by
    rintro t rfl
    rcases h with ⟨ws, hws, hlength, htext⟩ | ⟨n, -, l, r, -, hr, -, htext⟩
    · have hne : ws ≠ [] := by rintro rfl; simp at hlength
      rw [List.append_nil] at htext
      exact absurd (by rw [List.nil_append, ← htext]; simp) (hws.getLast_ne hne [])
    · by_cases hne : r = []
      · have hsplit : t ++ colon :: [] = ([colon].intercalate l ++ [colon]) ++ colon :: [] := by
          simpa [hne] using htext
        rw [(append_cons_inj_of_last (by simp) (by simp) hsplit).1]
        simp
      · have hlast := hr.getLast_ne hne ([colon].intercalate l ++ [colon, colon])
        refine absurd ?_ hlast
        have : t ++ [colon] = [colon].intercalate l ++ [colon, colon] ++ [colon].intercalate r := by
          simpa using htext
        rw [← this]
        simp
  rintro (⟨hs, hfirst⟩ | ⟨hs, hfinal⟩ | ⟨hs, hfirst, -⟩)
  · exact hfirst (hhead hs)
  · exact hfinal (hlast hs)
  · have hlead := hhead hs
    cases core with
    | nil => exact absurd hcore.colon_mem (by simp)
    | cons c core => exact hfirst (by simpa using hlead)

theorem head_of_append_cons {p o quad : Bytes} (h : (p ++ colon :: o).head? ≠ some colon) :
    (p ++ colon :: quad).head? ≠ some colon := by
  cases p with
  | nil => simp at h
  | cons c p => simpa using h

/-- A single colon before an address whose last group `o` starts the dotted quad. -/
theorem loneColon_iff {o quad p : Bytes} (ho : IsGroup o) (hquad : IsIPv4 quad) :
    (∃ core, Plain core ∧ LoneColon core (p ++ colon :: o)) ↔
      ∃ core, p ++ colon :: quad = colon :: core ∧ core.head? ≠ some colon ∧ Tolerated quad core := by
  constructor
  · rintro ⟨core, hcore, ⟨htext, hhead⟩ | ⟨htext, -⟩ | ⟨htext, -⟩⟩
    · cases p with
      | nil =>
        rw [List.nil_append, List.cons.injEq] at htext
        exact absurd (htext.2 ▸ hcore).colon_mem ho.colon_notMem
      | cons c p =>
        rw [List.cons_append, List.cons.injEq] at htext
        obtain ⟨rfl, rfl⟩ := htext
        exact ⟨p ++ colon :: quad, rfl, head_of_append_cons hhead,
          (plain_iff_tolerated ho hquad).mp hcore⟩
    · exact absurd (append_cons_inj_of_last ho.colon_notMem (by simp) htext).2 ho.nonempty
    · rw [← List.cons_append] at htext
      exact absurd (append_cons_inj_of_last ho.colon_notMem (by simp) htext).2 ho.nonempty
  · rintro ⟨core, htext, hhead, hcore⟩
    obtain ⟨p', rfl, -⟩ := tolerated_iff_stem.mp hcore
    rw [← List.cons_append] at htext
    obtain ⟨rfl, -⟩ := append_cons_inj_of_last hquad.colon_notMem hquad.colon_notMem htext
    exact ⟨p' ++ colon :: o, (plain_iff_tolerated ho hquad).mpr hcore,
      .inl ⟨rfl, head_of_append_cons hhead⟩⟩

/-- Which of the forms with a dotted quad a text has. -/
structure QuadFields (double : Prop) (n : Nat) (s : Bytes) : Prop where
  double : [] ∈ s.splitOn colon ↔ double
  count : ((s.splitOn colon).filter (· ≠ [])).length = n + 1

theorem filter_groups {ws : List Bytes} (h : AreGroups ws) : ws.filter (· ≠ []) = ws := by
  apply List.filter_eq_self.mpr
  intro w hw
  simpa using (h w hw).nonempty

theorem Full.quadFields {quad s : Bytes} {n : Nat} (hquad : IsIPv4 quad) (h : Full [quad] n s) :
    QuadFields False n s := by
  obtain ⟨ws, hws, rfl, rfl⟩ := h
  have hfields : ([colon].intercalate (ws ++ [quad])).splitOn colon = ws ++ [quad] := by
    apply List.splitOn_intercalate colon _ (by simp)
    intro w hw
    rcases List.mem_append.mp hw with hw | hw
    · exact (hws w hw).colon_notMem
    · exact List.mem_singleton.mp hw ▸ hquad.colon_notMem
  constructor
  · rw [hfields]
    simp only [List.mem_append, List.mem_singleton, iff_false, not_or]
    exact ⟨fun hmem => (hws [] hmem).nonempty rfl, hquad.ne_nil.symm⟩
  · rw [hfields, List.filter_append, filter_groups hws]
    simp [hquad.ne_nil]

theorem Short.quadFields {quad s : Bytes} {n : Nat} (hquad : IsIPv4 quad) (h : Short [quad] n s) :
    QuadFields True n s := by
  obtain ⟨l, r, hl, hr, rfl, rfl⟩ := h
  have htail := (Full.quadFields hquad ⟨r, hr, rfl, rfl⟩).count
  have hfields := List.splitOn_append_cons_self (a := colon) ([colon].intercalate l)
    (colon :: [colon].intercalate (r ++ [quad]))
  rw [splitOn_cons_self] at hfields
  have hleft : ((([colon].intercalate l).splitOn colon).filter (· ≠ [])).length = l.length := by
    by_cases hne : l = []
    · simp [hne]
    · rw [hl.splitOn_intercalate hne, filter_groups hl]
  constructor
  · simp [hfields]
  · rw [hfields, List.filter_append, List.length_append, hleft, List.filter_cons_of_neg (by simp),
      htail, Nat.add_assoc]

/-- A text that starts with a single colon has none of the forms with a dotted quad. -/
theorem not_quad_of_loneColon {quad core : Bytes} (hquad : IsIPv4 quad)
    (hhead : core.head? ≠ some colon) (n : Nat) :
    ¬ Full [quad] n (colon :: core) ∧ ¬ Short [quad] n (colon :: core) := by
  constructor
  · rintro ⟨ws, hws, -, htext⟩
    cases ws with
    | nil =>
      rw [List.nil_append, List.intercalate_singleton] at htext
      exact hquad.colon_notMem (htext ▸ List.mem_cons_self)
    | cons w ws =>
      have hne := hws.head_ne (by simp)
      rw [intercalate_append_cons (by simp) (by simp)] at htext
      exact hne _ (by rw [← htext]; rfl)
  · rintro ⟨l, r, hl, -, -, htext⟩
    by_cases hne : l = []
    · rw [hne, List.intercalate_nil, List.nil_append, List.cons.injEq] at htext
      exact hhead (by rw [htext.2]; rfl)
    · exact hl.head_ne hne _ (by rw [← htext]; rfl)

theorem length_short_quad {quad s : Bytes} {n : Nat} (hquad : IsIPv4 quad) (hn : n ≤ 5)
    (h : Short [quad] n s) : s.length ≤ 45 := by
  obtain ⟨p, rfl, l, r, hl, hr, rfl, rfl⟩ := short_concat_iff.mp h
  have hgroups : ([colon].intercalate l).length ≤ 5 * l.length :=
    length_intercalate_le fun w hw => (hl w hw).length_le
  have hflat : (r.flatMap (colon :: ·)).length ≤ 5 * r.length := by
    clear h
    induction r with
    | nil => simp
    | cons w r ih =>
      rw [areGroups_cons] at hr
      have hw := hr.1.length_le
      have ih := ih hr.2 (by simp at hn; omega)
      rw [List.flatMap_cons, List.length_append, List.length_cons, List.length_cons]
      omega
  have hlast := hquad.length_le
  simp only [List.length_append, List.length_cons]
  omega

end Quads

section Recognition

theorem afterLastColon_eq {p q : Bytes} (hq : colon ∉ q) : afterLastColon (p ++ colon :: q) = q := by
  have htake : (q.reverse ++ colon :: p.reverse).takeWhile (· ≠ colon) = q.reverse := by
    rw [List.takeWhile_append_of_pos]
    · simp
    · intro c hc
      have hne : c ≠ colon := fun heq => hq (heq ▸ List.mem_reverse.mp hc)
      simpa using hne
  rw [afterLastColon, List.rtakeWhile]
  simp only [List.reverse_append, List.reverse_cons, List.append_assoc, List.singleton_append, htake,
    List.reverse_reverse]

/-- The checks of `isValidIPv6`. -/
theorem isValidIPv6_iff (ip : Bytes) :
    isValidIPv6 ip = true ↔ ¬ (ip = [] ∨ 45 < ip.length) ∧
      ¬ (colon ∈ ip ∧ afterLastColon ip ≠ [] ∧ dot ∈ afterLastColon ip ∧
        isValidIPv4 (afterLastColon ip) = false) ∧ IPv6Scan.Reads (before 0 0 0 false) ip := by
  rw [isValidIPv6]
  by_cases hsize : ip = [] ∨ 45 < ip.length
  · simp [hsize]
  · by_cases hquad : colon ∈ ip ∧ afterLastColon ip ≠ [] ∧ dot ∈ afterLastColon ip ∧
        isValidIPv4 (afterLastColon ip) = false
    · rw [if_neg hsize, if_pos hquad]
      simp only [Bool.false_eq_true, false_iff]
      rintro ⟨-, h, -⟩
      exact h hquad
    · rw [if_neg hsize, if_neg hquad]
      simp only [hsize, hquad, not_false_eq_true, true_and, IPv6Scan.Reads, before]
      cases IPv6Scan.scan ⟨0, 0, 0, 0, false⟩ ip with
      | none => simp
      | some st => simp

/-- What `isValidIPAddress` checks of a text whose last colon stands before `q`. -/
theorem isValidIPAddress_split {p q : Bytes} (hq : colon ∉ q) :
    isValidIPAddress (p ++ colon :: q) = true ↔ (p ++ colon :: q).length ≤ 45 ∧
      (dot ∈ q → IsIPv4 q) ∧ IPv6Scan.Reads (before 0 0 0 false) (p ++ colon :: q) := by
  have hmem : colon ∈ p ++ colon :: q := by simp
  have hsize : ¬ (p ++ colon :: q = [] ∨ 45 < (p ++ colon :: q).length) ↔
      (p ++ colon :: q).length ≤ 45 := by simp
  have hquad : isValidIPv4 q = false ↔ ¬ IsIPv4 q := by
    rw [isIPv4_iff_splitOn, ← isValidIPv4_iff_splitOn, Bool.not_eq_true]
  have hsuffix : ¬ (colon ∈ p ++ colon :: q ∧ q ≠ [] ∧ dot ∈ q ∧ isValidIPv4 q = false) ↔
      (dot ∈ q → IsIPv4 q) := by
    rw [hquad]
    constructor
    · intro h hdot
      by_contra hno
      exact h ⟨hmem, List.ne_nil_of_mem hdot, hdot, hno⟩
    · rintro h ⟨-, -, hdot, hno⟩
      exact hno (h hdot)
  have hIPv6 := isValidIPv6_iff (p ++ colon :: q)
  rw [afterLastColon_eq hq, hsuffix, hsize] at hIPv6
  rw [isValidIPAddress]
  by_cases hlength : (p ++ colon :: q).length ≤ 45
  · rw [if_neg (hsize.mpr hlength), if_neg (not_not_intro hmem), hIPv6]
  · rw [if_pos (not_not.mp fun h => hlength (hsize.mp h))]
    simp only [hlength, false_and, Bool.false_eq_true]

/-- A dot before the last colon. -/
theorem isValidIPAddress_earlyDot {h p q : Bytes} (hdot : dot ∉ h) (hq : colon ∉ q) :
    isValidIPAddress (h ++ dot :: p ++ colon :: q) = true ↔
      (h ++ dot :: p ++ colon :: q).length ≤ 45 ∧ (dot ∈ q → IsIPv4 q) ∧
        (Plain h ∨ ∃ core, Plain core ∧ LoneColon core h) := by
  rw [isValidIPAddress_split hq, ← reads_iff_plain hdot]
  have hscan : IPv6Scan.Reads (before 0 0 0 false) (h ++ dot :: p ++ colon :: q) ↔
      IPv6Scan.Reads (before 0 0 0 false) h := by
    rw [List.append_assoc, List.cons_append, IPv6Scan.Reads, IPv6Scan.Reads,
      IPv6Scan.scan_append_dot _ _ hdot]
  rw [hscan]

/-- A dotted quad after the last colon. -/
theorem isValidIPAddress_quad {p quad : Bytes} (hdot : dot ∉ p) (hquad : IsIPv4 quad) :
    isValidIPAddress (p ++ colon :: quad) = true ↔ (p ++ colon :: quad).length ≤ 45 ∧
      (Tolerated quad (p ++ colon :: quad) ∨ ∃ core, p ++ colon :: quad = colon :: core ∧
        core.head? ≠ some colon ∧ Tolerated quad core) := by
  obtain ⟨o, t, heq, ho⟩ := hquad.exists_octet
  have hgroup := ho.isGroup
  have hhead : dot ∉ p ++ colon :: o := by
    have hne : dot ≠ colon := by decide
    simp only [List.mem_append, List.mem_cons, hne, false_or, not_or]
    exact ⟨hdot, hgroup.dot_notMem⟩
  have hscan : IPv6Scan.Reads (before 0 0 0 false) (p ++ colon :: quad) ↔
      IPv6Scan.Reads (before 0 0 0 false) (p ++ colon :: o) := by
    rw [heq, IPv6Scan.Reads, IPv6Scan.Reads, ← IPv6Scan.scan_append_dot _ t hhead, List.append_assoc,
      List.cons_append]
  rw [isValidIPAddress_split hquad.colon_notMem, hscan, reads_iff_plain hhead,
    plain_iff_tolerated hgroup hquad, loneColon_iff hgroup hquad]
  simp [hquad]

/-- The misread texts that end in the dotted quad `quad`. -/
def MisreadQuad (quad s : Bytes) : Prop :=
  Full [quad] 6 s ∨ (s.length ≤ 45 ∧ (Full [quad] 7 s ∨ Short [quad] 6 s ∨
    ∃ core, s = colon :: core ∧ core.head? ≠ some colon ∧ Tolerated quad core))

theorem misread_of_quad {quad s : Bytes} (hquad : IsIPv4 quad) (h : MisreadQuad quad s) :
    Misread s := by
  rcases h with h | ⟨hlength, h | h | ⟨core, rfl, hhead, h⟩⟩
  · exact .sixGroups hquad h
  · exact .manyGroups hquad (.inl h) hlength
  · exact .manyGroups hquad (.inr h) hlength
  · exact .loneColonQuad hquad h hhead hlength

/-- A misread text has no dot, a dot before its last colon, or a dotted quad after it. -/
theorem Misread.kinds {s : Bytes} (h : Misread s) :
    (∃ core, Plain core ∧ LoneColon core s) ∨
    (∃ h p q, s = h ++ dot :: p ++ colon :: q ∧ colon ∉ q ∧ isValidIPAddress s = true) ∨
    ∃ quad, IsIPv4 quad ∧ MisreadQuad quad s := by
  cases h with
  | loneColon hcore hlone => exact .inl ⟨_, hcore, hlone⟩
  | @earlyDot h p q hhead hq hsuffix hlength =>
    have hdot : dot ∉ h := by
      rcases hhead with hhead | ⟨core, hcore, hlone⟩
      · exact hhead.dot_notMem
      · rw [hlone.mem_iff (by decide)]
        exact hcore.dot_notMem
    exact .inr (.inl ⟨h, p, q, rfl, hq,
      (isValidIPAddress_earlyDot hdot hq).mpr ⟨hlength, hsuffix, hhead⟩⟩)
  | manyGroups hquad hforms hlength =>
    exact .inr (.inr ⟨_, hquad, .inr ⟨hlength, hforms.imp_right .inl⟩⟩)
  | sixGroups hquad hform => exact .inr (.inr ⟨_, hquad, .inl hform⟩)
  | loneColonQuad hquad hcore hhead hlength =>
    exact .inr (.inr ⟨_, hquad, .inr ⟨hlength, .inr (.inr ⟨_, rfl, hhead, hcore⟩)⟩⟩)

/-- A text with a dotted quad has no dot before its last colon. -/
theorem exists_stem {quad s : Bytes} {n : Nat} (h : Full [quad] (n + 1) s ∨ Short [quad] n s) :
    ∃ p, s = p ++ colon :: quad ∧ dot ∉ p := by
  rcases h with h | h
  · obtain ⟨p, hs, hp⟩ := (full_concat_iff (Nat.succ_pos n)).mp h
    exact ⟨p, hs, fullStem_dot hp⟩
  · obtain ⟨p, hs, hp⟩ := short_concat_iff.mp h
    exact ⟨p, hs, shortStem_dot hp⟩

theorem Tolerated.exists_stem {quad s : Bytes} (h : Tolerated quad s) :
    ∃ p, s = p ++ colon :: quad ∧ dot ∉ p := by
  obtain ⟨p, hs, hp | ⟨n, -, hp⟩⟩ := tolerated_iff_stem.mp h
  · exact ⟨p, hs, fullStem_dot hp⟩
  · exact ⟨p, hs, shortStem_dot hp⟩

theorem MisreadQuad.exists_stem {quad s : Bytes} (h : MisreadQuad quad s) :
    ∃ p, s = p ++ colon :: quad ∧ dot ∉ p := by
  rcases h with h | ⟨-, h | h | ⟨core, rfl, -, h⟩⟩
  · exact Strfry.exists_stem (.inl h)
  · exact Strfry.exists_stem (.inl h)
  · exact Strfry.exists_stem (.inr h)
  · obtain ⟨p, rfl, hdot⟩ := h.exists_stem
    have hne : dot ≠ colon := by decide
    exact ⟨colon :: p, rfl, by simpa [hne] using hdot⟩

/-- An address has no dot, or a dotted quad after its last colon. -/
theorem IsIPv6.kinds {s : Bytes} (h : IsIPv6 s) :
    Plain s ∨ ∃ quad, IsIPv4 quad ∧ ∃ p, s = p ++ colon :: quad ∧ dot ∉ p := by
  rcases h with h | ⟨quad, hquad, h | ⟨n, -, h⟩⟩
  · exact .inl h
  · exact .inr ⟨quad, hquad, exists_stem (.inl h)⟩
  · exact .inr ⟨quad, hquad, exists_stem (.inr h)⟩

/-- Texts without a dot. -/
theorem recognised_iff_of_no_dot {s : Bytes} (hcolon : colon ∈ s) (hdot : dot ∉ s) :
    (isValidIPAddress s = true ↔ IsIPv6 s) ↔ ¬ Misread s := by
  have hvalid : isValidIPAddress s = true ↔ Plain s ∨ ∃ core, Plain core ∧ LoneColon core s := by
    obtain ⟨p, q, rfl, hq⟩ := exists_last_split hcolon
    rw [isValidIPAddress_split hq, reads_iff_plain hdot]
    constructor
    · exact fun h => h.2.2
    · intro h
      refine ⟨?_, fun hdotq => absurd (by simp [hdotq]) hdot, h⟩
      rcases h with h | ⟨core, hcore, hlone⟩
      · have := h.length_le
        omega
      · have := hcore.length_le
        have := hlone.length_le
        omega
  have hspec : IsIPv6 s ↔ Plain s := by
    refine ⟨fun h => ?_, .inl⟩
    rcases h.kinds with h | ⟨quad, hquad, p, rfl, -⟩
    · exact h
    · exact absurd (by simp [hquad.dot_mem]) hdot
  have hmisread : Misread s ↔ ∃ core, Plain core ∧ LoneColon core s := by
    refine ⟨fun h => ?_, fun ⟨core, hcore, hlone⟩ => .loneColon hcore hlone⟩
    rcases h.kinds with h | ⟨h, p, q, rfl, -⟩ | ⟨quad, hquad, h⟩
    · exact h
    · exact absurd (by simp) hdot
    · obtain ⟨p, rfl, -⟩ := h.exists_stem
      exact absurd (by simp [hquad.dot_mem]) hdot
  rw [hvalid, hspec, hmisread]
  constructor
  · rintro h ⟨core, hcore, hlone⟩
    exact (h.mp (.inr ⟨core, hcore, hlone⟩)).not_loneColon hcore hlone
  · intro h
    exact ⟨fun hp => hp.resolve_right h, .inl⟩

/-- Texts with a dot before the last colon. They are not addresses. -/
theorem recognised_iff_of_earlyDot {p q : Bytes} (hdot : dot ∈ p) (hq : colon ∉ q) :
    (isValidIPAddress (p ++ colon :: q) = true ↔ IsIPv6 (p ++ colon :: q)) ↔
      ¬ Misread (p ++ colon :: q) := by
  have hstem : ∀ {quad p' : Bytes}, IsIPv4 quad → p ++ colon :: q = p' ++ colon :: quad → dot ∉ p' →
      False := by
    intro quad p' hquad heq hp'
    obtain ⟨rfl, -⟩ := append_cons_inj_of_last hq hquad.colon_notMem heq
    exact hp' hdot
  have hspec : ¬ IsIPv6 (p ++ colon :: q) := by
    intro h
    rcases h.kinds with h | ⟨quad, hquad, p', heq, hp'⟩
    · exact h.dot_notMem (by simp [hdot])
    · exact hstem hquad heq hp'
  have hmisread : Misread (p ++ colon :: q) ↔ isValidIPAddress (p ++ colon :: q) = true := by
    constructor
    · intro h
      rcases h.kinds with ⟨core, hcore, hlone⟩ | ⟨-, -, -, -, -, h⟩ | ⟨quad, hquad, h⟩
      · exact absurd ((hlone.mem_iff (by decide)).mp (by simp [hdot])) hcore.dot_notMem
      · exact h
      · obtain ⟨p', heq, hp'⟩ := h.exists_stem
        exact (hstem hquad heq hp').elim
    · intro h
      obtain ⟨head, rest, rfl, hhead⟩ := List.eq_append_cons_of_mem hdot
      obtain ⟨hlength, hsuffix, hforms⟩ := (isValidIPAddress_earlyDot hhead hq).mp h
      exact .earlyDot hforms hq hsuffix hlength
  rw [hmisread]
  simp [hspec]

/-- Texts with a dot after the last colon, and no dotted quad there. -/
theorem recognised_iff_of_badQuad {p q : Bytes} (hdot : dot ∈ q) (hq : colon ∉ q)
    (hquad : ¬ IsIPv4 q) : (isValidIPAddress (p ++ colon :: q) = true ↔ IsIPv6 (p ++ colon :: q)) ↔
      ¬ Misread (p ++ colon :: q) := by
  have hstem : ∀ {quad p' : Bytes}, IsIPv4 quad → p ++ colon :: q ≠ p' ++ colon :: quad := by
    intro quad p' hquad' heq
    obtain ⟨-, rfl⟩ := append_cons_inj_of_last hq hquad'.colon_notMem heq
    exact hquad hquad'
  have hvalid : ¬ isValidIPAddress (p ++ colon :: q) = true := by
    rw [isValidIPAddress_split hq]
    exact fun h => hquad (h.2.1 hdot)
  have hspec : ¬ IsIPv6 (p ++ colon :: q) := by
    intro h
    rcases h.kinds with h | ⟨quad, hquad', p', heq, -⟩
    · exact h.dot_notMem (by simp [hdot])
    · exact hstem hquad' heq
  have hmisread : ¬ Misread (p ++ colon :: q) := by
    intro h
    rcases h.kinds with ⟨core, hcore, hlone⟩ | ⟨-, -, -, -, -, h⟩ | ⟨quad, hquad', h⟩
    · exact hcore.dot_notMem ((hlone.mem_iff (by decide)).mp (by simp [hdot]))
    · exact hvalid h
    · obtain ⟨p', heq, -⟩ := h.exists_stem
      exact hstem hquad' heq
  simp [hvalid, hspec, hmisread]

/-- The forms with one dotted quad exclude each other. -/
theorem quadFields_unique {d d' : Prop} {m n : Nat} {s : Bytes} (h : QuadFields d m s)
    (h' : QuadFields d' n s) : (d ↔ d') ∧ m = n :=
  ⟨h.double.symm.trans h'.double, by have := h.count.symm.trans h'.count; omega⟩

/-- Texts that end in a dotted quad. -/
theorem recognised_iff_of_quad {p quad : Bytes} (hp : dot ∉ p) (hquad : IsIPv4 quad) :
    (isValidIPAddress (p ++ colon :: quad) = true ↔ IsIPv6 (p ++ colon :: quad)) ↔
      ¬ Misread (p ++ colon :: quad) := by
  have hvalid := isValidIPAddress_quad hp hquad
  have hlast : ∀ {quad' p' : Bytes}, IsIPv4 quad' → p ++ colon :: quad = p' ++ colon :: quad' →
      quad' = quad := fun hquad' heq =>
    (append_cons_inj_of_last hquad.colon_notMem hquad'.colon_notMem heq).2.symm
  have hdot : dot ∈ p ++ colon :: quad := by simp [hquad.dot_mem]
  have hspec : IsIPv6 (p ++ colon :: quad) ↔ Full [quad] 6 (p ++ colon :: quad) ∨
      ∃ n ≤ 5, Short [quad] n (p ++ colon :: quad) := by
    constructor
    · rintro (h | ⟨quad', hquad', h⟩)
      · exact absurd hdot h.dot_notMem
      · have hstem : ∃ p', p ++ colon :: quad = p' ++ colon :: quad' ∧ dot ∉ p' := by
          rcases h with h | ⟨n, -, h⟩
          · exact exists_stem (.inl h)
          · exact exists_stem (.inr h)
        obtain ⟨p', heq, -⟩ := hstem
        rwa [hlast hquad' heq] at h
    · exact fun h => .inr ⟨quad, hquad, h⟩
  have hmisread : Misread (p ++ colon :: quad) ↔ MisreadQuad quad (p ++ colon :: quad) := by
    refine ⟨fun h => ?_, misread_of_quad hquad⟩
    rcases h.kinds with ⟨core, hcore, hlone⟩ | ⟨h, r, q, heq, hq, -⟩ | ⟨quad', hquad', h⟩
    · exact absurd ((hlone.mem_iff (by decide)).mp hdot) hcore.dot_notMem
    · obtain ⟨rfl, -⟩ := append_cons_inj_of_last hquad.colon_notMem hq heq
      exact absurd (by simp) hp
    · obtain ⟨p', heq, -⟩ := h.exists_stem
      rwa [hlast hquad' heq] at h
  rw [hvalid, hspec, hmisread]
  generalize p ++ colon :: quad = s
  -- the forms that the scanner takes, the address has, or both
  have hfull : ∀ {m n}, Full [quad] m s → Full [quad] n s → m = n := fun h h' =>
    (quadFields_unique (h.quadFields hquad) (h'.quadFields hquad)).2
  have hshort : ∀ {m n}, Short [quad] m s → Short [quad] n s → m = n := fun h h' =>
    (quadFields_unique (h.quadFields hquad) (h'.quadFields hquad)).2
  have hmixed : ∀ {m n}, Full [quad] m s → ¬ Short [quad] n s := fun h h' =>
    (quadFields_unique (h.quadFields hquad) (h'.quadFields hquad)).1.mpr trivial
  have hlone : ∀ {core}, s = colon :: core → core.head? ≠ some colon → ∀ n,
      ¬ Full [quad] n s ∧ ¬ Short [quad] n s := by
    rintro core rfl hhead
    exact not_quad_of_loneColon hquad hhead
  constructor
  · rintro h (hsix | ⟨hlength, hseven | hsix | ⟨core, hs, hhead, hcore⟩⟩)
    · obtain ⟨-, hforms⟩ := h.mpr (.inl hsix)
      rcases hforms with (hseven | ⟨n, -, hsh⟩) | ⟨core, hs, hhead, -⟩
      · exact absurd (hfull hsix hseven) (by decide)
      · exact hmixed hsix hsh
      · exact (hlone hs hhead 6).1 hsix
    · rcases h.mp ⟨hlength, .inl (.inl hseven)⟩ with hsix | ⟨n, -, hsh⟩
      · exact absurd (hfull hsix hseven) (by decide)
      · exact hmixed hseven hsh
    · rcases h.mp ⟨hlength, .inl (.inr ⟨6, le_rfl, hsix⟩)⟩ with hf | ⟨n, hn, hsh⟩
      · exact hmixed hf hsix
      · have := hshort hsix hsh
        omega
    · rcases h.mp ⟨hlength, .inr ⟨core, hs, hhead, hcore⟩⟩ with hf | ⟨n, -, hsh⟩
      · exact (hlone hs hhead 6).1 hf
      · exact (hlone hs hhead n).2 hsh
  · intro h
    simp only [MisreadQuad, not_or, not_and, not_exists] at h
    obtain ⟨hnotSix, hnot⟩ := h
    constructor
    · rintro ⟨hlength, (hseven | ⟨n, hn, hsh⟩) | ⟨core, hs, hhead, hcore⟩⟩
      · exact absurd hseven (hnot hlength).1
      · have hne : n ≠ 6 := by
          rintro rfl
          exact (hnot hlength).2.1 hsh
        exact .inr ⟨n, by omega, hsh⟩
      · exact absurd hcore ((hnot hlength).2.2 core hs hhead)
    · rintro (hsix | ⟨n, hn, hsh⟩)
      · exact absurd hsix hnotSix
      · exact ⟨length_short_quad hquad hn hsh, .inl (.inr ⟨n, by omega, hsh⟩)⟩

/-- `isValidIPAddress` recognises the text forms of IPv6 addresses on the texts that are not misread. -/
theorem recognised_iff {s : Bytes} (hcolon : colon ∈ s) :
    (isValidIPAddress s = true ↔ IsIPv6 s) ↔ ¬ Misread s := by
  by_cases hdot : dot ∈ s
  · obtain ⟨p, q, rfl, hq⟩ := exists_last_split hcolon
    by_cases hp : dot ∈ p
    · exact recognised_iff_of_earlyDot hp hq
    · have hdotq : dot ∈ q := by
        have hne : dot ≠ colon := by decide
        simpa [hp, hne] using hdot
      by_cases hquad : IsIPv4 q
      · exact recognised_iff_of_quad hp hquad
      · exact recognised_iff_of_badQuad hdotq hq hquad
  · exact recognised_iff_of_no_dot hcolon hdot

theorem Misread.colon_mem {s : Bytes} (h : Misread s) : colon ∈ s := by
  rcases h.kinds with ⟨core, -, ⟨rfl, -⟩ | ⟨rfl, -⟩ | ⟨rfl, -⟩⟩ | ⟨h, p, q, rfl, -⟩ | ⟨quad, -, h⟩
  · simp
  · simp
  · simp
  · simp
  · obtain ⟨p, rfl, -⟩ := h.exists_stem
    simp

end Recognition

section Headers

/-- The byte `,`. -/
abbrev comma : UInt8 := 44

/-- The white space that `getClientIP` trims. -/
def isBlank (c : UInt8) : Bool := c == 32 || c == 9

/-- The trimming of a header value. A value of nothing but white space stays as it is. -/
def trimBlanks (s : Bytes) : Bytes :=
  if s.all isBlank then s else (s.dropWhile isBlank).rdropWhile isBlank

/-- What `getClientIP` looks at of a request. -/
structure ProxyRequest where
  xForwardedFor : Option Bytes
  xRealIP : Option Bytes
  remoteAddr : Bytes

/-- The first address of `X-Forwarded-For`. -/
def firstForwarded (xff : Bytes) : Bytes :=
  if comma ∈ xff then trimBlanks (xff.takeWhile (· ≠ comma)) else trimBlanks xff

/-- The header string that `getClientIP` returns, if it returns one. -/
def headerAddress (req : ProxyRequest) : Option Bytes :=
  match (req.xForwardedFor.map firstForwarded).filter isValidIPAddress with
  | some ip => some ip
  | none => (req.xRealIP.map trimBlanks).filter isValidIPAddress

/-- `getClientIP`. -/
def getClientIP (trustProxy : Bool) (req : ProxyRequest) : Bytes :=
  if trustProxy then (headerAddress req).getD req.remoteAddr else req.remoteAddr

theorem isValid_of_headerAddress {req : ProxyRequest} {ip : Bytes}
    (h : headerAddress req = some ip) : isValidIPAddress ip = true := by
  rw [headerAddress] at h
  split at h
  · next ip' hforwarded =>
    obtain ⟨-, hvalid⟩ := Option.filter_eq_some_iff.mp hforwarded
    rwa [← Option.some.inj h]
  · exact (Option.filter_eq_some_iff.mp h).2

/-- A header string that is taken is an address exactly when it is not misread. -/
theorem isAddress_of_isValid {ip : Bytes} (hvalid : isValidIPAddress ip = true) :
    (IsIPv4 ip ∨ IsIPv6 ip) ↔ ¬ Misread ip := by
  by_cases hcolon : colon ∈ ip
  · rw [← recognised_iff hcolon]
    have hv4 : ¬ IsIPv4 ip := fun h => h.colon_notMem hcolon
    simp [hvalid, hv4]
  · have hv4 : IsIPv4 ip := by
      rw [isValidIPAddress] at hvalid
      by_cases hsize : ip = [] ∨ 45 < ip.length
      · rw [if_pos hsize] at hvalid
        contradiction
      · rwa [if_neg hsize, if_pos hcolon, isValidIPv4_iff_splitOn, ← isIPv4_iff_splitOn] at hvalid
    simp only [hv4, true_or, true_iff]
    exact fun h => hcolon h.colon_mem

/-- Of the texts with a colon, `isValidIPAddress` gets those wrong that are misread, and a header string
that `getClientIP` returns is no address exactly when it is misread. -/
theorem isValidIPAddress_iff (s : Bytes) (hcolon : colon ∈ s) :
    ((isValidIPAddress s = true ↔ IsIPv6 s) ↔ ¬ Misread s) ∧
      ∀ req ip, headerAddress req = some ip → ((IsIPv4 ip ∨ IsIPv6 ip) ↔ ¬ Misread ip) :=
  ⟨recognised_iff hcolon, fun _ _ h => isAddress_of_isValid (isValid_of_headerAddress h)⟩

/-- An IPv4 address that is mapped to IPv6. -/
def mappedAddress : Bytes := ascii "::ffff:192.0.2.1"

/-- Six groups and a dotted quad. -/
def sixAndQuad : Bytes := ascii "1:2:3:4:5:6:192.0.2.1"

theorem isIPv6_mappedAddress : IsIPv6 mappedAddress := by
  have hquad : IsIPv4 (ascii "192.0.2.1") := (isValidIPv4_iff _).mp (by decide)
  refine .inr ⟨_, hquad, .inr ⟨1, by decide, [], [ascii "ffff"], ?_, ?_, rfl, by decide⟩⟩
  · intro w hw
    cases hw
  · intro w hw
    rw [List.mem_singleton.mp hw]
    exact ⟨by decide, by decide, by decide⟩

theorem isIPv6_sixAndQuad : IsIPv6 sixAndQuad := by
  have hquad : IsIPv4 (ascii "192.0.2.1") := (isValidIPv4_iff _).mp (by decide)
  refine .inr ⟨_, hquad, .inl ⟨[ascii "1", ascii "2", ascii "3", ascii "4", ascii "5", ascii "6"], ?_, rfl,
    by decide⟩⟩
  intro w hw
  fin_cases hw
  all_goals exact ⟨by decide, by decide, by decide⟩

/-- Two addresses with a dotted quad, alone and in a header. The second one is not recognised. -/
theorem isValidIPAddress_iff_quads :
    (isValidIPAddress mappedAddress = true ∧ IsIPv6 mappedAddress ∧
      ((isValidIPAddress mappedAddress = true ↔ IsIPv6 mappedAddress) ↔ ¬ Misread mappedAddress) ∧
      ((IsIPv4 mappedAddress ∨ IsIPv6 mappedAddress) ↔ ¬ Misread mappedAddress)) ∧
    isValidIPAddress sixAndQuad = false ∧ IsIPv6 sixAndQuad ∧
      ((isValidIPAddress sixAndQuad = true ↔ IsIPv6 sixAndQuad) ↔ ¬ Misread sixAndQuad) := by
  have h := isValidIPAddress_iff mappedAddress (by decide)
  exact ⟨⟨by decide, isIPv6_mappedAddress, h.1,
      h.2 ⟨some (ascii " ::ffff:192.0.2.1, 10.0.0.1"), none, []⟩ mappedAddress (by decide)⟩,
    by decide, isIPv6_sixAndQuad, (isValidIPAddress_iff sixAndQuad (by decide)).1⟩

/-- A text that is no address passes, and the proxy header is taken for the client's address. -/
theorem getClientIP_takes_junk :
    isValidIPAddress (ascii "::.evil:") = true ∧ ¬ IsIPv6 (ascii "::.evil:") ∧
      getClientIP true ⟨some (ascii "::.evil:"), none, ascii "10.0.0.1"⟩ = ascii "::.evil:" := by
  refine ⟨by decide, fun h => ?_, by decide⟩
  rcases h.kinds with h | ⟨quad, hquad, p, heq, -⟩
  · exact h.dot_notMem (by decide)
  · have hsplit : ascii "::.evil" ++ colon :: [] = p ++ colon :: quad := heq
    exact hquad.ne_nil (append_cons_inj_of_last (by simp) hquad.colon_notMem hsplit).2.symm

end Headers

end Strfry
