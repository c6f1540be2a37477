import Strfry.Events
import Strfry.Lib.Fields

/-!
# Dotted quads in proxy headers

The scanner of dotted quads. It reads a header value once and keeps the number of octets before the last
dot, the value and the length of the current octet, and whether it has just read a dot. `IsIPv4` is the
canonical text of an IPv4 address: four octets without leading zeros, joined by single dots.
`isValidIPv4_iff` says that the scanner accepts exactly these texts.
-/

set_option autoImplicit false

namespace Strfry

open Lib

/-- The byte `.`. -/
abbrev dot : UInt8 := 46

section Quads

/-- The variables of the loop in `isValidIPv4`. -/
structure IPv4Scan where
  octets : Nat
  currentValue : Nat
  digitCount : Nat
  lastWasDot : Bool

namespace IPv4Scan

/-- One iteration of the loop; `none` is `return false`. -/
def step (st : IPv4Scan) (c : UInt8) : Option IPv4Scan :=
  if c = dot then
    if st.lastWasDot || st.digitCount = 0 then none
    else if 255 < st.currentValue then none
    else some ⟨st.octets + 1, 0, 0, true⟩
  else if isDigit c then
    if st.digitCount = 1 ∧ st.currentValue = 0 then none
    else
      let currentValue := st.currentValue * 10 + (c.toNat - 48)
      if 255 < currentValue then none
      else if 3 < st.digitCount + 1 then none
      else some ⟨st.octets, currentValue, st.digitCount + 1, false⟩
  else none

/-- The checks after the loop. -/
def accepts (st : IPv4Scan) : Bool :=
  if st.lastWasDot || st.digitCount = 0 then false
  else if 255 < st.currentValue then false
  else st.octets + 1 = 4

end IPv4Scan

/-- `isValidIPv4`. -/
def isValidIPv4 (ip : Bytes) : Bool :=
  if ip = [] ∨ 15 < ip.length then false
  else
    match ip.foldlM IPv4Scan.step ⟨0, 0, 0, true⟩ with
    | none => false
    | some st => st.accepts

/-- A decimal number between 0 and 255 without a leading zero. -/
structure IsOctet (w : Bytes) : Prop where
  nonempty : w ≠ []
  digits : w.all isDigit = true
  canonical : w.head? = some 48 → w = [48]
  bound : decimalValue w ≤ 255

/-- Four octets joined by single dots. -/
def IsIPv4 (s : Bytes) : Prop :=
  ∃ ws : List Bytes, ws.length = 4 ∧ (∀ w ∈ ws, IsOctet w) ∧ s = [dot].intercalate ws

theorem decimalValue_concat (w : Bytes) (c : UInt8) :
    decimalValue (w ++ [c]) = 10 * decimalValue w + (c.toNat - 48) := by
  simp [decimalValue]

theorem isDigit_iff {c : UInt8} : isDigit c = true ↔ 48 ≤ c.toNat ∧ c.toNat ≤ 57 := by
  simp [isDigit, UInt8.le_iff_toNat_le]

/-- Without a leading zero, the value grows with every digit. -/
theorem pow_le_decimalValue {w : Bytes} (hdigits : w.all isDigit = true) (hne : w ≠ [])
    (hzero : w.head? ≠ some 48) : 10 ^ (w.length - 1) ≤ decimalValue w := by
  induction w using List.reverseRecOn with
  | nil => exact absurd rfl hne
  | append_singleton w c ih =>
    rw [List.all_append, Bool.and_eq_true] at hdigits
    rw [decimalValue_concat]
    cases w with
    | nil =>
      have hc := isDigit_iff.mp (by simpa using hdigits.2)
      have hc0 : c.toNat ≠ 48 := by
        intro h
        apply hzero
        simpa [← UInt8.toNat_inj] using h
      simp
      omega
    | cons b w =>
      have ih := ih hdigits.1 (by simp) (by simpa using hzero)
      simp only [List.length_append, List.length_cons, List.length_nil, Nat.add_sub_cancel] at ih ⊢
      rw [pow_succ]
      omega

namespace IsOctet

variable {w : Bytes}

theorem length_le (h : IsOctet w) : w.length ≤ 3 := by
  by_cases hzero : w.head? = some 48
  · rw [h.canonical hzero]
    decide
  · have hpow := pow_le_decimalValue h.digits h.nonempty hzero
    have hbound := h.bound
    by_contra hlong
    have : 10 ^ 3 ≤ 10 ^ (w.length - 1) := Nat.pow_le_pow_right (by decide) (by omega)
    omega

theorem dot_notMem (h : IsOctet w) : dot ∉ w := by
  intro hdot
  exact absurd (List.all_eq_true.mp h.digits dot hdot) (by decide)

end IsOctet

/-- What the scanner has accepted of an octet. -/
structure OctetStart (w : Bytes) : Prop where
  digits : w.all isDigit = true
  canonical : w.head? = some 48 → w.length ≤ 1
  bound : decimalValue w ≤ 255

theorem octetStart_nil : OctetStart [] := ⟨rfl, by simp, by decide⟩

theorem isOctet_iff {w : Bytes} : IsOctet w ↔ w ≠ [] ∧ OctetStart w := by
  constructor
  · intro h
    exact ⟨h.nonempty, h.digits, fun hzero => by rw [h.canonical hzero]; decide, h.bound⟩
  · rintro ⟨hne, h⟩
    refine ⟨hne, h.digits, fun hzero => ?_, h.bound⟩
    obtain ⟨c, rest, rfl⟩ := List.exists_cons_of_ne_nil hne
    have hrest := h.canonical hzero
    simp only [List.head?_cons, Option.some.injEq, List.length_cons] at hzero hrest
    rw [hzero, List.length_eq_zero_iff.mp (by omega : rest.length = 0)]

/-- What a further digit does to the start of an octet. -/
theorem octetStart_concat {w : Bytes} {c : UInt8} (hdigit : isDigit c = true) :
    OctetStart (w ++ [c]) ↔ OctetStart w ∧ ¬ (w.length = 1 ∧ decimalValue w = 0) ∧
      decimalValue w * 10 + (c.toNat - 48) ≤ 255 := by
  constructor
  · rintro ⟨hdigits, hcanonical, hbound⟩
    rw [List.all_append, Bool.and_eq_true] at hdigits
    rw [decimalValue_concat] at hbound
    refine ⟨⟨hdigits.1, ?_, by omega⟩, ?_, by omega⟩
    · intro hzero
      have := hcanonical (by simp [hzero])
      simp at this
      simp [this]
    · rintro ⟨hlength, hvalue⟩
      obtain ⟨b, rfl⟩ := List.length_eq_one_iff.mp hlength
      have hb := isDigit_iff.mp (by simpa using hdigits.1)
      have hzero : b = 48 := by
        have : b.toNat - 48 = 0 := by simpa [decimalValue] using hvalue
        rw [← UInt8.toNat_inj]
        change b.toNat = 48
        omega
      have := hcanonical (by simp [hzero])
      simp at this
  · rintro ⟨⟨hdigits, hcanonical, -⟩, hsingle, hbound⟩
    refine ⟨by simp [hdigits, hdigit], ?_, by rw [decimalValue_concat]; omega⟩
    intro hzero
    cases w with
    | nil => simp
    | cons b rest =>
      simp only [List.cons_append, List.head?_cons, Option.some.injEq] at hzero
      have hlength := hcanonical (by simp [hzero])
      simp only [List.length_cons] at hlength
      have hrest : rest = [] := List.length_eq_zero_iff.mp (by omega)
      subst hrest hzero
      exact absurd ⟨rfl, rfl⟩ hsingle

theorem OctetStart.length_le {w : Bytes} (h : OctetStart w) : w.length ≤ 3 := by
  cases w with
  | nil => simp
  | cons c w => exact (isOctet_iff.mpr ⟨by simp, h⟩).length_le

namespace IPv4Scan

/-- The variables after `octets` octets with their dots and the bytes `w` of the next one. -/
def after (octets : Nat) (w : Bytes) : IPv4Scan := ⟨octets, decimalValue w, w.length, w.isEmpty⟩

@[simp] theorem after_octets (o : Nat) (w : Bytes) : (after o w).octets = o := rfl

@[simp] theorem after_currentValue (o : Nat) (w : Bytes) :
    (after o w).currentValue = decimalValue w := rfl

@[simp] theorem after_digitCount (o : Nat) (w : Bytes) : (after o w).digitCount = w.length := rfl

@[simp] theorem after_lastWasDot (o : Nat) (w : Bytes) : (after o w).lastWasDot = w.isEmpty := rfl

/-- Reading a further byte of an octet. -/
theorem step_byte (o : Nat) {w : Bytes} {c : UInt8} (hw : OctetStart w) (hc : c ≠ dot) :
    (OctetStart (w ++ [c]) → (after o w).step c = some (after o (w ++ [c]))) ∧
      (¬ OctetStart (w ++ [c]) → (after o w).step c = none) := by
  by_cases hdigit : isDigit c = true
  · constructor
    · intro hwc
      have hlength : w.length + 1 ≤ 3 := by simpa using hwc.length_le
      obtain ⟨-, hsingle, hbound⟩ := (octetStart_concat hdigit).mp hwc
      have hvalue : after o (w ++ [c]) =
          ⟨o, decimalValue w * 10 + (c.toNat - 48), w.length + 1, false⟩ := by
        simp [after, decimalValue_concat, Nat.mul_comm]
      simp [step, hc, hdigit, hsingle, Nat.not_lt.mpr hbound, Nat.not_lt.mpr hlength, hvalue]
    · intro hwc
      rw [octetStart_concat hdigit] at hwc
      by_cases hsingle : w.length = 1 ∧ decimalValue w = 0
      · simp [step, hc, hdigit, hsingle]
      · have hbound : 255 < decimalValue w * 10 + (c.toNat - 48) :=
          Nat.lt_of_not_le fun hle => hwc ⟨hw, hsingle, hle⟩
        simp [step, hc, hdigit, hsingle, hbound]
  · have hrefuse : (after o w).step c = none := by simp [step, hc, hdigit]
    exact ⟨fun hwc => absurd (List.all_eq_true.mp hwc.digits c (by simp)) hdigit, fun _ => hrefuse⟩

/-- Reading bytes that are not dots, from the start of an octet. -/
theorem foldlM_word (o : Nat) {w : Bytes} (hdot : dot ∉ w) :
    (OctetStart w → w.foldlM step (after o []) = some (after o w)) ∧
      (¬ OctetStart w → w.foldlM step (after o []) = none) := by
  induction w using List.reverseRecOn with
  | nil => exact ⟨fun _ => rfl, fun h => absurd octetStart_nil h⟩
  | append_singleton w c ih =>
    simp only [List.mem_append, List.mem_singleton, not_or] at hdot
    obtain ⟨hin, hout⟩ := ih hdot.1
    have hc : c ≠ dot := fun h => hdot.2 h.symm
    rw [List.foldlM_append]
    by_cases hw : OctetStart w
    · rw [hin hw]
      obtain ⟨hstep, hrefuse⟩ := step_byte o hw hc
      exact ⟨fun hwc => by simp [hstep hwc], fun hwc => by simp [hrefuse hwc]⟩
    · rw [hout hw]
      refine ⟨fun hwc => absurd ?_ hw, fun _ => rfl⟩
      -- a start that the scanner has refused stays refused
      have hdigit : isDigit c = true := List.all_eq_true.mp hwc.digits c (by simp)
      exact ((octetStart_concat hdigit).mp hwc).1

/-- Reading the dot after an octet. -/
theorem step_dot {o : Nat} {w : Bytes} (hw : OctetStart w) :
    (after o w).step dot = if w = [] then none else some (after (o + 1) []) := by
  have hbound := hw.bound
  cases w with
  | nil => rfl
  | cons c w =>
    have hempty : after (o + 1) [] = ⟨o + 1, 0, 0, true⟩ := rfl
    simp [step, Nat.not_lt.mpr hbound, hempty]

/-- The scanner accepts the rest `s` of a text after `o` octets exactly when its fields are octets
and there are four in all. -/
theorem accepts_iff (o : Nat) (s : Bytes) :
    (∃ st, s.foldlM step (after o []) = some st ∧ st.accepts = true) ↔
      (∀ w ∈ s.splitOn dot, IsOctet w) ∧ o + (s.splitOn dot).length = 4 := by
  induction s using fields_induction dot generalizing o with
  | last w hw =>
    rw [List.splitOn_eq_singleton hw]
    simp only [List.mem_singleton, forall_eq, List.length_singleton, isOctet_iff]
    by_cases hstart : OctetStart w
    · have hbound := hstart.bound
      simp [(foldlM_word o hw).1 hstart, accepts, hstart, hbound]
    · simp [(foldlM_word o hw).2 hstart, hstart]
  | more w t hw ih =>
    rw [List.splitOn_append_cons_self_of_not_mem hw, List.foldlM_append]
    simp only [List.foldlM_cons, List.mem_cons, forall_eq_or_imp, List.length_cons, isOctet_iff]
    by_cases hstart : OctetStart w
    · rw [(foldlM_word o hw).1 hstart, Option.bind_eq_bind, Option.bind_some, step_dot hstart]
      by_cases hne : w = []
      · simp [hne]
      · rw [if_neg hne, Option.bind_some, ih (o + 1), Nat.add_assoc, Nat.add_comm 1]
        simp [hne, hstart, isOctet_iff]
    · simp [(foldlM_word o hw).2 hstart, hstart]

end IPv4Scan

theorem isIPv4_iff_splitOn {s : Bytes} :
    IsIPv4 s ↔ (∀ w ∈ s.splitOn dot, IsOctet w) ∧ (s.splitOn dot).length = 4 := by
  constructor
  · rintro ⟨ws, hlength, hws, rfl⟩
    rw [List.splitOn_intercalate dot (fun w hw => (hws w hw).dot_notMem)
      (by rintro rfl; simp at hlength)]
    exact ⟨hws, hlength⟩
  · rintro ⟨hws, hlength⟩
    exact ⟨_, hlength, hws, (List.intercalate_splitOn dot).symm⟩

namespace IsIPv4

variable {s : Bytes}

theorem ne_nil (h : IsIPv4 s) : s ≠ [] := by
  rintro rfl
  obtain ⟨hws, -⟩ := isIPv4_iff_splitOn.mp h
  exact (hws [] (by simp)).nonempty rfl

theorem length_le (h : IsIPv4 s) : s.length ≤ 15 := by
  obtain ⟨ws, hlength, hws, rfl⟩ := h
  obtain ⟨a, b, c, d, rfl⟩ : ∃ a b c d, ws = [a, b, c, d] := by
    match ws, hlength with
    | [a, b, c, d], _ => exact ⟨a, b, c, d, rfl⟩
  have ha := (hws a (by simp)).length_le
  have hb := (hws b (by simp)).length_le
  have hc := (hws c (by simp)).length_le
  have hd := (hws d (by simp)).length_le
  simp
  omega

end IsIPv4

theorem isValidIPv4_iff_splitOn (s : Bytes) :
    isValidIPv4 s = true ↔ (∀ w ∈ s.splitOn dot, IsOctet w) ∧ (s.splitOn dot).length = 4 := by
  have hscan := IPv4Scan.accepts_iff 0 s
  rw [Nat.zero_add] at hscan
  rw [isValidIPv4]
  split
  · next hlength =>
    simp only [Bool.false_eq_true, false_iff]
    rw [← isIPv4_iff_splitOn]
    intro h
    have := h.length_le
    rcases hlength with hnil | hlong
    · exact h.ne_nil hnil
    · omega
  · rw [← hscan]
    change (match s.foldlM IPv4Scan.step (IPv4Scan.after 0 []) with
      | none => false
      | some st => st.accepts) = true ↔ _
    cases s.foldlM IPv4Scan.step (IPv4Scan.after 0 []) with
    | none => simp
    | some st => simp

/-- `isValidIPv4` accepts the canonical dotted quads and nothing else. -/
theorem isValidIPv4_iff (s : Bytes) : isValidIPv4 s = true ↔ IsIPv4 s := by
  rw [isValidIPv4_iff_splitOn, isIPv4_iff_splitOn]

example : isValidIPv4 (ascii "255.0.10.1") = true := by decide

example : isValidIPv4 (ascii "1.2.03.4") = false := by decide

end Quads

end Strfry
