import Strfry.Fried
import Strfry.PackedBuffers

/-!
# What `parseFried` lets through

`parseFried` checks the size of a line, its end and the key of its last field, and leaves the digits to
`from_hex`. Whatever they decode to goes into the writer pipeline, where an empty packed event is the
request to shut down, one below 88 bytes makes the constructor of `PackedEventView` throw in the writer
thread, and one with an incomplete tag makes `foreachTag` leave the buffer. So a line is dealt with
properly exactly when its digits, if they decode at all, decode to a packed event
(`parseFried_checked_iff`).
-/

set_option autoImplicit false

namespace Strfry

open Lib

/-! ## Packed events -/

/-- The bytes are a packed event: a complete header, and complete tags behind it. -/
def IsPacked (packed : Bytes) : Prop := 88 ≤ packed.length ∧ ∃ ts, Splits (packed.drop 88) ts

theorem ne_nil_of_isPacked {packed : Bytes} (h : IsPacked packed) : packed ≠ [] :=
  List.ne_nil_of_length_pos (lt_of_lt_of_le (Nat.succ_pos 87) h.1)

/-! ## The lines that are accepted -/

theorem scanQuote_spec (s : Bytes) (n : Nat) :
    scanQuote s n ≤ n ∧ ∀ x, scanQuote s n < x → x ≤ n → s[x]? ≠ some 34 := by
  induction n with
  | zero => exact ⟨le_rfl, fun x hlt hle => absurd hlt (not_lt.mpr hle)⟩
  | succ n ih =>
    rw [scanQuote]
    split
    · exact ⟨le_rfl, fun x hlt hle => absurd hlt (not_lt.mpr hle)⟩
    · rename_i hne
      refine ⟨ih.1.trans n.le_succ, fun x hlt hle => ?_⟩
      rcases Nat.lt_or_eq_of_le hle with hlt' | rfl
      · exact ih.2 x hlt (Nat.le_of_lt_succ hlt')
      · exact hne

/-- A line with a fried field: the text before it, and the digits in it. -/
structure HasFried (line body digits : Bytes) : Prop where
  line_eq : line = body ++ friedKey ++ digits ++ ascii "\"\x7d"
  noQuote : (34 : UInt8) ∉ digits
  size_le : 64 ≤ line.length

theorem HasFried.parseFried {line body digits : Bytes} (h : HasFried line body digits)
    (hex : HexCodec) : parseFried hex line =
      (hex.fromHexPrefixed digits).map fun packed => (packed, body ++ [125]) := by
  obtain ⟨rfl, hno, hsize⟩ := h
  apply parseFried_eq hex hno
  have hkey : friedKey.length = 10 := rfl
  have hend : (ascii "\"\x7d").length = 2 := rfl
  rw [List.length_append, List.length_append, List.length_append, hkey, hend] at hsize
  omega

/-- Only lines with a fried field are accepted. -/
theorem hasFried_of_parseFried {hex : HexCodec} {line : Bytes} {r : Bytes × Bytes}
    (h : parseFried hex line = .ok r) : ∃ body digits, HasFried line body digits := by
  unfold parseFried at h
  split at h
  · cases h
  · rename_i hsize
    split at h
    · cases h
    · rename_i hend
      rw [Bool.not_eq_true', Bool.not_eq_false, List.isSuffixOf_iff_suffix] at hend
      obtain ⟨pre, hpre⟩ := hend
      have hend2 : (ascii "\"\x7d").length = 2 := rfl
      have hprelen : pre.length + 2 = line.length := by
        rw [← hpre, List.length_append, hend2]
      obtain ⟨hle, hno⟩ := scanQuote_spec line (line.length - 3)
      generalize scanQuote line (line.length - 3) = i at h hle hno
      dsimp only at h
      split at h
      · cases h
      · rename_i hkey
        rw [Bool.not_eq_true', Bool.not_eq_false, List.isSuffixOf_iff_suffix] at hkey
        obtain ⟨body, hbody⟩ := hkey
        -- the digits are what is left of the line between its two known parts
        have hdrop : (line.drop (i + 1)) = pre.drop (i + 1) ++ ascii "\"\x7d" := by
          rw [← hpre, List.drop_append_of_le_length (by omega)]
        refine ⟨body, pre.drop (i + 1), ?_, ?_, not_lt.mp hsize⟩
        · rw [hbody, List.append_assoc, ← hdrop, List.take_append_drop]
        · intro hmem
          obtain ⟨j, hj⟩ := List.mem_iff_getElem?.mp hmem
          rw [List.getElem?_drop] at hj
          have hjlt : i + 1 + j < pre.length := (List.getElem?_eq_some_iff.mp hj).1
          apply hno (i + 1 + j) (by omega) (by omega)
          rw [← hpre, List.getElem?_append_left hjlt]
          exact hj

/-! ## What goes into the pipeline -/

/-- The line is refused, or what is returned is a packed event and the line without its fried field. -/
def Checked (hex : HexCodec) (line : Bytes) : Prop :=
  (∃ e, parseFried hex line = .error e) ∨
    ∃ packed body digits, parseFried hex line = .ok (packed, body ++ [125]) ∧ IsPacked packed ∧
      HasFried line body digits

/-- The digits of a fried field, if they decode at all, are those of a packed event. -/
def HoldsPacked (hex : HexCodec) (line : Bytes) : Prop :=
  ∀ body digits packed, HasFried line body digits → hex.fromHexPrefixed digits = .ok packed → IsPacked packed

theorem parseFried_checked_iff (hex : HexCodec) (line : Bytes) :
    Checked hex line ↔ HoldsPacked hex line := by
  constructor
  · rintro h body digits packed hfried hdecode
    have hparse := hfried.parseFried hex
    rw [hdecode] at hparse
    rcases h with ⟨e, he⟩ | ⟨packed', body', digits', hok, hpacked, -⟩
    · rw [he] at hparse
      cases hparse
    · rw [hok] at hparse
      obtain rfl := (Prod.mk.inj (Except.ok.inj hparse)).1
      exact hpacked
  · intro h
    cases hparse : parseFried hex line with
    | error e => exact Or.inl ⟨e, hparse⟩
    | ok r =>
      right
      obtain ⟨body, digits, hfried⟩ := hasFried_of_parseFried hparse
      have heq := hfried.parseFried hex
      rw [hparse] at heq
      obtain ⟨packed, hdecode, hr⟩ := map_eq_ok.mp heq.symm
      refine ⟨packed, body, digits, ?_, h body digits packed hfried hdecode, hfried⟩
      rw [hparse, ← hr]

/-- A line with an empty fried field. -/
def emptyFried : Bytes :=
  ascii "\x7b\"content\":\"nothing to see here, and a bit of padding\",\"kind\":1,\"fried\":\"\"\x7d"

/-- It is accepted, with the packed event that shuts the pipeline down. -/
theorem emptyFried_not_checked :
    parseFried hexCodec emptyFried =
        .ok ([], ascii "\x7b\"content\":\"nothing to see here, and a bit of padding\",\"kind\":1\x7d") ∧
      ¬ Checked hexCodec emptyFried := by
  have hparse : parseFried hexCodec emptyFried =
      .ok ([], ascii "\x7b\"content\":\"nothing to see here, and a bit of padding\",\"kind\":1\x7d") := by
    decide +kernel
  refine ⟨hparse, ?_⟩
  rintro (⟨e, he⟩ | ⟨packed, body, digits, hok, hpacked, -⟩)
  · rw [he] at hparse
    cases hparse
  · rw [hok] at hparse
    exact ne_nil_of_isPacked hpacked (Prod.mk.inj (Except.ok.inj hparse)).1

end Strfry
