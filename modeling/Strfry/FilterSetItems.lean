import Strfry.FilterSet

/-!
# What a set of byte strings stores

The offset and the size of an item are cast to 16 and 8 bits when an element is appended, and the size
of the buffer is checked when all of them are in it. A set that is constructed has nevertheless the items
of the run without casts (`FilterSetBytes.item_of_make`): no offset of an item exceeds the final size of
the buffer, and no size exceeds `maxSize`.
-/

set_option autoImplicit false

namespace Strfry

open Lib

namespace FilterBuffer

/-- The items of a run of elements, if the offsets and the sizes are small. -/
theorem getElem?_pack {off : Nat} {l : List Bytes} (hbuf : off + l.flatten.length ≤ 65535)
    (hl : ∀ x ∈ l, x.length ≤ 255) {n : Nat} {it : FilterItem} (hit : (pack off l)[n]? = some it) :
    ∃ x, l[n]? = some x ∧
      it = ⟨off + (l.take n).flatten.length, x.length, firstByteOf x⟩ := by
  induction l generalizing off n with
  | nil => cases hit
  | cons x l ih =>
    have hx : x.length ≤ 255 := hl x List.mem_cons_self
    rw [List.flatten_cons, List.length_append] at hbuf
    rw [pack] at hit
    cases n with
    | zero =>
      -- the casts are the identity here
      cases hit
      refine ⟨x, rfl, ?_⟩
      rw [Nat.mod_eq_of_lt (by omega), Nat.mod_eq_of_lt (by omega)]
      rfl
    | succ n =>
      obtain ⟨y, hy, hit'⟩ := ih (by omega) (fun z hz => hl z (List.mem_cons_of_mem _ hz)) hit
      refine ⟨y, hy, hit'.trans ?_⟩
      rw [List.take_succ_cons, List.flatten_cons, List.length_append, Nat.add_assoc]

end FilterBuffer

namespace FilterSetBytes

section Made

variable {hex : HexCodec} {v : Json} {hexDecode : Bool} {minSize maxSize : Nat} {s : FilterSetBytes}

/-- An element that is accepted is a string. -/
theorem decodeItem_eq_ok {b : Bytes} (h : decodeItem hex hexDecode minSize maxSize v = .ok b) :
    ∃ text, v = .string text ∧ decodeText hex hexDecode text = .ok b := by
  unfold decodeItem at h
  obtain ⟨text, htext, h⟩ := bind_eq_ok.1 h
  obtain ⟨item, hitem, h⟩ := bind_eq_ok.1 h
  have hb : item = b := by
    split at h
    · cases h
    · split at h
      · cases h
      · exact Except.ok.inj h
  subst hb
  cases v with
  | string t =>
    cases htext
    exact ⟨text, rfl, hitem⟩
  | _ => cases htext

/-- The texts of an array of strings, and what they decode to. -/
theorem decoded_of_mapM {xs : List Json} {arr : List Bytes}
    (h : xs.mapM (decodeItem hex hexDecode minSize maxSize) = .ok arr) :
    ∃ texts : List Bytes, xs = texts.map .string ∧
      texts.mapM (decodeText hex hexDecode) = .ok arr := by
  induction xs generalizing arr with
  | nil =>
    cases h
    exact ⟨[], rfl, rfl⟩
  | cons x xs ih =>
    rw [List.mapM_cons] at h
    obtain ⟨b, hb, h⟩ := bind_eq_ok.1 h
    obtain ⟨bs, hbs, h⟩ := bind_eq_ok.1 h
    cases h
    obtain ⟨texts, rfl, htexts⟩ := ih hbs
    obtain ⟨text, rfl, htext⟩ := decodeItem_eq_ok hb
    refine ⟨text :: texts, rfl, ?_⟩
    rw [List.mapM_cons, htext, htexts]
    rfl

/-- The items of a set that is constructed are those of its elements. -/
theorem items_of_make (h : make hex v hexDecode minSize maxSize = .ok s) :
    ∃ texts arr : List _, v = .array (texts.map .string) ∧
      texts.mapM (decodeText hex hexDecode) = .ok arr ∧ (∀ b, b ∈ s.elems ↔ b ∈ arr) ∧
      s.items = FilterBuffer.pack 0 s.elems ∧ ∀ x ∈ s.elems, x.length ≤ 255 := by
  have hmade := make_eq_ok h
  unfold make at h
  split at h
  · cases h
  · rename_i hmax
    split at h
    · rename_i xs
      split at h
      · cases h
      · rename_i arr hm
        obtain ⟨texts, hxs, htexts⟩ := decoded_of_mapM hm
        obtain ⟨_, _, he, hm', hmem, hsize⟩ := hmade
        cases he
        rw [hm] at hm'
        cases hm'
        refine ⟨texts, arr, by rw [hxs], htexts, hmem, ?_,
          fun x hx => (hsize x hx).2.trans (not_lt.1 hmax)⟩
        unfold ofArray at h
        split at h
        · cases h
        · rename_i hbuf
          cases h
          have hdesc := (bufferOf_described arr (fun x hx => (size_of_mem_mapM hm x hx).2.trans
            (not_lt.1 hmax)) (not_lt.1 hbuf)).1
          show (bufferOf arr).items =
            FilterBuffer.pack 0 ((bufferOf arr).items.map fun it => it.slice (bufferOf arr).buf)
          rw [hdesc, bufferOf_eq]
    · cases h

/-- No cast of the constructor has lost anything. -/
theorem item_of_make (h : make hex v hexDecode minSize maxSize = .ok s) {n : Nat} {it : FilterItem}
    (hit : s.items[n]? = some it) :
    ∃ x, s.elems[n]? = some x ∧
      it = ⟨(s.elems.take n).flatten.length, x.length, firstByteOf x⟩ := by
  obtain ⟨-, -, -, -, -, hitems, hsize⟩ := items_of_make h
  have hbuf : 0 + s.elems.flatten.length ≤ 65535 := by
    rw [Nat.zero_add, show s.elems.flatten = s.buf from s.buf_eq.symm]
    exact s.buf_le
  rw [hitems] at hit
  obtain ⟨x, hx, heq⟩ := FilterBuffer.getElem?_pack hbuf hsize hit
  rw [Nat.zero_add] at heq
  exact ⟨x, hx, heq⟩

theorem at?_of_getElem? {n : Nat} {x : Bytes} (hx : s.elems[n]? = some x) : s.at? n = .ok x := by
  rw [elems, List.getElem?_map, Option.map_eq_some_iff] at hx
  obtain ⟨it, hit, rfl⟩ := hx
  rw [at?, hit]

/-- The set of an array of strings: membership is that of the decoded strings, `at` enumerates them in
increasing order, each once, and the items hold the offsets and the sizes as they are. -/
theorem set_of_make (h : make hex v hexDecode minSize maxSize = .ok s) :
    ∃ texts decoded : List Bytes, v = .array (texts.map .string) ∧
      texts.mapM (decodeText hex hexDecode) = .ok decoded ∧
      (∀ c, s.doesMatch c = true ↔ c ∈ decoded) ∧
      ∃ distinct : List Bytes, distinct.length = s.size ∧ distinct.Pairwise (· < ·) ∧
        (∀ c, c ∈ distinct ↔ c ∈ decoded) ∧
        (∀ n x, distinct[n]? = some x → s.at? n = .ok x) ∧
        ∀ n it, s.items[n]? = some it → ∃ x, distinct[n]? = some x ∧
          it.offset = (distinct.take n).flatten.length ∧ it.size = x.length := by
  obtain ⟨texts, decoded, hv, hdecoded, hmem, -, -⟩ := items_of_make h
  refine ⟨texts, decoded, hv, hdecoded, fun c => (s.doesMatch_iff c).trans (hmem c), s.elems,
    s.length_elems, s.sorted, hmem, fun n x hx => at?_of_getElem? hx, fun n it hit => ?_⟩
  obtain ⟨x, hx, rfl⟩ := item_of_make h hit
  exact ⟨x, hx, rfl, rfl⟩

end Made

/-- An array with a repeated element, an empty one and a byte above 127. -/
def sampleArray : Json := .array [.string [200], .string [], .string [97, 98], .string [200]]

theorem set_of_make_sample :
    ∃ s, make hexCodec sampleArray false 0 255 = .ok s ∧
      ∃ texts decoded : List Bytes, sampleArray = .array (texts.map .string) ∧
        texts.mapM (decodeText hexCodec false) = .ok decoded ∧
        (∀ c, s.doesMatch c = true ↔ c ∈ decoded) ∧
        ∃ distinct : List Bytes, distinct.length = s.size ∧ distinct.Pairwise (· < ·) ∧
          (∀ c, c ∈ distinct ↔ c ∈ decoded) ∧
          (∀ n x, distinct[n]? = some x → s.at? n = .ok x) ∧
          ∀ n it, s.items[n]? = some it → ∃ x, distinct[n]? = some x ∧
            it.offset = (distinct.take n).flatten.length ∧ it.size = x.length := by
  have hmake : ∃ s, make hexCodec sampleArray false 0 255 = .ok s := by
    refine ⟨_, rfl⟩
  obtain ⟨s, hs⟩ := hmake
  exact ⟨s, hs, set_of_make hs⟩

end FilterSetBytes

end Strfry
