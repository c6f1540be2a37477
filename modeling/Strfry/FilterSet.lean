import Strfry.Events

/-!
# Sets of values in a filter

`FilterSetBytes` keeps its elements in one buffer, sorted and without duplicates, and an `Item`
per element with the offset, the size and the first byte. `doesMatch` is a binary search for the
upper bound of the candidate. A value of the type carries the facts its constructor establishes:
the elements are strictly increasing and every item describes its element
(`FilterSetBytes.doesMatch_iff`, `FilterSetBytes.make_eq_ok`).
-/

set_option autoImplicit false

namespace Strfry

open Lib

/-- `FilterSetBytes::Item`; the fields are of 16, 8 and 8 bits. -/
structure FilterItem where
  offset : Nat
  size : Nat
  firstByte : Nat
  deriving DecidableEq

/-- `std::string_view(buf.data() + offset, size)`. -/
def FilterItem.slice (buf : Bytes) (it : FilterItem) : Bytes :=
  (buf.drop it.offset).take it.size

/-- `(uint8_t)item[0]`, which is zero for an empty string. -/
def firstByteOf (b : Bytes) : Nat := (b.headD 0).toNat

/-- The members `items` and `buf`. -/
structure FilterBuffer where
  items : List FilterItem
  buf : Bytes

/-- One element appended to a buffer, with the casts of the source. -/
def FilterBuffer.push (b : FilterBuffer) (item : Bytes) : FilterBuffer where
  items := b.items ++ [⟨b.buf.length % 2 ^ 16, item.length % 2 ^ 8, firstByteOf item⟩]
  buf := b.buf ++ item

/-- The loop over the sorted array: an item equal to the previous one is skipped. -/
def FilterBuffer.fill : Option Bytes → List Bytes → FilterBuffer → FilterBuffer
  | _, [], acc => acc
  | prev, item :: rest, acc =>
    if prev = some item then fill (some item) rest acc
    else fill (some item) rest (acc.push item)

/-- `FilterSetBytes`. -/
structure FilterSetBytes where
  items : List FilterItem
  buf : Bytes
  sorted : (items.map fun it => it.slice buf).Pairwise (· < ·)
  described : ∀ it ∈ items, it.size = (it.slice buf).length ∧
    it.firstByte = firstByteOf (it.slice buf)
  buf_eq : buf = (items.map fun it => it.slice buf).flatten
  buf_le : buf.length ≤ 65535

namespace FilterSetBytes

/-- The elements, in increasing order. -/
def elems (s : FilterSetBytes) : List Bytes := s.items.map fun it => it.slice s.buf

/-- `size`. -/
def size (s : FilterSetBytes) : Nat := s.items.length

@[simp] theorem length_elems (s : FilterSetBytes) : s.elems.length = s.size :=
  List.length_map _

/-- The comparison inside the binary search: first bytes decide when both are there and differ. -/
def comp (candidate : Bytes) (it : FilterItem) (buf : Bytes) : Bool :=
  if candidate.length ≠ 0 ∧ it.size ≠ 0 ∧ firstByteOf candidate ≠ it.firstByte then
    firstByteOf candidate < it.firstByte
  else candidate < it.slice buf

/-- The loop of `doesMatch`; returns `first`, the upper bound of the candidate. -/
def upperBound (s : FilterSetBytes) (candidate : Bytes) : Nat → Nat → Nat → Nat
  | 0, first, _ => first
  | fuel + 1, first, count =>
    if count > 0 then
      match s.items[first + count / 2]? with
      | none => first
      | some it =>
        if comp candidate it s.buf then upperBound s candidate fuel first (count / 2)
        else upperBound s candidate fuel (first + count / 2 + 1) (count - (count / 2 + 1))
    else first

/-- `doesMatch`. -/
def doesMatch (s : FilterSetBytes) (candidate : Bytes) : Bool :=
  match s.upperBound candidate (s.items.length + 1) 0 s.items.length with
  | 0 => false
  | first + 1 =>
    match s.items[first]? with
    | none => false
    | some it => candidate == it.slice s.buf

/-- `at`. -/
def at? (s : FilterSetBytes) (n : Nat) : Except Err Bytes :=
  match s.items[n]? with
  | none => .error (.herr "FilterSetBytes access out of bounds")
  | some it => .ok (it.slice s.buf)

/-! ## The search finds the elements -/

theorem lt_iff_firstByte {a b : Bytes} (ha : a ≠ []) (hb : b ≠ [])
    (hne : firstByteOf a ≠ firstByteOf b) : a < b ↔ firstByteOf a < firstByteOf b := by
  obtain ⟨x, xs, rfl⟩ := List.exists_cons_of_ne_nil ha
  obtain ⟨y, ys, rfl⟩ := List.exists_cons_of_ne_nil hb
  have hxy : x ≠ y := fun h => hne (by rw [h]; rfl)
  show x :: xs < y :: ys ↔ x.toNat < y.toNat
  rw [List.cons_lt_cons_iff, UInt8.lt_iff_toNat_lt]
  simp [hxy]

theorem comp_eq (s : FilterSetBytes) (candidate : Bytes) {it : FilterItem} (hit : it ∈ s.items) :
    comp candidate it s.buf = decide (candidate < it.slice s.buf) := by
  obtain ⟨hsize, hfirst⟩ := s.described it hit
  unfold comp
  split
  · rename_i h
    obtain ⟨hc, hs, hne⟩ := h
    rw [hsize] at hs
    rw [hfirst] at hne ⊢
    rw [decide_eq_decide]
    exact (lt_iff_firstByte (List.length_pos_iff.1 (Nat.pos_of_ne_zero hc))
      (List.length_pos_iff.1 (Nat.pos_of_ne_zero hs)) hne).symm
  · rfl

/-- Everything before `r` is at most the candidate, everything from `r` on is above it. -/
def Splits (s : FilterSetBytes) (candidate : Bytes) (lo hi : Nat) : Prop :=
  (∀ i e, i < lo → s.elems[i]? = some e → e ≤ candidate) ∧
    ∀ i e, hi ≤ i → s.elems[i]? = some e → candidate < e

theorem elems_mono (s : FilterSetBytes) {i j : Nat} {a b : Bytes} (hij : i ≤ j)
    (ha : s.elems[i]? = some a) (hb : s.elems[j]? = some b) : a ≤ b := by
  obtain ⟨hi, rfl⟩ := List.getElem?_eq_some_iff.1 ha
  obtain ⟨hj, rfl⟩ := List.getElem?_eq_some_iff.1 hb
  rcases Nat.lt_or_eq_of_le hij with h | rfl
  · exact (List.pairwise_iff_getElem.1 s.sorted i j hi hj h).le
  · exact le_rfl

theorem upperBound_splits (s : FilterSetBytes) (candidate : Bytes) (fuel first count : Nat)
    (hfuel : count < fuel) (hle : first + count ≤ s.items.length)
    (h : s.Splits candidate first (first + count)) :
    ∃ r, s.upperBound candidate fuel first count = r ∧ r ≤ s.items.length ∧
      s.Splits candidate r r := by
  induction fuel generalizing first count with
  | zero => omega
  | succ fuel ih =>
    rw [upperBound]
    split
    · rename_i hpos
      obtain ⟨it, hit⟩ : ∃ it, s.items[first + count / 2]? = some it :=
        ⟨_, List.getElem?_eq_getElem (by omega)⟩
      have helem : s.elems[first + count / 2]? = some (it.slice s.buf) := by
        rw [elems, List.getElem?_map, hit]
        rfl
      simp only [hit, comp_eq s candidate (List.mem_of_getElem? hit), decide_eq_true_eq]
      split
      · rename_i hlt
        refine ih first (count / 2) (by omega) (by omega) ⟨h.1, fun i e hi he => ?_⟩
        exact hlt.trans_le (s.elems_mono hi helem he)
      · rename_i hnlt
        refine ih (first + count / 2 + 1) (count - (count / 2 + 1)) (by omega) (by omega)
          ⟨fun i e hi he => ?_, fun i e hi he => h.2 i e (by omega) he⟩
        exact (s.elems_mono (by omega) he helem).trans (not_lt.1 hnlt)
    · rename_i hzero
      obtain rfl : count = 0 := by omega
      exact ⟨first, rfl, by omega, h⟩

/-- `doesMatch` is membership. -/
theorem doesMatch_iff (s : FilterSetBytes) (candidate : Bytes) :
    s.doesMatch candidate = true ↔ candidate ∈ s.elems := by
  obtain ⟨r, hr, hrle, hsplit⟩ := s.upperBound_splits candidate (s.items.length + 1) 0
    s.items.length (by omega) (by omega) ⟨by omega, by
      intro i e hi he
      obtain ⟨hlt, -⟩ := List.getElem?_eq_some_iff.1 he
      rw [length_elems, size] at hlt
      omega⟩
  unfold doesMatch
  rw [hr]
  cases r with
  | zero =>
    simp only [Bool.false_eq_true, false_iff]
    intro hmem
    obtain ⟨i, hi⟩ := List.mem_iff_getElem?.1 hmem
    exact lt_irrefl candidate (hsplit.2 i candidate (Nat.zero_le i) hi)
  | succ r =>
    obtain ⟨it, hit⟩ : ∃ it, s.items[r]? = some it := ⟨_, List.getElem?_eq_getElem (by omega)⟩
    have helem : s.elems[r]? = some (it.slice s.buf) := by
      rw [elems, List.getElem?_map, hit]
      rfl
    simp only [hit, beq_iff_eq]
    constructor
    · intro heq
      rw [heq]
      exact List.mem_of_getElem? helem
    · intro hmem
      obtain ⟨i, hi⟩ := List.mem_iff_getElem?.1 hmem
      have hir : i ≤ r := by
        by_contra hgt
        exact lt_irrefl candidate (hsplit.2 i candidate (by omega) hi)
      exact le_antisymm (s.elems_mono hir hi helem) (hsplit.1 r _ (by omega) helem)

theorem nodup_elems (s : FilterSetBytes) : s.elems.Nodup := s.sorted.imp fun h => h.ne

/-- Distinct elements fill the buffer, so there are at most 65536 of them: one may be empty. -/
theorem size_le (s : FilterSetBytes) : s.size ≤ 65536 := by
  have hcount : ∀ l : List Bytes, l.Nodup → l.length ≤ l.flatten.length + 1 := by
    intro l
    induction l with
    | nil => simp
    | cons a l ih =>
      intro hnd
      rw [List.nodup_cons] at hnd
      have hl := ih hnd.2
      rcases Nat.eq_zero_or_pos a.length with ha | ha
      · -- the empty element is the only one, so the others have a byte each
        rw [List.length_eq_zero_iff] at ha
        subst ha
        have hone : ∀ m : List Bytes, ([] : Bytes) ∉ m → m.length ≤ m.flatten.length := by
          intro m
          induction m with
          | nil => simp
          | cons b m ihm =>
            intro hb
            rw [List.mem_cons, not_or] at hb
            have := ihm hb.2
            have := List.length_pos_iff.2 (Ne.symm hb.1)
            simp only [List.length_cons, List.flatten_cons, List.length_append]
            omega
        have := hone l hnd.1
        simp only [List.length_cons, List.flatten_cons, List.length_append]
        omega
      · simp only [List.length_cons, List.flatten_cons, List.length_append]
        omega
  have h := hcount s.elems s.nodup_elems
  have hbuf : s.elems.flatten.length ≤ 65535 := by
    rw [show s.elems.flatten = s.buf from s.buf_eq.symm]
    exact s.buf_le
  rw [length_elems] at h
  omega

/-- A scan index of 24 bits counts the elements. -/
theorem length_elems_le (s : FilterSetBytes) : s.elems.length ≤ 2 ^ 24 := by
  rw [length_elems]
  exact s.size_le.trans (by norm_num)

end FilterSetBytes

/-! ## The constructor -/

namespace FilterBuffer

/-- The elements that `fill` keeps: those different from their predecessor. -/
def distinct : Option Bytes → List Bytes → List Bytes
  | _, [] => []
  | prev, item :: rest =>
    if prev = some item then distinct (some item) rest
    else item :: distinct (some item) rest

theorem mem_distinct {prev : Option Bytes} {l : List Bytes} {b : Bytes}
    (h : b ∈ distinct prev l) : b ∈ l := by
  induction l generalizing prev with
  | nil => simp [distinct] at h
  | cons a l ih =>
    rw [distinct] at h
    split at h
    · exact List.mem_cons_of_mem _ (ih h)
    · rcases List.mem_cons.1 h with rfl | h
      · exact List.mem_cons_self
      · exact List.mem_cons_of_mem _ (ih h)

theorem mem_or_of_mem (prev : Option Bytes) {l : List Bytes} {b : Bytes} (h : b ∈ l) :
    prev = some b ∨ b ∈ distinct prev l := by
  induction l generalizing prev with
  | nil => simp at h
  | cons a l ih =>
    rw [distinct]
    rcases List.mem_cons.1 h with rfl | h
    · split
      · exact Or.inl ‹_›
      · exact Or.inr List.mem_cons_self
    · split
      · rename_i hprev
        rcases ih (some a) h with hb | hb
        · exact Or.inl (hprev.trans hb)
        · exact Or.inr hb
      · rcases ih (some a) h with hb | hb
        · cases hb
          exact Or.inr List.mem_cons_self
        · exact Or.inr (List.mem_cons_of_mem _ hb)

/-- On a sorted list the kept elements are strictly increasing, and above the previous one. -/
theorem distinct_pairwise (prev : Option Bytes) {l : List Bytes} (hl : l.Pairwise (· ≤ ·))
    (hprev : ∀ p, prev = some p → ∀ a ∈ l, p ≤ a) :
    (distinct prev l).Pairwise (· < ·) ∧ ∀ p, prev = some p → ∀ a ∈ distinct prev l, p < a := by
  induction l generalizing prev with
  | nil => simp [distinct]
  | cons a l ih =>
    rw [List.pairwise_cons] at hl
    obtain ⟨hpw, hgt⟩ := ih (some a) hl.2 (by rintro p ⟨rfl⟩; exact hl.1)
    rw [distinct]
    split
    · rename_i heq
      exact ⟨hpw, fun p hp => hgt p (by rw [← heq, hp])⟩
    · rename_i hne
      refine ⟨List.pairwise_cons.2 ⟨hgt a rfl, hpw⟩, ?_⟩
      rintro p rfl b hb
      have hpa : p < a := lt_of_le_of_ne (hprev p rfl a List.mem_cons_self) fun h => hne (h ▸ rfl)
      rcases List.mem_cons.1 hb with rfl | hb
      · exact hpa
      · exact hpa.trans (hgt a rfl b hb)

/-- The items of a run of elements that starts at offset `off`. -/
def pack : Nat → List Bytes → List FilterItem
  | _, [] => []
  | off, x :: xs => ⟨off % 2 ^ 16, x.length % 2 ^ 8, firstByteOf x⟩ :: pack (off + x.length) xs

theorem fill_eq (prev : Option Bytes) (l : List Bytes) (acc : FilterBuffer) :
    fill prev l acc = ⟨acc.items ++ pack acc.buf.length (distinct prev l),
      acc.buf ++ (distinct prev l).flatten⟩ := by
  induction l generalizing prev acc with
  | nil => simp [fill, distinct, pack]
  | cons a l ih =>
    rw [fill, distinct]
    split
    · exact ih _ _
    · rw [ih]
      simp [push, pack, List.length_append]

/-- As long as the buffer has at most 65535 bytes and the elements at most 255, no cast loses
anything: every item describes its element. -/
theorem pack_described (pre : Bytes) (l : List Bytes)
    (hbuf : (pre ++ l.flatten).length ≤ 65535) (hl : ∀ x ∈ l, x.length ≤ 255) :
    (pack pre.length l).map (fun it => it.slice (pre ++ l.flatten)) = l ∧
      ∀ it ∈ pack pre.length l, it.size = (it.slice (pre ++ l.flatten)).length ∧
        it.firstByte = firstByteOf (it.slice (pre ++ l.flatten)) := by
  induction l generalizing pre with
  | nil => simp [pack]
  | cons x l ih =>
    have hx : x.length ≤ 255 := hl x List.mem_cons_self
    have hassoc : pre ++ (x :: l).flatten = (pre ++ x) ++ l.flatten := by simp
    rw [hassoc] at hbuf ⊢
    obtain ⟨hmap, hdesc⟩ := ih (pre ++ x) hbuf fun y hy => hl y (List.mem_cons_of_mem _ hy)
    rw [List.length_append] at hmap hdesc
    have hslice : FilterItem.slice (pre ++ x ++ l.flatten)
        ⟨pre.length % 2 ^ 16, x.length % 2 ^ 8, firstByteOf x⟩ = x := by
      simp only [List.length_append] at hbuf
      rw [FilterItem.slice, Nat.mod_eq_of_lt (by omega), Nat.mod_eq_of_lt (by omega),
        List.append_assoc, List.drop_left, List.take_left]
    refine ⟨by rw [pack, List.map_cons, hslice, hmap], ?_⟩
    intro it hit
    rw [pack, List.mem_cons] at hit
    rcases hit with rfl | hit
    · rw [hslice]
      exact ⟨Nat.mod_eq_of_lt (by omega), rfl⟩
    · exact hdesc it hit

end FilterBuffer

namespace FilterSetBytes

/-- The text of an element, or what it decodes to. -/
def decodeText (hex : HexCodec) (hexDecode : Bool) (text : Bytes) : Except Err Bytes :=
  if hexDecode then hex.fromHex text else .ok text

/-- One element of the JSON array: decoded, with its size checked. -/
def decodeItem (hex : HexCodec) (hexDecode : Bool) (minSize maxSize : Nat) (v : Json) :
    Except Err Bytes := do
  let item ← decodeText hex hexDecode (← v.getString)
  if item.length < minSize then .error (.herr "filter item too small")
  else if item.length > maxSize then .error (.herr "filter item too large")
  else .ok item

theorem decodeItem_size {hex : HexCodec} {hexDecode : Bool} {minSize maxSize : Nat} {v : Json}
    {item : Bytes} (h : decodeItem hex hexDecode minSize maxSize v = .ok item) :
    minSize ≤ item.length ∧ item.length ≤ maxSize := by
  unfold decodeItem at h
  obtain ⟨text, -, h⟩ := bind_eq_ok.1 h
  obtain ⟨x, -, h⟩ := bind_eq_ok.1 h
  split at h
  · cases h
  · split at h
    · cases h
    · cases h
      omega

/-- Every element of the array passes the check of `decodeItem`. -/
theorem size_of_mem_mapM {hex : HexCodec} {hexDecode : Bool} {minSize maxSize : Nat}
    {xs : List Json} {arr : List Bytes}
    (h : xs.mapM (decodeItem hex hexDecode minSize maxSize) = .ok arr) :
    ∀ x ∈ arr, minSize ≤ x.length ∧ x.length ≤ maxSize := by
  induction xs generalizing arr with
  | nil =>
    cases h
    simp
  | cons v xs ih =>
    rw [List.mapM_cons] at h
    obtain ⟨y, hy, h⟩ := bind_eq_ok.1 h
    obtain ⟨ys, hys, h⟩ := bind_eq_ok.1 h
    cases h
    intro x hx
    rcases List.mem_cons.1 hx with rfl | hx
    · exact decodeItem_size hy
    · exact ih hys x hx

/-- The buffer of a decoded array. -/
def bufferOf (arr : List Bytes) : FilterBuffer :=
  FilterBuffer.fill none (arr.insertionSort (· ≤ ·)) ⟨[], []⟩

/-- The distinct elements of a decoded array, in increasing order. -/
def distinctOf (arr : List Bytes) : List Bytes :=
  FilterBuffer.distinct none (arr.insertionSort (· ≤ ·))

theorem mem_distinctOf {arr : List Bytes} {b : Bytes} : b ∈ distinctOf arr ↔ b ∈ arr := by
  constructor
  · exact fun h => (List.mem_insertionSort _).1 (FilterBuffer.mem_distinct h)
  · intro h
    rcases FilterBuffer.mem_or_of_mem none ((List.mem_insertionSort (· ≤ ·)).2 h) with h | h
    · cases h
    · exact h

theorem bufferOf_eq (arr : List Bytes) :
    bufferOf arr = ⟨FilterBuffer.pack 0 (distinctOf arr), (distinctOf arr).flatten⟩ :=
  FilterBuffer.fill_eq none _ _

theorem bufferOf_buf (arr : List Bytes) : (bufferOf arr).buf = (distinctOf arr).flatten := by
  rw [bufferOf_eq]

theorem bufferOf_described (arr : List Bytes) (hsize : ∀ x ∈ arr, x.length ≤ 255)
    (hbuf : (bufferOf arr).buf.length ≤ 65535) :
    (bufferOf arr).items.map (fun it => it.slice (bufferOf arr).buf) = distinctOf arr ∧
      ∀ it ∈ (bufferOf arr).items, it.size = (it.slice (bufferOf arr).buf).length ∧
        it.firstByte = firstByteOf (it.slice (bufferOf arr).buf) := by
  rw [bufferOf_eq] at hbuf ⊢
  exact FilterBuffer.pack_described [] _ hbuf fun x hx => hsize x (mem_distinctOf.1 hx)

/-- The part of the constructor after the array is decoded. -/
def ofArray (arr : List Bytes) (hsize : ∀ x ∈ arr, x.length ≤ 255) : Except Err FilterSetBytes :=
  if h : (bufferOf arr).buf.length > 65535 then .error (.herr "total filter items too large")
  else .ok
    { items := (bufferOf arr).items
      buf := (bufferOf arr).buf
      sorted := by
        rw [(bufferOf_described arr hsize (not_lt.1 h)).1]
        exact (FilterBuffer.distinct_pairwise none (List.pairwise_insertionSort _ _) (by simp)).1
      described := (bufferOf_described arr hsize (not_lt.1 h)).2
      buf_eq := by
        rw [(bufferOf_described arr hsize (not_lt.1 h)).1]
        exact bufferOf_buf arr
      buf_le := not_lt.1 h }

/-- The constructor of `FilterSetBytes`. -/
def make (hex : HexCodec) (arrHex : Json) (hexDecode : Bool) (minSize maxSize : Nat) :
    Except Err FilterSetBytes :=
  if hmax : maxSize > maxIndexedTagValSize then
    .error (.herr "maxSize bigger than max indexed tag size")
  else
    match arrHex with
    | .array xs =>
      match hm : xs.mapM (decodeItem hex hexDecode minSize maxSize) with
      | .error e => .error e
      | .ok arr => ofArray arr fun x hx => (size_of_mem_mapM hm x hx).2.trans (not_lt.1 hmax)
    | _ => .error .badJson

/-- An accepted array: its decoded elements are the elements of the set, and all of them pass the
size check. -/
theorem make_eq_ok {hex : HexCodec} {v : Json} {hexDecode : Bool} {minSize maxSize : Nat}
    {s : FilterSetBytes} (h : make hex v hexDecode minSize maxSize = .ok s) :
    ∃ xs arr, v = .array xs ∧ xs.mapM (decodeItem hex hexDecode minSize maxSize) = .ok arr ∧
      (∀ b, b ∈ s.elems ↔ b ∈ arr) ∧
      ∀ b ∈ s.elems, minSize ≤ b.length ∧ b.length ≤ maxSize := by
  unfold make at h
  split at h
  · cases h
  · split at h
    · rename_i xs
      split at h
      · cases h
      · rename_i arr hm
        unfold ofArray at h
        split at h
        · cases h
        · rename_i hbuf
          cases h
          have hmem : ∀ b, b ∈ (bufferOf arr).items.map (fun it => it.slice (bufferOf arr).buf) ↔
              b ∈ arr := by
            intro b
            rw [(bufferOf_described arr (fun x hx => (size_of_mem_mapM hm x hx).2.trans
              (not_lt.1 ‹_›)) (not_lt.1 hbuf)).1]
            exact mem_distinctOf
          exact ⟨xs, arr, rfl, hm, hmem,
            fun b hb => size_of_mem_mapM hm b ((hmem b).1 hb)⟩
    · cases h

/-- A set made from an array with an element has an element. -/
theorem elems_ne_nil_of_make {hex : HexCodec} {xs : List Json} {hexDecode : Bool}
    {minSize maxSize : Nat} {s : FilterSetBytes}
    (h : make hex (.array xs) hexDecode minSize maxSize = .ok s) (hxs : xs ≠ []) :
    s.elems ≠ [] := by
  obtain ⟨ys, arr, he, hm, hmem, -⟩ := make_eq_ok h
  cases he
  obtain ⟨x, xs, rfl⟩ := List.exists_cons_of_ne_nil hxs
  rw [List.mapM_cons] at hm
  obtain ⟨y, -, hm⟩ := bind_eq_ok.1 hm
  obtain ⟨ys, -, hm⟩ := bind_eq_ok.1 hm
  cases hm
  exact List.ne_nil_of_mem ((hmem y).2 List.mem_cons_self)

end FilterSetBytes

/-! ## Sets of integers -/

/-- `FilterSetUint`: sorted, without duplicates. -/
structure FilterSetUint where
  items : List Nat
  sorted : items.Pairwise (· < ·)
  items_lt : ∀ n ∈ items, n < 2 ^ 64

namespace FilterSetUint

/-- `std::sort` followed by `std::unique`. -/
def ofArray (arr : List UInt64) : FilterSetUint where
  items := ((arr.map UInt64.toNat).dedup).insertionSort (· ≤ ·)
  sorted := by
    have hle := List.pairwise_insertionSort (· ≤ ·) (arr.map UInt64.toNat).dedup
    have hnd := (List.perm_insertionSort (· ≤ ·) (arr.map UInt64.toNat).dedup).nodup_iff.2
      (List.nodup_dedup _)
    exact hle.imp₂ (fun a b h hne => lt_of_le_of_ne h hne) hnd
  items_lt := by
    intro n hn
    rw [List.mem_insertionSort, List.mem_dedup, List.mem_map] at hn
    obtain ⟨m, -, rfl⟩ := hn
    exact m.toNat_lt

/-- The constructor of `FilterSetUint`. -/
def make (arr : Json) : Except Err FilterSetUint := do
  let xs ← arr.getArray
  let items ← xs.mapM Json.getUnsigned
  .ok (ofArray items)

def size (s : FilterSetUint) : Nat := s.items.length

/-- `at`. -/
def at? (s : FilterSetUint) (n : Nat) : Except Err Nat :=
  match s.items[n]? with
  | none => .error (.herr "FilterSetBytes access out of bounds")
  | some k => .ok k

/-- `std::binary_search` on the sorted items. -/
def doesMatch (s : FilterSetUint) (candidate : Nat) : Bool := s.items.contains candidate

theorem doesMatch_iff (s : FilterSetUint) (candidate : Nat) :
    s.doesMatch candidate = true ↔ candidate ∈ s.items := by
  simp [doesMatch]

theorem nodup_items (s : FilterSetUint) : s.items.Nodup := s.sorted.imp fun h => h.ne

theorem items_ne_nil_of_make {xs : List Json} {s : FilterSetUint} (h : make (.array xs) = .ok s)
    (hxs : xs ≠ []) : s.items ≠ [] := by
  obtain ⟨ys, hys, h⟩ := bind_eq_ok.1 h
  cases hys
  obtain ⟨x, xs, rfl⟩ := List.exists_cons_of_ne_nil hxs
  obtain ⟨items, hm, h⟩ := bind_eq_ok.1 h
  cases h
  rw [List.mapM_cons] at hm
  obtain ⟨y, -, hm⟩ := bind_eq_ok.1 hm
  obtain ⟨ys, -, hm⟩ := bind_eq_ok.1 hm
  cases hm
  have hy : y.toNat ∈ (ofArray (y :: ys)).items := by
    simp [ofArray, List.mem_insertionSort]
  exact List.ne_nil_of_mem hy

end FilterSetUint

end Strfry
