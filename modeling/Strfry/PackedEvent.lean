import Strfry.Json

/-!
# Packed events

A packed event is a byte buffer: a header of 88 bytes (id, pubkey, and created_at, kind and
expiration as 64-bit integers) and then the tags, each a name byte, a length byte and the value.
`PackedEvent` is its decoded content and carries the sizes the builders check, so every value of
the type has a buffer. `PackedEventView` reads a buffer; `view_bytes` shows that it reads back
the content of every buffer the builders make, so the rest of the development works on
`PackedEvent` directly.
-/

set_option autoImplicit false

namespace Strfry

open Lib

/-- A tag in a packed event: its name and its value. -/
abbrev Tag := UInt8 × Bytes

/-- The content of a packed event. -/
structure PackedEvent where
  id : Bytes
  pubkey : Bytes
  createdAt : Nat
  kind : Nat
  expiration : Nat
  tags : List Tag
  id_size : id.length = 32
  pubkey_size : pubkey.length = 32
  createdAt_lt : createdAt < 2 ^ 64
  kind_lt : kind < 2 ^ 64
  expiration_lt : expiration < 2 ^ 64
  tags_size : ∀ t ∈ tags, t.2.length ≤ 255
  deriving DecidableEq

/-- `PackedEventTagBuilder`: the tags added so far. -/
structure PackedEventTagBuilder where
  tags : List Tag
  tags_size : ∀ t ∈ tags, t.2.length ≤ 255

namespace PackedEventTagBuilder

theorem noTags_size : ∀ t ∈ ([] : List Tag), t.2.length ≤ 255 := fun _ h => absurd h List.not_mem_nil

def empty : PackedEventTagBuilder := ⟨[], noTags_size⟩

/-- `PackedEventTagBuilder::add`. -/
def add (b : PackedEventTagBuilder) (tagKey : UInt8) (tagVal : Bytes) :
    Except Err PackedEventTagBuilder :=
  if h : tagVal.length > 255 then .error (.herr "tagVal too long")
  else .ok ⟨b.tags ++ [(tagKey, tagVal)], by
    intro t ht
    rcases List.mem_append.1 ht with ht | ht
    · exact b.tags_size t ht
    · rw [List.mem_singleton] at ht
      subst ht
      exact not_lt.1 h⟩

theorem add_eq_ok {b c : PackedEventTagBuilder} {k : UInt8} {v : Bytes} (h : b.add k v = .ok c) :
    c.tags = b.tags ++ [(k, v)] := by
  unfold add at h
  split at h
  · cases h
  · cases h
    rfl

end PackedEventTagBuilder

/-- `PackedEventBuilder`. -/
def packedEventBuilder (id pubkey : Bytes) (createdAt kind expiration : UInt64)
    (tagBuilder : PackedEventTagBuilder) : Except Err PackedEvent :=
  if hid : id.length ≠ 32 then .error (.herr "unexpected id size")
  else if hpk : pubkey.length ≠ 32 then .error (.herr "unexpected pubkey size")
  else .ok
    { id := id, pubkey := pubkey, createdAt := createdAt.toNat, kind := kind.toNat,
      expiration := expiration.toNat, tags := tagBuilder.tags,
      id_size := not_not.1 hid, pubkey_size := not_not.1 hpk,
      createdAt_lt := createdAt.toNat_lt, kind_lt := kind.toNat_lt,
      expiration_lt := expiration.toNat_lt, tags_size := tagBuilder.tags_size }

theorem packedEventBuilder_eq_ok {id pubkey : Bytes} {createdAt kind expiration : UInt64}
    {tagBuilder : PackedEventTagBuilder} {p : PackedEvent}
    (h : packedEventBuilder id pubkey createdAt kind expiration tagBuilder = .ok p) :
    p.id = id ∧ p.pubkey = pubkey ∧ p.createdAt = createdAt.toNat ∧ p.kind = kind.toNat ∧
      p.expiration = expiration.toNat ∧ p.tags = tagBuilder.tags := by
  unfold packedEventBuilder at h
  split at h
  · cases h
  · split at h
    · cases h
    · cases h
      exact ⟨rfl, rfl, rfl, rfl, rfl, rfl⟩

/-! ## Buffers -/

/-- The buffer of a tag list. -/
def tagsBytes : List Tag → Bytes
  | [] => []
  | (k, v) :: rest => k :: UInt8.ofNat v.length :: v ++ tagsBytes rest

/-- The buffer of a packed event. -/
def PackedEvent.bytes (e : PackedEvent) : Bytes :=
  e.id ++ (e.pubkey ++ (le64 e.createdAt ++ (le64 e.kind ++ (le64 e.expiration ++
    tagsBytes e.tags))))

/-- `PackedEventView`: a buffer with a complete header. -/
structure PackedEventView where
  buf : Bytes
  size_le : 88 ≤ buf.length

namespace PackedEventView

/-- The constructor of `PackedEventView`. -/
def ofBytes (buf : Bytes) : Except Err PackedEventView :=
  if h : buf.length < 88 then .error (.herr "PackedEventView too short")
  else .ok ⟨buf, not_lt.1 h⟩

def id (v : PackedEventView) : Bytes := v.buf.take 32
def pubkey (v : PackedEventView) : Bytes := (v.buf.drop 32).take 32
def createdAt (v : PackedEventView) : Nat := ofLeBytes ((v.buf.drop 64).take 8)
def kind (v : PackedEventView) : Nat := ofLeBytes ((v.buf.drop 72).take 8)
def expiration (v : PackedEventView) : Nat := ofLeBytes ((v.buf.drop 80).take 8)

/-- The tags that `foreachTag` visits in `b` with a callback that always continues. A last byte
without a length byte is read past the end of the buffer, and a length that runs past the end
makes the next `substr` throw; both are `outOfRange` here. -/
def readTags : Nat → Bytes → Except Err (List Tag)
  | _, [] => .ok []
  | 0, _ :: _ => .error .outOfRange
  | _ + 1, [_] => .error .outOfRange
  | fuel + 1, k :: len :: b =>
    if b.length < len.toNat then .error .outOfRange
    else (readTags fuel (b.drop len.toNat)).map fun rest => (k, b.take len.toNat) :: rest

def tags (v : PackedEventView) : Except Err (List Tag) :=
  readTags v.buf.length (v.buf.drop 88)

end PackedEventView

theorem readTags_tagsBytes (ts : List Tag) (hts : ∀ t ∈ ts, t.2.length ≤ 255) (fuel : Nat)
    (hfuel : (tagsBytes ts).length ≤ fuel) :
    PackedEventView.readTags fuel (tagsBytes ts) = .ok ts := by
  induction ts generalizing fuel with
  | nil => cases fuel <;> rfl
  | cons t ts ih =>
    obtain ⟨k, v⟩ := t
    have hv : v.length ≤ 255 := hts (k, v) List.mem_cons_self
    have hlen : (UInt8.ofNat v.length).toNat = v.length := by
      rw [UInt8.toNat_ofNat']
      omega
    simp only [tagsBytes, List.cons_append, List.length_cons, List.length_append] at hfuel
    obtain ⟨n, rfl⟩ : ∃ n, fuel = n + 1 := ⟨fuel - 1, by omega⟩
    have hrest := ih (fun t ht => hts t (List.mem_cons_of_mem _ ht)) n (by omega)
    simp only [tagsBytes, List.cons_append, PackedEventView.readTags, hlen, List.drop_left,
      List.take_left, hrest, List.length_append]
    rw [if_neg (by omega)]
    rfl

theorem PackedEvent.header_size (e : PackedEvent) : 88 ≤ e.bytes.length := by
  simp only [PackedEvent.bytes, List.length_append, e.id_size, e.pubkey_size, length_le64]
  omega

/-- Reading a buffer back: the five header fields and the tags are those of the event. -/
theorem view_bytes (e : PackedEvent) :
    ∃ v, PackedEventView.ofBytes e.bytes = .ok v ∧ v.id = e.id ∧ v.pubkey = e.pubkey ∧
      v.createdAt = e.createdAt ∧ v.kind = e.kind ∧ v.expiration = e.expiration ∧
      v.tags = .ok e.tags := by
  have hid := e.id_size
  have hpk := e.pubkey_size
  have hdrop32 : e.bytes.drop 32 = e.pubkey ++ (le64 e.createdAt ++ (le64 e.kind ++
      (le64 e.expiration ++ tagsBytes e.tags))) := List.drop_left' hid
  have hdrop64 : e.bytes.drop 64 = le64 e.createdAt ++ (le64 e.kind ++ (le64 e.expiration ++
      tagsBytes e.tags)) := by
    rw [show 64 = 32 + 32 from rfl, ← List.drop_drop, hdrop32, List.drop_left' hpk]
  have hdrop72 : e.bytes.drop 72 = le64 e.kind ++ (le64 e.expiration ++ tagsBytes e.tags) := by
    rw [show 72 = 64 + 8 from rfl, ← List.drop_drop, hdrop64, List.drop_left' (length_le64 _)]
  have hdrop80 : e.bytes.drop 80 = le64 e.expiration ++ tagsBytes e.tags := by
    rw [show 80 = 72 + 8 from rfl, ← List.drop_drop, hdrop72, List.drop_left' (length_le64 _)]
  have hdrop88 : e.bytes.drop 88 = tagsBytes e.tags := by
    rw [show 88 = 80 + 8 from rfl, ← List.drop_drop, hdrop80, List.drop_left' (length_le64 _)]
  refine ⟨⟨e.bytes, e.header_size⟩, dif_neg (not_lt.2 e.header_size), List.take_left' hid,
    ?_, ?_, ?_, ?_, ?_⟩
  · rw [PackedEventView.pubkey, hdrop32, List.take_left' hpk]
  · rw [PackedEventView.createdAt, hdrop64, List.take_left' (length_le64 _),
      ofLeBytes_le64 e.createdAt_lt]
  · rw [PackedEventView.kind, hdrop72, List.take_left' (length_le64 _), ofLeBytes_le64 e.kind_lt]
  · rw [PackedEventView.expiration, hdrop80, List.take_left' (length_le64 _),
      ofLeBytes_le64 e.expiration_lt]
  · have hle : (tagsBytes e.tags).length ≤ e.bytes.length := by
      rw [← hdrop88, List.length_drop]
      omega
    rw [PackedEventView.tags, hdrop88]
    exact readTags_tagsBytes e.tags e.tags_size _ hle

/-- Different events have different buffers. -/
theorem PackedEvent.bytes_injective : Function.Injective PackedEvent.bytes := by
  intro a b h
  obtain ⟨v, hv, h1, h2, h3, h4, h5, h6⟩ := view_bytes a
  obtain ⟨w, hw, g1, g2, g3, g4, g5, g6⟩ := view_bytes b
  rw [h, hw] at hv
  cases hv
  rw [g6] at h6
  cases a
  cases b
  simp_all

end Strfry
