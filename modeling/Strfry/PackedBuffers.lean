import Strfry.PackedEvent
import Strfry.Lib.Walk

/-!
# The buffers of packed events

The builders append to a string, and `foreachTag` walks over one by index arithmetic: it takes the name
and the length of a tag from the first two bytes and cuts the value off behind them. `Splits` says what
a tag section is meant to be, a sequence of complete tags. `foreachTag` visits the tags of every section
that splits (`foreachTag_of_splits`), the builders make only sections that split, and a buffer whose
section splits is the one the builders make from what the view reads (`build_view`).
-/

set_option autoImplicit false

namespace Strfry

open Lib

/-! ## Tag sections -/

/-- The bytes are complete tags, one after the other. -/
inductive Splits : Bytes → List Tag → Prop
  | nil : Splits [] []
  | cons {name len : UInt8} {value rest : Bytes} {ts : List Tag} (hlen : value.length = len.toNat)
      (h : Splits rest ts) : Splits (name :: len :: (value ++ rest)) ((name, value) :: ts)

theorem splits_iff {b : Bytes} {ts : List Tag} :
    Splits b ts ↔ b = tagsBytes ts ∧ ∀ t ∈ ts, t.2.length ≤ 255 := by
  constructor
  · intro h
    induction h with
    | nil => exact ⟨rfl, nofun⟩
    | @cons name len value rest ts hlen _ ih =>
      obtain ⟨hrest, hts⟩ := ih
      constructor
      · rw [tagsBytes, hlen, UInt8.ofNat_toNat, hrest, List.cons_append, List.cons_append]
      · intro t ht
        rcases List.mem_cons.mp ht with rfl | ht
        · rw [hlen]
          exact Nat.le_of_lt_succ len.toNat_lt
        · exact hts t ht
  · rintro ⟨rfl, hts⟩
    induction ts with
    | nil => exact .nil
    | cons t ts ih =>
      have hlen : t.2.length = (UInt8.ofNat t.2.length).toNat := by
        have := hts t List.mem_cons_self
        rw [UInt8.toNat_ofNat']
        omega
      apply Splits.cons hlen
      exact ih fun x hx => hts x (List.mem_cons_of_mem _ hx)

/-- A section splits in one way. -/
theorem Splits.unique {b : Bytes} {ts us : List Tag} (h : Splits b ts) (h' : Splits b us) : ts = us := by
  obtain ⟨hb, hts⟩ := splits_iff.mp h
  obtain ⟨hb', hus⟩ := splits_iff.mp h'
  have hread := readTags_tagsBytes ts hts b.length (by rw [hb])
  have hread' := readTags_tagsBytes us hus b.length (by rw [hb'])
  rw [← hb] at hread
  rw [← hb', hread] at hread'
  exact Except.ok.inj hread'

namespace PackedBuffer

/-! ## The builders -/

/-- `PackedEventTagBuilder::add`, on the member `buf`. -/
def add (buf : Bytes) (tagKey : UInt8) (tagVal : Bytes) : Except Err Bytes :=
  if tagVal.length > 255 then .error (.herr "tagVal too long")
  else .ok (buf ++ [tagKey] ++ [UInt8.ofNat tagVal.length] ++ tagVal)

/-- `add` for each tag in order, on a new builder. -/
def addAll (tags : List Tag) : Except Err Bytes := tags.foldlM (fun buf t => add buf t.1 t.2) []

/-- `PackedEventBuilder`, with the buffer of the tag builder. -/
def build (id pubkey : Bytes) (createdAt kind expiration : UInt64) (tagBuf : Bytes) :
    Except Err Bytes :=
  if id.length ≠ 32 then .error (.herr "unexpected id size")
  else if pubkey.length ≠ 32 then .error (.herr "unexpected pubkey size")
  else .ok (id ++ pubkey ++ le64 createdAt.toNat ++ le64 kind.toNat ++ le64 expiration.toNat ++ tagBuf)

theorem tagsBytes_append (ts us : List Tag) : tagsBytes (ts ++ us) = tagsBytes ts ++ tagsBytes us := by
  induction ts with
  | nil => rfl
  | cons t ts ih =>
    obtain ⟨name, value⟩ := t
    rw [List.cons_append, tagsBytes, tagsBytes, ih, List.append_assoc]

theorem add_eq {ts : List Tag} {t : Tag} (ht : t.2.length ≤ 255) :
    add (tagsBytes ts) t.1 t.2 = .ok (tagsBytes (ts ++ [t])) := by
  rw [add, if_neg (not_lt.mpr ht), tagsBytes_append, tagsBytes, tagsBytes]
  simp only [List.append_assoc, List.append_nil, List.cons_append, List.nil_append]

/-- The buffer of a tag builder. -/
theorem addAll_eq {tags : List Tag} (h : ∀ t ∈ tags, t.2.length ≤ 255) :
    addAll tags = .ok (tagsBytes tags) := by
  have hgen : ∀ pre : List Tag, tags.foldlM (fun buf t => add buf t.1 t.2) (tagsBytes pre) =
      .ok (tagsBytes (pre ++ tags)) := by
    induction tags with
    | nil =>
      intro pre
      rw [List.append_nil]
      rfl
    | cons t tags ih =>
      intro pre
      have hrest := ih (fun x hx => h x (List.mem_cons_of_mem _ hx)) (pre ++ [t])
      rw [List.append_assoc, List.singleton_append] at hrest
      rw [List.foldlM_cons, add_eq (h t List.mem_cons_self)]
      exact hrest
  exact hgen []

/-- The builders on buffers are those on the decoded content. -/
theorem add_tagsBytes (b : PackedEventTagBuilder) (k : UInt8) (v : Bytes) :
    add (tagsBytes b.tags) k v = (b.add k v).map fun c => tagsBytes c.tags := by
  unfold PackedEventTagBuilder.add
  split
  · rename_i hlong
    rw [add, if_pos hlong]
    rfl
  · rename_i hshort
    have ht : ((k, v) : Tag).2.length ≤ 255 := not_lt.mp hshort
    exact add_eq ht

theorem build_tagsBytes (id pubkey : Bytes) (createdAt kind expiration : UInt64)
    (b : PackedEventTagBuilder) : build id pubkey createdAt kind expiration (tagsBytes b.tags) =
      (packedEventBuilder id pubkey createdAt kind expiration b).map PackedEvent.bytes := by
  unfold build packedEventBuilder
  split
  · rfl
  · split
    · rfl
    · simp only [Except.map, PackedEvent.bytes, List.append_assoc]

end PackedBuffer

/-! ## The view -/

namespace PackedEventView

/-- The loop of `foreachTag` over the bytes that are left. A last byte without a length byte is read past
the end of the buffer; the value that is cut off may be short, and the next `substr` throws then. -/
def foreachTagLoop {σ : Type} (cb : σ → Tag → σ × Bool) (s : σ) : Bytes → σ × Except Err Bytes
  | [] => (s, .ok [])
  | [_] => (s, .error .outOfRange)
  | name :: len :: b =>
    let r := cb s (name, b.take len.toNat)
    if r.2 then
      if b.length < len.toNat then (r.1, .error .outOfRange)
      else foreachTagLoop cb r.1 (b.drop len.toNat)
    else (r.1, .ok (name :: len :: b))
termination_by b => b.length

/-- `foreachTag`: the state of the callback at the end, and the bytes that are left. -/
def foreachTag {σ : Type} (v : PackedEventView) (cb : σ → Tag → σ × Bool) (s : σ) :
    σ × Except Err Bytes :=
  foreachTagLoop cb s (v.buf.drop 88)

/-- A walk over the bytes is a walk over the tags. -/
theorem foreachTagLoop_of_splits {σ : Type} {b : Bytes} {ts : List Tag} (h : Splits b ts)
    (cb : σ → Tag → σ × Bool) (s : σ) :
    foreachTagLoop cb s b = ((walk cb s ts).1, .ok (tagsBytes (walk cb s ts).2)) := by
  induction h generalizing s with
  | nil =>
    rw [foreachTagLoop]
    rfl
  | @cons name len value rest ts hlen htail ih =>
    have hcut : (value ++ rest).take len.toNat = value := List.take_left' hlen
    have hskip : (value ++ rest).drop len.toNat = rest := List.drop_left' hlen
    have hlong : ¬ (value ++ rest).length < len.toNat := by
      rw [List.length_append]
      omega
    have hbytes : tagsBytes ((name, value) :: ts) = name :: len :: (value ++ rest) :=
      ((splits_iff.mp (.cons hlen htail)).1).symm
    rw [foreachTagLoop, walk]
    simp only [hcut, hskip, if_neg hlong]
    split
    · exact ih _
    · rw [hbytes]

theorem foreachTag_of_splits {σ : Type} {v : PackedEventView} {ts : List Tag}
    (h : Splits (v.buf.drop 88) ts) (cb : σ → Tag → σ × Bool) (s : σ) :
    v.foreachTag cb s = ((walk cb s ts).1, .ok (tagsBytes (walk cb s ts).2)) :=
  foreachTagLoop_of_splits h cb s

/-- The callback that notes every tag. -/
def note (seen : List Tag) (t : Tag) : List Tag × Bool := (seen ++ [t], true)

theorem stateAfter_note (seen ts : List Tag) : stateAfter note seen ts = seen ++ ts := by
  induction ts generalizing seen with
  | nil => exact (List.append_nil seen).symm
  | cons t ts ih =>
    show stateAfter note (seen ++ [t]) ts = seen ++ t :: ts
    rw [ih, List.append_assoc, List.singleton_append]

/-- The tags are noted to the end of the buffer. -/
theorem foreachTag_note {v : PackedEventView} {ts : List Tag} (h : Splits (v.buf.drop 88) ts) :
    v.foreachTag note [] = (ts, .ok []) := by
  rw [foreachTag_of_splits h, walk_of_continues (continues_of_forall (fun _ _ => rfl) _ _),
    stateAfter_note]
  rfl

/-- What a view with these fields and tags shows. -/
structure Shows (v : PackedEventView) (id pubkey : Bytes) (createdAt kind expiration : UInt64)
    (tags : List Tag) : Prop where
  id : v.id = id
  pubkey : v.pubkey = pubkey
  createdAt : v.createdAt = createdAt.toNat
  kind : v.kind = kind.toNat
  expiration : v.expiration = expiration.toNat
  /-- A callback that continues is given all tags, in order, up to the end of the buffer. -/
  all : ∀ {σ : Type} (cb : σ → Tag → σ × Bool) (s : σ), Continues cb s tags →
    v.foreachTag cb s = (stateAfter cb s tags, .ok [])
  /-- A callback that stops has been given the tags up to the one on which it stopped. -/
  upTo : ∀ {σ : Type} (cb : σ → Tag → σ × Bool) (s : σ) (pre : List Tag) (t : Tag) (post : List Tag),
    tags = pre ++ t :: post → Continues cb s pre → (cb (stateAfter cb s pre) t).2 = false →
    v.foreachTag cb s = (stateAfter cb s (pre ++ [t]), .ok (tagsBytes (t :: post)))

end PackedEventView

namespace PackedBuffer

/-- The buffer of the builders, read through a view. -/
theorem shows_build {id pubkey : Bytes} {createdAt kind expiration : UInt64} {tags : List Tag}
    (hid : id.length = 32) (hpubkey : pubkey.length = 32) (htags : ∀ t ∈ tags, t.2.length ≤ 255) :
    ∃ tagBuf buf v, addAll tags = .ok tagBuf ∧
      build id pubkey createdAt kind expiration tagBuf = .ok buf ∧
      PackedEventView.ofBytes buf = .ok v ∧
      v.Shows id pubkey createdAt kind expiration tags := by
  let e : PackedEvent :=
    { id := id, pubkey := pubkey, createdAt := createdAt.toNat, kind := kind.toNat,
      expiration := expiration.toNat, tags := tags, id_size := hid, pubkey_size := hpubkey,
      createdAt_lt := createdAt.toNat_lt, kind_lt := kind.toNat_lt,
      expiration_lt := expiration.toNat_lt, tags_size := htags }
  obtain ⟨v, hv, h1, h2, h3, h4, h5, -⟩ := view_bytes e
  have hbuild : build id pubkey createdAt kind expiration (tagsBytes tags) = .ok e.bytes := by
    rw [build, if_neg (not_not.mpr hid), if_neg (not_not.mpr hpubkey), PackedEvent.bytes]
    simp only [List.append_assoc, e]
  have hbuf : v.buf.drop 88 = tagsBytes tags := by
    obtain ⟨hle, rfl⟩ : ∃ hle, v = ⟨e.bytes, hle⟩ := by
      unfold PackedEventView.ofBytes at hv
      split at hv
      · cases hv
      · exact ⟨e.header_size, (Except.ok.inj hv).symm⟩
    show e.bytes.drop 88 = tagsBytes tags
    have hheader : (e.id ++ e.pubkey ++ le64 e.createdAt ++ le64 e.kind ++
        le64 e.expiration).length = 88 := by
      simp only [List.length_append, e.id_size, e.pubkey_size, length_le64]
    have happend : e.bytes = (e.id ++ e.pubkey ++ le64 e.createdAt ++ le64 e.kind ++
        le64 e.expiration) ++ tagsBytes e.tags := by
      simp only [PackedEvent.bytes, List.append_assoc]
    rw [happend]
    exact List.drop_left' hheader
  have hsplits : Splits (v.buf.drop 88) tags := splits_iff.mpr ⟨hbuf, htags⟩
  refine ⟨_, _, v, addAll_eq htags, hbuild, hv, h1, h2, h3, h4, h5, ?_, ?_⟩
  · intro σ cb s hcb
    rw [PackedEventView.foreachTag_of_splits hsplits, walk_of_continues hcb]
    rfl
  · rintro σ cb s pre t post rfl hpre hstop
    rw [PackedEventView.foreachTag_of_splits hsplits, walk_of_stops hpre hstop]

/-- A buffer with a header is its five fields and the tag section. -/
theorem header_append (buf : Bytes) : buf.take 32 ++ (buf.drop 32).take 32 ++ (buf.drop 64).take 8 ++
    (buf.drop 72).take 8 ++ (buf.drop 80).take 8 ++ buf.drop 88 = buf := by
  have hcut : ∀ i n, (buf.drop i).take n ++ buf.drop (i + n) = buf.drop i := by
    intro i n
    rw [← List.drop_drop]
    exact List.take_append_drop n _
  rw [List.append_assoc, hcut 80 8, List.append_assoc, hcut 72 8, List.append_assoc, hcut 64 8,
    List.append_assoc, hcut 32 32]
  exact List.take_append_drop 32 buf

/-- A buffer whose tag section splits is made by the builders from what the view reads. -/
theorem build_view {buf : Bytes} {ts : List Tag} (hsize : 88 ≤ buf.length)
    (hsplits : Splits (buf.drop 88) ts) :
    ∃ v tagBuf, PackedEventView.ofBytes buf = .ok v ∧ v.foreachTag PackedEventView.note [] = (ts, .ok []) ∧
      v.createdAt < 2 ^ 64 ∧ v.kind < 2 ^ 64 ∧ v.expiration < 2 ^ 64 ∧ addAll ts = .ok tagBuf ∧
      build v.id v.pubkey (.ofNat v.createdAt) (.ofNat v.kind) (.ofNat v.expiration) tagBuf = .ok buf := by
  obtain ⟨htail, hts⟩ := splits_iff.mp hsplits
  have hfield : ∀ i, i + 8 ≤ 88 → ((buf.drop i).take 8).length = 8 := by
    intro i hi
    rw [List.length_take, List.length_drop]
    omega
  have hlt : ∀ i, i + 8 ≤ 88 → ofLeBytes ((buf.drop i).take 8) < 2 ^ 64 := by
    intro i hi
    have hbound := ofLeBytes_lt ((buf.drop i).take 8)
    rw [hfield i hi] at hbound
    exact hbound
  have hread : ∀ i, i + 8 ≤ 88 →
      le64 (UInt64.ofNat (ofLeBytes ((buf.drop i).take 8))).toNat = (buf.drop i).take 8 := by
    intro i hi
    rw [UInt64.toNat_ofNat_of_lt' (hlt i hi), le64_ofLeBytes (hfield i hi)]
  have hid : (buf.take 32).length = 32 := by
    rw [List.length_take]
    omega
  have hpubkey : ((buf.drop 32).take 32).length = 32 := by
    rw [List.length_take, List.length_drop]
    omega
  refine ⟨⟨buf, hsize⟩, tagsBytes ts, dif_neg (not_lt.mpr hsize),
    PackedEventView.foreachTag_note hsplits, hlt 64 (by omega), hlt 72 (by omega), hlt 80 (by omega),
    addAll_eq hts, ?_⟩
  show build (buf.take 32) ((buf.drop 32).take 32) (.ofNat (ofLeBytes ((buf.drop 64).take 8)))
    (.ofNat (ofLeBytes ((buf.drop 72).take 8))) (.ofNat (ofLeBytes ((buf.drop 80).take 8)))
    (tagsBytes ts) = .ok buf
  rw [build, if_neg (not_not.mpr hid), if_neg (not_not.mpr hpubkey), hread 64 (by omega),
    hread 72 (by omega), hread 80 (by omega), ← htail, header_append]

/-- Reading inverts building, and building inverts reading. -/
theorem build_shows_and_view_builds :
    (∀ (id pubkey : Bytes) (createdAt kind expiration : UInt64) (tags : List Tag),
      id.length = 32 → pubkey.length = 32 → (∀ t ∈ tags, t.2.length ≤ 255) →
        ∃ tagBuf buf v, addAll tags = .ok tagBuf ∧
          build id pubkey createdAt kind expiration tagBuf = .ok buf ∧
          PackedEventView.ofBytes buf = .ok v ∧
          v.Shows id pubkey createdAt kind expiration tags) ∧
      ∀ (buf : Bytes) (ts : List Tag), 88 ≤ buf.length → Splits (buf.drop 88) ts →
        ∃ v tagBuf, PackedEventView.ofBytes buf = .ok v ∧
          v.foreachTag PackedEventView.note [] = (ts, .ok []) ∧
          v.createdAt < 2 ^ 64 ∧ v.kind < 2 ^ 64 ∧ v.expiration < 2 ^ 64 ∧
          addAll ts = .ok tagBuf ∧
          build v.id v.pubkey (.ofNat v.createdAt) (.ofNat v.kind) (.ofNat v.expiration) tagBuf =
            .ok buf :=
  ⟨fun _ _ _ _ _ _ hid hpubkey htags => shows_build hid hpubkey htags,
    fun _ _ hsize hsplits => build_view hsize hsplits⟩

/-- A tag with an empty value and one with 255 bytes, there and back. -/
theorem build_shows_and_view_builds_extremes :
    (∃ tagBuf buf v, addAll [(116, []), (101, List.replicate 255 7)] = .ok tagBuf ∧
      build (List.replicate 32 1) (List.replicate 32 2) 3 1 0 tagBuf = .ok buf ∧
      PackedEventView.ofBytes buf = .ok v ∧
      v.Shows (List.replicate 32 1) (List.replicate 32 2) 3 1 0
        [(116, []), (101, List.replicate 255 7)]) ∧
      ∃ v tagBuf, PackedEventView.ofBytes (List.replicate 90 0) = .ok v ∧
        v.foreachTag PackedEventView.note [] = ([(0, [])], .ok []) ∧
        v.createdAt < 2 ^ 64 ∧ v.kind < 2 ^ 64 ∧ v.expiration < 2 ^ 64 ∧
        addAll [(0, [])] = .ok tagBuf ∧
        build v.id v.pubkey (.ofNat v.createdAt) (.ofNat v.kind) (.ofNat v.expiration) tagBuf =
          .ok (List.replicate 90 0) := by
  refine ⟨build_shows_and_view_builds.1 _ _ _ _ _ _ rfl rfl ?_,
    build_shows_and_view_builds.2 _ _ (by decide) (splits_iff.mpr ⟨rfl, by decide⟩)⟩
  intro t ht
  rcases List.mem_pair.mp ht with rfl | rfl
  · exact Nat.zero_le 255
  · exact (List.length_replicate).le

end PackedBuffer

end Strfry
