import Strfry.Filters

/-!
# What a match means

`doesMatch` compares packed events with compiled filters. `JsonMatch` says the same about the JSON
of both, without sorted buffers, offsets and encoders: every member of the filter object puts its
own condition on the event. The members of an object are a `std::map` in the source, so that their
keys are distinct.
-/

set_option autoImplicit false

namespace Strfry

open Lib

/-! ## Events -/

/-- The value of a tag: its second field, or the empty string. -/
def jsonTagValue : List Json → Bytes
  | .string s :: _ => s
  | _ => []

/-- The tag that is indexed for an element of `tags`: its name has one byte, and its value at most
255. The values of `e` and `p` are decoded. -/
def jsonTag (hex : HexCodec) : Json → Option Tag
  | .array (.string [x] :: rest) =>
    if x = tagE ∨ x = tagP then (hex.fromHex (jsonTagValue rest)).toOption.map fun b => (x, b)
    else if (jsonTagValue rest).length ≤ maxIndexedTagValSize then some (x, jsonTagValue rest)
    else none
  | _ => none

/-- The indexed tags of an event: its own, and a virtual `d` tag for the kinds that replace. -/
def jsonTags (hex : HexCodec) (kind : UInt64) (tags : List Json) : List Tag :=
  tags.filterMap (jsonTag hex) ++ if isReplacing kind.toNat then [(tagD, [])] else []

/-! ## Filters -/

namespace Json

/-- The members of an object. -/
def members : Json → List (Bytes × Json)
  | object kvs => kvs
  | _ => []

/-- The keys of an object are distinct. -/
def DistinctKeys (v : Json) : Prop := (v.members.map Prod.fst).Nodup

/-- The strings in an array. -/
def strings : Json → List Bytes
  | array xs => xs.filterMap fun x => x.getString.toOption
  | _ => []

/-- The strings in an array, decoded from hex. -/
def decoded (hex : HexCodec) (v : Json) : List Bytes :=
  v.strings.filterMap fun s => (hex.fromHex s).toOption

/-- The unsigned integers in an array. -/
def unsigneds : Json → List UInt64
  | array xs => xs.filterMap fun x => x.getUnsigned.toOption
  | _ => []

/-- The values that are listed under a tag name. -/
def tagValues (hex : HexCodec) (x : UInt8) (v : Json) : List Bytes :=
  if x = tagP ∨ x = tagE then v.decoded hex else v.strings

end Json

/-- The condition of one member of a filter on an event. -/
structure MemberMatch (hex : HexCodec) (event : Json) (k : Bytes) (v : Json) : Prop where
  ids : k = ascii "ids" → ∃ s b, event.member "id" = .ok (.string s) ∧ hex.fromHex s = .ok b ∧
    b ∈ v.decoded hex
  authors : k = ascii "authors" → ∃ s b, event.member "pubkey" = .ok (.string s) ∧
    hex.fromHex s = .ok b ∧ b ∈ v.decoded hex
  kinds : k = ascii "kinds" → ∃ n, event.member "kind" = .ok (.unsigned n) ∧ n ∈ v.unsigneds
  since : k = ascii "since" → ∃ n t, v = .unsigned n ∧
    event.member "created_at" = .ok (.unsigned t) ∧ n.toNat ≤ t.toNat
  until_ : k = ascii "until" → ∃ n t, v = .unsigned n ∧
    event.member "created_at" = .ok (.unsigned t) ∧ t.toNat ≤ n.toNat
  tag : ∀ x, k = [35, x] → ∃ n tags val, event.member "kind" = .ok (.unsigned n) ∧
    event.member "tags" = .ok (.array tags) ∧ (x, val) ∈ jsonTags hex n tags ∧
    val ∈ v.tagValues hex x

/-- An event matches a filter: none of its members is an empty array, and the event meets the
condition of each of them. -/
structure JsonMatch (hex : HexCodec) (filterObj event : Json) : Prop where
  no_empty : ¬ filterObj.HasEmptyArray
  members : ∀ kv ∈ filterObj.members, MemberMatch hex event kv.1 kv.2

/-! ## The encoder -/

theorem tagValue_eq_ok {rest : List Json} {val : Bytes} (h : tagValue rest = .ok val) :
    jsonTagValue rest = val := by
  cases rest with
  | nil =>
    cases h
    rfl
  | cons second rest =>
    rw [tagValue, jsonGetString_eq_ok] at h
    subst h
    rfl

/-- A step of the encoder appends the indexed tag. -/
theorem packTag_jsonTag {hex : HexCodec} {cfg : EventsConfig} {st st' : TagLoop} {j : Json}
    (h : packTag hex cfg st j = .ok st') :
    st'.tagBuilder.tags = st.tagBuilder.tags ++ (jsonTag hex j).toList := by
  unfold packTag at h
  obtain ⟨tag, hj, hfields⟩ := bind_eq_ok.1 h
  clear h
  rw [jsonGetArray_eq_ok] at hj
  subst hj
  cases tag with
  | nil => cases hfields
  | cons first rest =>
    obtain ⟨name, hname, hvalue⟩ := bind_eq_ok.1 hfields
    clear hfields
    rw [jsonGetString_eq_ok] at hname
    subst hname
    obtain ⟨val, hval, h⟩ := bind_eq_ok.1 hvalue
    clear hvalue
    have hval' := tagValue_eq_ok hval
    split at h
    · rename_i hep
      split at h
      · cases h
      · obtain ⟨decoded, hdec, h⟩ := bind_eq_ok.1 h
        obtain ⟨b, hb, h⟩ := bind_eq_ok.1 h
        cases h
        rw [PackedEventTagBuilder.add_eq_ok hb]
        have hx : ∃ x, name = [x] ∧ (x = tagE ∨ x = tagP) := by
          rcases hep with rfl | rfl
          · exact ⟨_, rfl, Or.inl rfl⟩
          · exact ⟨_, rfl, Or.inr rfl⟩
        obtain ⟨x, rfl, hx⟩ := hx
        rw [jsonTag, if_pos hx, hval', hdec]
        rfl
    · rename_i hep
      split at h
      · rename_i hexp
        -- an expiration is not indexed
        subst hexp
        have hnone : jsonTag hex (.array (.string (ascii "expiration") :: rest)) = none := rfl
        rw [hnone, Option.toList_none, List.append_nil]
        split at h
        · obtain ⟨e, -, h⟩ := bind_eq_ok.1 h
          split at h
          · cases h
          · cases h
            rfl
        · cases h
          rfl
      · split at h
        · rename_i hone
          obtain ⟨x, rfl⟩ := List.length_eq_one_iff.1 hone
          have hx : ¬ (x = tagE ∨ x = tagP) := by
            rintro (rfl | rfl)
            · exact hep (Or.inl rfl)
            · exact hep (Or.inr rfl)
          rw [jsonTag, if_neg hx, hval']
          split at h
          · cases h
          · split at h
            · rename_i hle
              obtain ⟨b, hb, h⟩ := bind_eq_ok.1 h
              cases h
              rw [PackedEventTagBuilder.add_eq_ok hb, if_pos hle]
              rfl
            · rename_i hgt
              cases h
              rw [if_neg hgt, Option.toList_none, List.append_nil]
        · rename_i hlen
          cases h
          have hnone : jsonTag hex (.array (.string name :: rest)) = none := by
            unfold jsonTag
            split
            · rename_i heq
              cases heq
              exact absurd rfl hlen
            · rfl
          rw [hnone, Option.toList_none, List.append_nil]

theorem packTags_jsonTags {hex : HexCodec} {cfg : EventsConfig} {js : List Json} {st st' : TagLoop}
    (h : js.foldlM (packTag hex cfg) st = .ok st') :
    st'.tagBuilder.tags = st.tagBuilder.tags ++ js.filterMap (jsonTag hex) := by
  induction js generalizing st with
  | nil =>
    cases h
    rw [List.filterMap_nil, List.append_nil]
  | cons j js ih =>
    rw [List.foldlM_cons] at h
    obtain ⟨mid, hmid, h⟩ := bind_eq_ok.1 h
    rw [ih h, packTag_jsonTag hmid, List.append_assoc]
    cases hj : jsonTag hex j with
    | none => rw [List.filterMap_cons_none hj, Option.toList_none, List.nil_append]
    | some t => rw [List.filterMap_cons_some hj, Option.toList_some, List.singleton_append]

/-- The packed tags of an event are its indexed tags. -/
theorem EventFields.mem_tags {hex : HexCodec} {cfg : EventsConfig} {v : Json} {p : PackedEvent}
    (fields : EventFields hex cfg v p) (t : Tag) :
    t ∈ p.tags ↔ t ∈ jsonTags hex fields.kind fields.tags := by
  obtain ⟨start, st, b, hstart, hst, hb, htags⟩ := fields.packed
  rw [htags, addVirtualTag_tags hb, packTags_jsonTags hst, addVirtualTag_tags hstart,
    PackedEventTagBuilder.empty, jsonTags, isReplacing, ← fields.kind_eq]
  cases isReplaceableKind p.kind <;> cases isParamReplaceableKind p.kind <;>
    simp [or_comm]

/-! ## The sets of a filter -/

theorem mem_of_mapM_eq_ok {α β : Type} {f : α → Except Err β} {xs : List α} {ys : List β}
    (h : xs.mapM f = .ok ys) :
    (∀ x ∈ xs, ∃ y ∈ ys, f x = .ok y) ∧ ∀ y ∈ ys, ∃ x ∈ xs, f x = .ok y := by
  induction xs generalizing ys with
  | nil =>
    cases h
    exact ⟨nofun, nofun⟩
  | cons x xs ih =>
    rw [List.mapM_cons] at h
    obtain ⟨y, hy, h⟩ := bind_eq_ok.1 h
    obtain ⟨ys, hys, h⟩ := bind_eq_ok.1 h
    cases h
    obtain ⟨hto, hfrom⟩ := ih hys
    refine ⟨List.forall_mem_cons.2 ⟨⟨y, List.mem_cons_self, hy⟩, ?_⟩,
      List.forall_mem_cons.2 ⟨⟨x, List.mem_cons_self, hy⟩, ?_⟩⟩
    · intro x' hx'
      obtain ⟨y', hy', hf⟩ := hto x' hx'
      exact ⟨y', List.mem_cons_of_mem _ hy', hf⟩
    · intro y' hy'
      obtain ⟨x', hx', hf⟩ := hfrom y' hy'
      exact ⟨x', List.mem_cons_of_mem _ hx', hf⟩

theorem decodeItem_eq_ok {hex : HexCodec} {hexDecode : Bool} {minSize maxSize : Nat} {v : Json}
    {item : Bytes} (h : FilterSetBytes.decodeItem hex hexDecode minSize maxSize v = .ok item) :
    ∃ text, v = .string text ∧ FilterSetBytes.decodeText hex hexDecode text = .ok item := by
  obtain ⟨text, htext, h⟩ := bind_eq_ok.1 h
  obtain ⟨item', hitem, h⟩ := bind_eq_ok.1 h
  have hv : v = .string text := by
    cases v with
    | string s =>
      cases htext
      rfl
    | _ => cases htext
  refine ⟨text, hv, ?_⟩
  split at h
  · cases h
  · split at h
    · cases h
    · cases h
      exact hitem

/-- The elements of a set of byte strings are the decoded strings of its array. -/
theorem FilterSetBytes.mem_elems_of_make {hex : HexCodec} {v : Json} {hexDecode : Bool}
    {minSize maxSize : Nat} {s : FilterSetBytes} (h : make hex v hexDecode minSize maxSize = .ok s)
    (b : Bytes) :
    b ∈ s.elems ↔ ∃ text ∈ v.strings, decodeText hex hexDecode text = .ok b := by
  obtain ⟨xs, arr, rfl, hm, hmem, -⟩ := make_eq_ok h
  obtain ⟨hto, hfrom⟩ := mem_of_mapM_eq_ok hm
  rw [hmem, Json.strings]
  constructor
  · intro hb
    obtain ⟨x, hx, hitem⟩ := hfrom b hb
    obtain ⟨text, rfl, htext⟩ := decodeItem_eq_ok hitem
    exact ⟨text, List.mem_filterMap.2 ⟨_, hx, rfl⟩, htext⟩
  · rintro ⟨text, hmem, htext⟩
    obtain ⟨x, hx, hstr⟩ := List.mem_filterMap.1 hmem
    obtain ⟨b', hb', hitem⟩ := hto x hx
    obtain ⟨text', rfl, htext'⟩ := decodeItem_eq_ok hitem
    cases hstr
    rw [htext] at htext'
    cases htext'
    exact hb'

theorem mem_decoded_of_make {hex : HexCodec} {v : Json} {s : FilterSetBytes}
    (h : FilterSetBytes.make hex v true 32 32 = .ok s) (b : Bytes) :
    b ∈ s.elems ↔ b ∈ v.decoded hex := by
  rw [FilterSetBytes.mem_elems_of_make h, Json.decoded, List.mem_filterMap]
  refine exists_congr fun text => and_congr_right fun _ => ?_
  rw [FilterSetBytes.decodeText, if_pos rfl]
  exact toOption_eq_some.symm

theorem mem_tagValues_of_tagFilterSet {hex : HexCodec} {x : UInt8} {v : Json} {s : FilterSetBytes}
    (h : tagFilterSet hex x v = .ok s) (b : Bytes) : b ∈ s.elems ↔ b ∈ v.tagValues hex x := by
  rw [tagFilterSet] at h
  rw [Json.tagValues]
  split at h
  · rename_i hpe
    rw [if_pos hpe]
    exact mem_decoded_of_make h b
  · rename_i hpe
    rw [if_neg hpe, FilterSetBytes.mem_elems_of_make h]
    simp [FilterSetBytes.decodeText]

theorem mem_unsigneds_of_make {v : Json} {s : FilterSetUint} (h : FilterSetUint.make v = .ok s)
    (n : UInt64) : n.toNat ∈ s.items ↔ n ∈ v.unsigneds := by
  obtain ⟨xs, hxs, h⟩ := bind_eq_ok.1 h
  obtain ⟨items, hm, h⟩ := bind_eq_ok.1 h
  cases h
  obtain ⟨hto, hfrom⟩ := mem_of_mapM_eq_ok hm
  have hv : v = .array xs := by
    cases v with
    | array ys =>
      cases hxs
      rfl
    | _ => cases hxs
  subst hv
  simp only [FilterSetUint.ofArray, List.mem_insertionSort, List.mem_dedup, List.mem_map,
    UInt64.toNat_inj, exists_eq_right, Json.unsigneds, List.mem_filterMap]
  constructor
  · intro hn
    obtain ⟨x, hx, hget⟩ := hfrom n hn
    exact ⟨x, hx, by rw [hget]; rfl⟩
  · rintro ⟨x, hx, hget⟩
    obtain ⟨n', hn', hget'⟩ := hto x hx
    rw [hget'] at hget
    cases hget
    exact hn'

/-! ## Members of a filter -/

/-- The conditions of a compiled filter on an event, `neverMatch` apart. -/
structure NostrFilter.Meets (f : NostrFilter) (p : PackedEvent) : Prop where
  since : f.since ≤ p.createdAt
  until_ : p.createdAt ≤ f.until_
  ids : ∀ s, f.ids = some s → p.id ∈ s.elems
  authors : ∀ s, f.authors = some s → p.pubkey ∈ s.elems
  kinds : ∀ s, f.kinds = some s → p.kind ∈ s.items
  tags : ∀ t ∈ f.tags, ∃ v, (t.1, v) ∈ p.tags ∧ v ∈ t.2.elems

theorem NostrFilter.doesMatch_iff_meets (f : NostrFilter) (p : PackedEvent) :
    f.doesMatch p = true ↔ f.neverMatch = false ∧ f.Meets p := by
  rw [NostrFilter.doesMatch_iff]
  constructor
  · rintro ⟨hnever, ⟨hsince, huntil⟩, hids, hauthors, hkinds, htags⟩
    exact ⟨hnever, hsince, huntil, hids, hauthors, hkinds, htags⟩
  · rintro ⟨hnever, h⟩
    exact ⟨hnever, ⟨h.since, h.until_⟩, h.ids, h.authors, h.kinds, h.tags⟩

/-- The member `k` has not been read yet. -/
structure NostrFilter.Unset (f : NostrFilter) (k : Bytes) : Prop where
  since : k = ascii "since" → f.since = 0
  until_ : k = ascii "until" → f.until_ = maxU64
  ids : k = ascii "ids" → f.ids = none
  authors : k = ascii "authors" → f.authors = none
  kinds : k = ascii "kinds" → f.kinds = none
  tags : ∀ x, k = [35, x] → ∀ t ∈ f.tags, t.1 ≠ x

/-- What reading one member does to the conditions, and that it leaves the other members unread. -/
structure Reads (hex : HexCodec) (event : Json) (p : PackedEvent) (f f' : NostrFilter) (k : Bytes)
    (v : Json) : Prop where
  meets : f.Unset k → (f'.Meets p ↔ f.Meets p ∧ MemberMatch hex event k v)
  unset : ∀ k', k' ≠ k → f.Unset k' → f'.Unset k'

section Members

variable {hex : HexCodec} {cfg : EventsConfig} {event : Json} {p : PackedEvent} {f : NostrFilter}

theorem reads_ids (fields : EventFields hex cfg event p) {v : Json} {s : FilterSetBytes}
    (h : FilterSetBytes.make hex v true 32 32 = .ok s) :
    Reads hex event p f { f with ids := some s } (ascii "ids") v := by
  refine ⟨fun hun => ⟨fun hm => ⟨{ hm with ids := ?_ }, ?_⟩, fun hm => { hm.1 with ids := ?_ }⟩,
    fun k' hne hun => { hun with ids := fun hk => absurd hk hne }⟩
  · intro s' hs'
    rw [hun.ids rfl] at hs'
    cases hs'
  · refine ⟨fun _ => ?_, nofun, nofun, nofun, nofun, nofun⟩
    exact ⟨_, _, fields.member_id, fields.id_eq, (mem_decoded_of_make h _).1 (hm.ids s rfl)⟩
  · rintro s' ⟨rfl⟩
    obtain ⟨t, b, ht, hb, hmem⟩ := hm.2.ids rfl
    rw [fields.member_id] at ht
    cases ht
    rw [fields.id_eq] at hb
    cases hb
    exact (mem_decoded_of_make h _).2 hmem

theorem reads_authors (fields : EventFields hex cfg event p) {v : Json} {s : FilterSetBytes}
    (h : FilterSetBytes.make hex v true 32 32 = .ok s) :
    Reads hex event p f { f with authors := some s } (ascii "authors") v := by
  refine ⟨fun hun => ⟨fun hm => ⟨{ hm with authors := ?_ }, ?_⟩,
    fun hm => { hm.1 with authors := ?_ }⟩,
    fun k' hne hun => { hun with authors := fun hk => absurd hk hne }⟩
  · intro s' hs'
    rw [hun.authors rfl] at hs'
    cases hs'
  · refine ⟨nofun, fun _ => ?_, nofun, nofun, nofun, nofun⟩
    exact ⟨_, _, fields.member_pubkey, fields.pubkey_eq,
      (mem_decoded_of_make h _).1 (hm.authors s rfl)⟩
  · rintro s' ⟨rfl⟩
    obtain ⟨t, b, ht, hb, hmem⟩ := hm.2.authors rfl
    rw [fields.member_pubkey] at ht
    cases ht
    rw [fields.pubkey_eq] at hb
    cases hb
    exact (mem_decoded_of_make h _).2 hmem

theorem reads_kinds (fields : EventFields hex cfg event p) {v : Json} {s : FilterSetUint}
    (h : FilterSetUint.make v = .ok s) :
    Reads hex event p f { f with kinds := some s } (ascii "kinds") v := by
  refine ⟨fun hun => ⟨fun hm => ⟨{ hm with kinds := ?_ }, ?_⟩,
    fun hm => { hm.1 with kinds := ?_ }⟩,
    fun k' hne hun => { hun with kinds := fun hk => absurd hk hne }⟩
  · intro s' hs'
    rw [hun.kinds rfl] at hs'
    cases hs'
  · refine ⟨nofun, nofun, fun _ => ?_, nofun, nofun, nofun⟩
    refine ⟨_, fields.member_kind, (mem_unsigneds_of_make h _).1 ?_⟩
    rw [← fields.kind_eq]
    exact hm.kinds s rfl
  · rintro s' ⟨rfl⟩
    obtain ⟨n, hn, hmem⟩ := hm.2.kinds rfl
    rw [fields.member_kind] at hn
    cases hn
    rw [fields.kind_eq]
    exact (mem_unsigneds_of_make h _).2 hmem

theorem reads_since (fields : EventFields hex cfg event p) (n : UInt64) :
    Reads hex event p f { f with since := n.toNat } (ascii "since") (.unsigned n) := by
  refine ⟨fun hun => ⟨fun hm => ⟨{ hm with since := ?_ }, ?_⟩,
    fun hm => { hm.1 with since := ?_ }⟩,
    fun k' hne hun => { hun with since := fun hk => absurd hk hne }⟩
  · rw [hun.since rfl]
    exact Nat.zero_le _
  · refine ⟨nofun, nofun, nofun, fun _ => ?_, nofun, nofun⟩
    exact ⟨n, _, rfl, fields.member_createdAt, fields.createdAt_eq ▸ hm.since⟩
  · obtain ⟨n', t, hn, ht, hle⟩ := hm.2.since rfl
    cases hn
    rw [fields.member_createdAt] at ht
    cases ht
    rw [fields.createdAt_eq]
    exact hle

theorem reads_until (fields : EventFields hex cfg event p) (n : UInt64) :
    Reads hex event p f { f with until_ := n.toNat } (ascii "until") (.unsigned n) := by
  refine ⟨fun hun => ⟨fun hm => ⟨{ hm with until_ := ?_ }, ?_⟩,
    fun hm => { hm.1 with until_ := ?_ }⟩,
    fun k' hne hun => { hun with until_ := fun hk => absurd hk hne }⟩
  · rw [hun.until_ rfl]
    exact Nat.le_sub_one_of_lt p.createdAt_lt
  · refine ⟨nofun, nofun, nofun, nofun, fun _ => ?_, nofun⟩
    exact ⟨n, _, rfl, fields.member_createdAt, fields.createdAt_eq ▸ hm.until_⟩
  · obtain ⟨n', t, hn, ht, hle⟩ := hm.2.until_ rfl
    cases hn
    rw [fields.member_createdAt] at ht
    cases ht
    rw [fields.createdAt_eq]
    exact hle

theorem reads_limit (n : Nat) (v : Json) :
    Reads hex event p f { f with limit := n } (ascii "limit") v := by
  refine ⟨fun _ => ⟨fun hm => ⟨{ hm with }, nofun, nofun, nofun, nofun, nofun, nofun⟩,
    fun hm => { hm.1 with }⟩, fun k' _ hun => { hun with }⟩

theorem reads_tag (fields : EventFields hex cfg event p) {x : UInt8} {v : Json} {s : FilterSetBytes}
    (h : tagFilterSet hex x v = .ok s) :
    Reads hex event p f { f with tags := emplaceTag f.tags x s } [35, x] v := by
  constructor
  · intro hun
    have hany : ¬ (f.tags.any fun t => t.1 == x) = true := by
      rw [List.any_eq_true]
      rintro ⟨t, ht, heq⟩
      exact hun.tags x rfl t ht (beq_iff_eq.1 heq)
    have hnew : emplaceTag f.tags x s = f.tags ++ [(x, s)] := if_neg hany
    rw [hnew]
    constructor
    · intro hm
      refine ⟨{ hm with tags := fun t ht => hm.tags t (List.mem_append_left _ ht) },
        nofun, nofun, nofun, nofun, nofun, ?_⟩
      rintro x' ⟨rfl⟩
      obtain ⟨val, hval, hmem⟩ := hm.tags (x, s) (List.mem_append_right _ List.mem_cons_self)
      exact ⟨_, _, val, fields.member_kind, fields.member_tags, (fields.mem_tags _).1 hval,
        (mem_tagValues_of_tagFilterSet h _).1 hmem⟩
    · rintro ⟨hm, hmatch⟩
      refine { hm with tags := ?_ }
      intro t ht
      rcases List.mem_append.1 ht with ht | ht
      · exact hm.tags t ht
      · rw [List.mem_singleton] at ht
        subst ht
        obtain ⟨n, tags, val, hn, htags, hval, hmem⟩ := hmatch.tag x rfl
        rw [fields.member_kind] at hn
        cases hn
        rw [fields.member_tags] at htags
        cases htags
        exact ⟨val, (fields.mem_tags _).2 hval, (mem_tagValues_of_tagFilterSet h _).2 hmem⟩
  · intro k' hne hun
    refine { hun with tags := ?_ }
    rintro x' rfl t ht
    rw [emplaceTag] at ht
    split at ht
    · exact hun.tags x' rfl t ht
    · rcases List.mem_append.1 ht with ht | ht
      · exact hun.tags x' rfl t ht
      · rw [List.mem_singleton] at ht
        subst ht
        rintro rfl
        exact hne rfl

theorem FieldAdded.reads (fields : EventFields hex cfg event p) {st st' : FilterLoop} {k : Bytes}
    {v : Json} (h : FieldAdded hex st k v st') : Reads hex event p st.filter st'.filter k v := by
  cases h with
  | ids hs => exact reads_ids fields hs
  | authors hs => exact reads_authors fields hs
  | kinds hs => exact reads_kinds fields hs
  | tag hs => exact reads_tag fields hs
  | since n => exact reads_since fields n
  | until_ n => exact reads_until fields n
  | limit n => exact reads_limit n.toNat _

/-- The loop over the members, none of which is an empty array: the filter meets the conditions of
all of them. -/
theorem addMembers_meets (fields : EventFields hex cfg event p) {kvs : List (Bytes × Json)}
    {st st' : FilterLoop} (h : kvs.foldlM (addMember hex) st = .ok st')
    (hempty : ∀ kv ∈ kvs, kv.2 ≠ .array []) (hnd : (kvs.map Prod.fst).Nodup)
    (hun : ∀ kv ∈ kvs, st.filter.Unset kv.1) :
    st'.filter.Meets p ↔
      st.filter.Meets p ∧ ∀ kv ∈ kvs, MemberMatch hex event kv.1 kv.2 := by
  induction kvs generalizing st with
  | nil =>
    cases h
    simp
  | cons kv kvs ih =>
    rw [List.foldlM_cons] at h
    obtain ⟨mid, hmid, h⟩ := bind_eq_ok.1 h
    rw [List.forall_mem_cons] at hempty hun
    rw [List.map_cons, List.nodup_cons] at hnd
    have hreads : Reads hex event p st.filter mid.filter kv.1 kv.2 := by
      rcases addMember_cases hmid with ⟨hv, -⟩ | ⟨-, hfield⟩
      · exact absurd hv hempty.1
      · exact hfield.reads fields
    have hun' : ∀ kv' ∈ kvs, mid.filter.Unset kv'.1 := by
      intro kv' hkv'
      apply hreads.unset _ _ (hun.2 kv' hkv')
      intro heq
      exact hnd.1 (heq ▸ List.mem_map_of_mem hkv')
    rw [ih h hempty.2 hnd.2 hun', hreads.meets hun.1, List.forall_mem_cons, and_assoc]

/-- A packed event matches a compiled filter exactly if the JSON of the event matches the JSON of
the filter. -/
theorem doesMatch_iff_jsonMatch {filterObj : Json} {maxFilterLimit : Nat}
    (hevent : nostrJsonToPackedEvent hex cfg event = .ok p)
    (hfilter : NostrFilter.make hex filterObj maxFilterLimit = .ok f)
    (hkeys : filterObj.DistinctKeys) :
    f.doesMatch p = true ↔ JsonMatch hex filterObj event := by
  obtain ⟨fields⟩ := nostrJsonToPackedEvent_fields hevent
  have hnever := NostrFilter.neverMatch_iff hfilter
  rw [NostrFilter.doesMatch_iff_meets]
  by_cases hempty : filterObj.HasEmptyArray
  · rw [hnever.2 hempty]
    exact iff_of_false (fun h => Bool.false_ne_true h.1.symm) fun h => h.no_empty hempty
  · have hcan : f.neverMatch = false := by
      rw [← Bool.not_eq_true, hnever]
      exact hempty
    cases filterObj with
    | object kvs =>
      obtain ⟨st, hst, hfinish⟩ := bind_eq_ok.1 hfilter
      have hmeets := addMembers_meets fields hst
        (fun kv hkv hv => hempty ⟨kvs, rfl, kv, hkv, hv⟩) hkeys
        fun kv _ => ⟨fun _ => rfl, fun _ => rfl, fun _ => rfl, fun _ => rfl, fun _ => rfl, nofun⟩
      -- the filter meets everything before the first member, and its end changes the limit only
      have hstart : NostrFilter.Meets {} p :=
        ⟨Nat.zero_le _, Nat.le_sub_one_of_lt p.createdAt_lt, nofun, nofun, nofun, nofun⟩
      have hend : f.Meets p ↔ st.filter.Meets p := by
        rw [finishFilter] at hfinish
        split at hfinish
        · cases hfinish
        · cases hfinish
          exact ⟨fun h => { h with }, fun h => { h with }⟩
      rw [hcan, hend, hmeets]
      constructor
      · rintro ⟨-, -, hall⟩
        exact ⟨hempty, hall⟩
      · intro hmatch
        exact ⟨rfl, hstart, hmatch.members⟩
    | _ => cases hfilter

end Members

/-- A parameterised-replaceable event with a topic, a reference and a title, which is not
indexed. -/
def articleJson : Json :=
  .object [(ascii "content", .string []), (ascii "created_at", .unsigned 1700000000),
    (ascii "id", .string (encodeHex (List.replicate 32 1))), (ascii "kind", .unsigned 30023),
    (ascii "pubkey", .string (encodeHex (List.replicate 32 2))),
    (ascii "tags", .array [.array [.string (ascii "t"), .string (ascii "relays")],
      .array [.string (ascii "e"), .string (encodeHex (List.replicate 32 171))],
      .array [.string (ascii "title"), .string (ascii "On relays")]])]

/-- A filter for it, by its virtual tag, by the reference in upper case, and by the topic. -/
def articleFilterJson : Json :=
  .object [(ascii "#d", .array [.string []]),
    (ascii "#e", .array [.string (List.replicate 32 [65, 66]).flatten]),
    (ascii "#t", .array [.string (ascii "clients"), .string (ascii "relays")]),
    (ascii "kinds", .array [.unsigned 1, .unsigned 30023]), (ascii "since", .unsigned 1600000000)]

/-- The article matches the filter, packed and as JSON. -/
theorem doesMatch_iff_jsonMatch_article :
    ∃ p f, nostrJsonToPackedEvent hexCodec .default articleJson = .ok p ∧
      NostrFilter.make hexCodec articleFilterJson 500 = .ok f ∧ f.doesMatch p = true ∧
      JsonMatch hexCodec articleFilterJson articleJson := by
  have hmatch : ((nostrJsonToPackedEvent hexCodec .default articleJson).toOption.bind fun p =>
      (NostrFilter.make hexCodec articleFilterJson 500).toOption.map fun f => f.doesMatch p) =
        some true := by decide +kernel
  obtain ⟨p, hp, hf⟩ := Option.bind_eq_some_iff.1 hmatch
  obtain ⟨f, hf, hdoes⟩ := Option.map_eq_some_iff.1 hf
  rw [toOption_eq_some] at hp hf
  have hkeys : articleFilterJson.DistinctKeys := by
    unfold Json.DistinctKeys
    decide +kernel
  exact ⟨p, f, hp, hf, hdoes, (doesMatch_iff_jsonMatch hp hf hkeys).1 hdoes⟩

end Strfry
