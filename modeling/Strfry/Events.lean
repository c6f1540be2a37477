import Strfry.PackedEvent

/-!
# Nostr events

Kinds of events and the conversion of an event's JSON to its packed form. `FromJson` holds of the
packed events that `nostrJsonToPackedEvent` produces; `WellPacked` collects what the conversion
guarantees about their tags: `e` and `p` values have 32 bytes, a replaceable event starts with an
empty `d` tag, and a parameterised-replaceable event has some `d` tag.
-/

set_option autoImplicit false

namespace Strfry

open Lib

/-- `isReplaceableKind`. -/
def isReplaceableKind (kind : Nat) : Bool :=
  kind == 0 || kind == 3 || kind == 41 || (10000 ≤ kind && kind < 20000)

/-- `isParamReplaceableKind`. -/
def isParamReplaceableKind (kind : Nat) : Bool :=
  30000 ≤ kind && kind < 40000

/-- `isEphemeralKind`. -/
def isEphemeralKind (kind : Nat) : Bool :=
  20000 ≤ kind && kind < 30000

/-- `MAX_INDEXED_TAG_VAL_SIZE`. -/
def maxIndexedTagValSize : Nat := 255

/-- The configuration items `events__maxNumTags` and `events__maxTagValSize`. -/
structure EventsConfig where
  maxNumTags : Nat
  maxTagValSize : Nat

/-- The defaults of `golpe.yaml`. -/
def EventsConfig.default : EventsConfig := ⟨2000, 1024⟩

/-- The byte of the tag name `d`. -/
def tagD : UInt8 := 100

/-- The byte of the tag name `e`. -/
def tagE : UInt8 := 101

/-- The byte of the tag name `p`. -/
def tagP : UInt8 := 112

def isDigit (c : UInt8) : Bool := 48 ≤ c && c ≤ 57

/-- Value of a string of decimal digits. -/
def decimalValue (s : Bytes) : Nat :=
  s.foldl (fun acc c => 10 * acc + (c.toNat - 48)) 0

/-- `parseUint64`: `std::stoull` throws `invalid_argument` on the empty string and
`out_of_range` on a value of more than 64 bits. -/
def parseUint64 (s : Bytes) : Except Err UInt64 :=
  if s.all isDigit then
    if s = [] then .error .invalidArgument
    else if decimalValue s < 2 ^ 64 then .ok (UInt64.ofNat (decimalValue s))
    else .error .outOfRange
  else .error (.herr "non-digit character")

/-- State of the loop over the `tags` array: the tags added so far and the expiration. -/
structure TagLoop where
  tagBuilder : PackedEventTagBuilder
  expiration : UInt64

/-- The second field of a tag, or the empty string. -/
def tagValue : List Json → Except Err Bytes
  | [] => .ok []
  | second :: _ => jsonGetString second "tag val was not a string"

/-- One iteration of the loop over the `tags` array. -/
def packTag (hex : HexCodec) (cfg : EventsConfig) (st : TagLoop) (tagArr : Json) :
    Except Err TagLoop := do
  let tag ← jsonGetArray tagArr "tag in tags field was not an array"
  match tag with
  | [] => .error (.herr "too few fields in tag")
  | first :: rest =>
    let tagName ← jsonGetString first "tag name was not a string"
    let tagVal ← tagValue rest
    if tagName = ascii "e" ∨ tagName = ascii "p" then
      if tagVal.length ≠ 64 then
        .error (.herr ("unexpected size for fixed-size tag: " ++
          if tagName = ascii "e" then "e" else "p"))
      else
        let decoded ← hex.fromHex tagVal
        let tagBuilder ← st.tagBuilder.add (tagName.headD 0) decoded
        .ok { st with tagBuilder := tagBuilder }
    else if tagName = ascii "expiration" then
      if st.expiration = 0 then
        let expiration ← parseUint64 tagVal
        if expiration < 100 then .error (.herr "invalid expiration")
        else .ok { st with expiration := expiration }
      else .ok st
    else if tagName.length = 1 then
      if tagVal.length > cfg.maxTagValSize then
        .error (.herr ("tag val too large: " ++ toString tagVal.length))
      else if tagVal.length ≤ maxIndexedTagValSize then
        let tagBuilder ← st.tagBuilder.add (tagName.headD 0) tagVal
        .ok { st with tagBuilder := tagBuilder }
      else .ok st
    else .ok st

/-- Adds an empty `d` tag under the condition `c`. -/
def addVirtualTag (c : Bool) (b : PackedEventTagBuilder) : Except Err PackedEventTagBuilder :=
  if c then b.add tagD [] else .ok b

/-- `nostrJsonToPackedEvent`. -/
def nostrJsonToPackedEvent (hex : HexCodec) (cfg : EventsConfig) (v : Json) :
    Except Err PackedEvent := do
  let id ← hex.fromHex (← jsonGetString (← v.member "id") "event id field was not a string")
  let pubkey ← hex.fromHex
    (← jsonGetString (← v.member "pubkey") "event pubkey field was not a string")
  let createdAt ← jsonGetUnsigned (← v.member "created_at")
    "event created_at field was not an integer"
  let kind ← jsonGetUnsigned (← v.member "kind") "event kind field was not an integer"
  if id.length ≠ 32 then .error (.herr "unexpected id size")
  else if pubkey.length ≠ 32 then .error (.herr "unexpected pubkey size")
  else
    let _ ← jsonGetString (← v.member "content") "event content field was not a string"
    -- a replaceable event gets a virtual d-tag in front of its own tags
    let start ← addVirtualTag (isReplaceableKind kind.toNat) PackedEventTagBuilder.empty
    let tags ← jsonGetArray (← v.member "tags") "tags field not an array"
    if tags.length > cfg.maxNumTags then
      .error (.herr ("too many tags: " ++ toString tags.length))
    else
      let st ← tags.foldlM (packTag hex cfg) ⟨start, 0⟩
      -- and a parameterised-replaceable event one behind them
      let tagBuilder ← addVirtualTag (isParamReplaceableKind kind.toNat) st.tagBuilder
      let expiration : UInt64 := if isEphemeralKind kind.toNat then 1 else st.expiration
      packedEventBuilder id pubkey createdAt kind expiration tagBuilder

/-- The packed events that come out of `nostrJsonToPackedEvent`, under any configuration. -/
def FromJson (hex : HexCodec) (p : PackedEvent) : Prop :=
  ∃ cfg v, nostrJsonToPackedEvent hex cfg v = .ok p

/-- The value of the first packed `d` tag. -/
def PackedEvent.firstD (p : PackedEvent) : Option Bytes :=
  (p.tags.find? fun t => t.1 == tagD).map Prod.snd

/-- Kinds of which an author keeps one event per `d` tag. -/
def isReplacing (kind : Nat) : Bool := isReplaceableKind kind || isParamReplaceableKind kind

/-- What the conversion from JSON guarantees about the tags of a packed event. -/
structure WellPacked (p : PackedEvent) : Prop where
  fixed_size : ∀ t ∈ p.tags, t.1 = tagE ∨ t.1 = tagP → t.2.length = 32
  head_of_replaceable : isReplaceableKind p.kind = true → p.tags.head? = some (tagD, [])
  d_of_paramReplaceable : isParamReplaceableKind p.kind = true → ∃ v, (tagD, v) ∈ p.tags

/-- Tags a packing step appends: at most one, of 32 bytes if its name is `e` or `p`. -/
def FixedSize (t : Tag) : Prop := t.1 = tagE ∨ t.1 = tagP → t.2.length = 32

theorem packTag_tags {hex : HexCodec} {cfg : EventsConfig} {st st' : TagLoop} {j : Json}
    (h : packTag hex cfg st j = .ok st') :
    ∃ new, st'.tagBuilder.tags = st.tagBuilder.tags ++ new ∧ ∀ t ∈ new, FixedSize t := by
  unfold packTag at h
  obtain ⟨tag, -, h⟩ := bind_eq_ok.1 h
  cases tag with
  | nil => cases h
  | cons first rest =>
    obtain ⟨name, -, h⟩ := bind_eq_ok.1 h
    obtain ⟨val, -, h⟩ := bind_eq_ok.1 h
    split at h
    · split at h
      · cases h
      · rename_i hlen
        obtain ⟨decoded, hdec, h⟩ := bind_eq_ok.1 h
        obtain ⟨b, hb, h⟩ := bind_eq_ok.1 h
        cases h
        refine ⟨_, PackedEventTagBuilder.add_eq_ok hb, ?_⟩
        intro t ht _
        rw [List.mem_singleton] at ht
        subst ht
        have := hex.length_fromHex _ _ hdec
        rw [not_not] at hlen
        show decoded.length = 32
        omega
    · rename_i hname
      split at h
      · split at h
        · obtain ⟨e, -, h⟩ := bind_eq_ok.1 h
          split at h
          · cases h
          · cases h
            exact ⟨[], by simp, by simp⟩
        · cases h
          exact ⟨[], by simp, by simp⟩
      · split at h
        · rename_i hone
          split at h
          · cases h
          · split at h
            · obtain ⟨b, hb, h⟩ := bind_eq_ok.1 h
              cases h
              refine ⟨_, PackedEventTagBuilder.add_eq_ok hb, ?_⟩
              intro t ht hep
              rw [List.mem_singleton] at ht
              subst ht
              -- a one-byte name `e` or `p` is handled by the first branch
              obtain ⟨c, rfl⟩ := List.length_eq_one_iff.1 hone
              refine absurd ?_ hname
              rcases hep with hep | hep
              · exact Or.inl (congrArg (fun x => [x]) hep)
              · exact Or.inr (congrArg (fun x => [x]) hep)
            · cases h
              exact ⟨[], by simp, by simp⟩
        · cases h
          exact ⟨[], by simp, by simp⟩

/-- The whole loop appends tags of the same kind. -/
theorem packTags_tags {hex : HexCodec} {cfg : EventsConfig} {js : List Json} {st st' : TagLoop}
    (h : js.foldlM (packTag hex cfg) st = .ok st') :
    ∃ new, st'.tagBuilder.tags = st.tagBuilder.tags ++ new ∧ ∀ t ∈ new, FixedSize t := by
  induction js generalizing st with
  | nil =>
    cases h
    exact ⟨[], by simp, by simp⟩
  | cons j js ih =>
    rw [List.foldlM_cons] at h
    obtain ⟨mid, hmid, h⟩ := bind_eq_ok.1 h
    obtain ⟨new, hnew, hfix⟩ := packTag_tags hmid
    obtain ⟨new', hnew', hfix'⟩ := ih h
    refine ⟨new ++ new', by rw [hnew', hnew, List.append_assoc], ?_⟩
    intro t ht
    rcases List.mem_append.1 ht with ht | ht
    · exact hfix t ht
    · exact hfix' t ht

theorem addVirtualTag_tags {c : Bool} {b b' : PackedEventTagBuilder}
    (h : addVirtualTag c b = .ok b') : b'.tags = b.tags ++ if c then [(tagD, [])] else [] := by
  cases c with
  | false =>
    cases h
    simp
  | true => exact PackedEventTagBuilder.add_eq_ok h

/-- The fields of the JSON of an event that the conversion accepts. -/
structure EventFields (hex : HexCodec) (cfg : EventsConfig) (v : Json) (p : PackedEvent) where
  idHex : Bytes
  pubkeyHex : Bytes
  createdAt : UInt64
  kind : UInt64
  content : Bytes
  tags : List Json
  member_id : v.member "id" = .ok (.string idHex)
  member_pubkey : v.member "pubkey" = .ok (.string pubkeyHex)
  member_createdAt : v.member "created_at" = .ok (.unsigned createdAt)
  member_kind : v.member "kind" = .ok (.unsigned kind)
  member_content : v.member "content" = .ok (.string content)
  member_tags : v.member "tags" = .ok (.array tags)
  id_eq : hex.fromHex idHex = .ok p.id
  pubkey_eq : hex.fromHex pubkeyHex = .ok p.pubkey
  createdAt_eq : p.createdAt = createdAt.toNat
  kind_eq : p.kind = kind.toNat
  packed : ∃ start st b, addVirtualTag (isReplaceableKind p.kind) PackedEventTagBuilder.empty =
      .ok start ∧ tags.foldlM (packTag hex cfg) ⟨start, 0⟩ = .ok st ∧
    addVirtualTag (isParamReplaceableKind p.kind) st.tagBuilder = .ok b ∧ p.tags = b.tags

theorem nostrJsonToPackedEvent_fields {hex : HexCodec} {cfg : EventsConfig} {v : Json}
    {p : PackedEvent} (h : nostrJsonToPackedEvent hex cfg v = .ok p) :
    Nonempty (EventFields hex cfg v p) := by
  unfold nostrJsonToPackedEvent at h
  obtain ⟨m, hmid, h⟩ := bind_eq_ok.1 h
  obtain ⟨idHex, hsid, h⟩ := bind_eq_ok.1 h
  obtain ⟨id, hid, h⟩ := bind_eq_ok.1 h
  obtain ⟨m, hmpubkey, h⟩ := bind_eq_ok.1 h
  obtain ⟨pubkeyHex, hspubkey, h⟩ := bind_eq_ok.1 h
  obtain ⟨pubkey, hpubkey, h⟩ := bind_eq_ok.1 h
  obtain ⟨m, hmcreated, h⟩ := bind_eq_ok.1 h
  obtain ⟨createdAt, hscreated, h⟩ := bind_eq_ok.1 h
  obtain ⟨m, hmkind, h⟩ := bind_eq_ok.1 h
  obtain ⟨kind, hskind, h⟩ := bind_eq_ok.1 h
  split at h
  · cases h
  split at h
  · cases h
  obtain ⟨m, hmcontent, h⟩ := bind_eq_ok.1 h
  obtain ⟨content, hscontent, h⟩ := bind_eq_ok.1 h
  obtain ⟨start, hstart, h⟩ := bind_eq_ok.1 h
  obtain ⟨m, hmtags, h⟩ := bind_eq_ok.1 h
  obtain ⟨tags, hstags, h⟩ := bind_eq_ok.1 h
  split at h
  · cases h
  obtain ⟨st, hst, h⟩ := bind_eq_ok.1 h
  obtain ⟨b, hb, h⟩ := bind_eq_ok.1 h
  obtain ⟨rfl, rfl, hcreated, hkind, -, htags⟩ := packedEventBuilder_eq_ok h
  rw [jsonGetString_eq_ok.1 hsid] at hmid
  rw [jsonGetString_eq_ok.1 hspubkey] at hmpubkey
  rw [jsonGetUnsigned_eq_ok.1 hscreated] at hmcreated
  rw [jsonGetUnsigned_eq_ok.1 hskind] at hmkind
  rw [jsonGetString_eq_ok.1 hscontent] at hmcontent
  rw [jsonGetArray_eq_ok.1 hstags] at hmtags
  exact ⟨idHex, pubkeyHex, createdAt, kind, content, tags, hmid, hmpubkey, hmcreated, hmkind,
    hmcontent, hmtags, hid, hpubkey, hcreated, hkind, start, st, b, hkind ▸ hstart, hst,
    hkind ▸ hb, htags⟩

/-- The packed tags of an event: the virtual tag of a replaceable event, the tags of the JSON,
and the virtual tag of a parameterised-replaceable event. -/
theorem nostrJsonToPackedEvent_tags {hex : HexCodec} {cfg : EventsConfig} {v : Json}
    {p : PackedEvent} (h : nostrJsonToPackedEvent hex cfg v = .ok p) :
    ∃ new, (∀ t ∈ new, FixedSize t) ∧
      p.tags = (if isReplaceableKind p.kind then [(tagD, [])] else []) ++ new ++
        (if isParamReplaceableKind p.kind then [(tagD, [])] else []) := by
  obtain ⟨fields⟩ := nostrJsonToPackedEvent_fields h
  obtain ⟨start, st, b, hstart, hst, hb, htags⟩ := fields.packed
  obtain ⟨new, hnew, hfix⟩ := packTags_tags hst
  refine ⟨new, hfix, ?_⟩
  rw [htags, addVirtualTag_tags hb, hnew, addVirtualTag_tags hstart, PackedEventTagBuilder.empty,
    List.nil_append]

theorem wellPacked_of_fromJson {hex : HexCodec} {p : PackedEvent} (h : FromJson hex p) :
    WellPacked p := by
  obtain ⟨cfg, v, hv⟩ := h
  obtain ⟨new, hfix, htags⟩ := nostrJsonToPackedEvent_tags hv
  refine ⟨?_, ?_, ?_⟩
  · intro t ht hep
    rw [htags] at ht
    simp only [List.mem_append] at ht
    have hd : ∀ b : Bool, t ∉ (if b then [(tagD, [])] else [] : List Tag) := by
      intro b hmem
      cases b with
      | false => simp at hmem
      | true =>
        simp only [if_true, List.mem_singleton] at hmem
        subst hmem
        revert hep
        decide
    rcases ht with (ht | ht) | ht
    · exact absurd ht (hd _)
    · exact hfix t ht hep
    · exact absurd ht (hd _)
  · intro hr
    simp [htags, hr]
  · intro hp
    exact ⟨[], by simp [htags, hp]⟩

/-- Events of the kinds that replace each other have a `d` tag. -/
theorem WellPacked.firstD_isSome {p : PackedEvent} (h : WellPacked p)
    (hk : isReplacing p.kind = true) : ∃ d, p.firstD = some d := by
  have hd : ∃ v, (tagD, v) ∈ p.tags := by
    rcases Bool.or_eq_true_iff.1 hk with hk | hk
    · exact ⟨[], List.mem_of_mem_head? (h.head_of_replaceable hk)⟩
    · exact h.d_of_paramReplaceable hk
  obtain ⟨v, hv⟩ := hd
  have hsome : (p.tags.find? fun t => t.1 == tagD).isSome := by
    rw [List.find?_isSome]
    exact ⟨_, hv, by simp⟩
  obtain ⟨t, ht⟩ := Option.isSome_iff_exists.1 hsome
  exact ⟨t.2, by rw [PackedEvent.firstD, ht]; rfl⟩

/-! ## Events without tags -/

/-- The JSON of an event without tags. -/
def plainEventJson (id pubkey : Bytes) (createdAt kind : UInt64) : Json :=
  .object [(ascii "content", .string []), (ascii "created_at", .unsigned createdAt),
    (ascii "id", .string (encodeHex id)), (ascii "kind", .unsigned kind),
    (ascii "pubkey", .string (encodeHex pubkey)), (ascii "tags", .array [])]

/-- Its packed form: only a virtual `d` tag, if the kind asks for one. -/
def plainEvent (id pubkey : Bytes) (createdAt kind : UInt64) (hid : id.length = 32)
    (hpk : pubkey.length = 32) : PackedEvent where
  id := id
  pubkey := pubkey
  createdAt := createdAt.toNat
  kind := kind.toNat
  expiration := if isEphemeralKind kind.toNat then 1 else 0
  tags := if isReplacing kind.toNat then [(tagD, [])] else []
  id_size := hid
  pubkey_size := hpk
  createdAt_lt := createdAt.toNat_lt
  kind_lt := kind.toNat_lt
  expiration_lt := by split <;> norm_num
  tags_size := by split <;> simp

/-- One whose id and author are a repeated byte. -/
def repeatedEvent (b author : UInt8) (createdAt kind : UInt64) : PackedEvent :=
  plainEvent (List.replicate 32 b) (List.replicate 32 author) createdAt kind List.length_replicate
    List.length_replicate

theorem not_isReplaceableKind_of_param {kind : Nat} (h : isParamReplaceableKind kind = true) :
    isReplaceableKind kind = false := by
  simp only [isParamReplaceableKind, isReplaceableKind, Bool.and_eq_true, decide_eq_true_eq,
    Bool.or_eq_false_iff, beq_eq_false_iff_ne, ne_eq, Bool.and_eq_false_iff,
    decide_eq_false_iff_not] at h ⊢
  omega

theorem nostrJsonToPackedEvent_plain (cfg : EventsConfig) (id pubkey : Bytes)
    (createdAt kind : UInt64) (hid : id.length = 32) (hpk : pubkey.length = 32) :
    nostrJsonToPackedEvent hexCodec cfg (plainEventJson id pubkey createdAt kind) =
      .ok (plainEvent id pubkey createdAt kind hid hpk) := by
  have hhex : ∀ b, hexCodec.fromHex (encodeHex b) = .ok b := decodeHex_encodeHex
  have hm : ∀ key m, (plainEventJson id pubkey createdAt kind).find? key = some m →
      (plainEventJson id pubkey createdAt kind).member key = .ok m := by
    intro key m h
    rw [Json.member, h]
  have hcontent := hm "content" (.string []) rfl
  have hcreated := hm "created_at" (.unsigned createdAt) rfl
  have hidm := hm "id" (.string (encodeHex id)) rfl
  have hkind := hm "kind" (.unsigned kind) rfl
  have hpubkey := hm "pubkey" (.string (encodeHex pubkey)) rfl
  have htags := hm "tags" (.array []) rfl
  simp only [nostrJsonToPackedEvent, hcontent, hcreated, hidm, hkind, hpubkey, htags,
    jsonGetString, jsonGetUnsigned, jsonGetArray, bind, Except.bind, hhex, hid, hpk, ne_eq,
    not_true_eq_false, if_false, List.length_nil, not_lt_zero, List.foldlM_nil, pure, Except.pure]
  -- at most one of the two virtual tags is added
  cases hr : isReplaceableKind kind.toNat <;> cases hp : isParamReplaceableKind kind.toNat
  case true.true =>
    rw [not_isReplaceableKind_of_param hp] at hr
    cases hr
  all_goals
    simp only [packedEventBuilder, addVirtualTag, plainEvent, isReplacing, hr, hp, hid, hpk,
      PackedEventTagBuilder.empty, PackedEventTagBuilder.add]
    simp
    split <;> rfl

theorem fromJson_plainEvent (id pubkey : Bytes) (createdAt kind : UInt64) (hid : id.length = 32)
    (hpk : pubkey.length = 32) : FromJson hexCodec (plainEvent id pubkey createdAt kind hid hpk) :=
  ⟨EventsConfig.default, _, nostrJsonToPackedEvent_plain _ id pubkey createdAt kind hid hpk⟩

end Strfry
