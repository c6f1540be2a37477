import Strfry.StoreInvariants

/-!
# Addresses of parameterised-replaceable events

The address of such an event has the value of its first packed `d` tag. The conversion from JSON skips
values of more than 255 bytes, which the size check lets through, and puts an empty `d` tag behind the
tags of the event. The address therefore comes from the first `d` tag of at most 255 bytes, or is empty
(`firstD_eq_indexedDTag`). Two events whose first `d` tags differ can have the same address.

`LeavesAlone w e` says that no write of `w` removes a stored `e`, and that none is refused because of it.
-/

set_option autoImplicit false

namespace Strfry

open Lib

section Values

/-- The value of a tag of the JSON, if its name is `d`. A missing value counts as the empty string. -/
def dTagValue : Json → Option Bytes
  | .array (.string name :: rest) =>
    if name = ascii "d" then
      match rest with
      | .string value :: _ => some value
      | _ => some []
    else none
  | _ => none

/-- The tags of the JSON of an event. -/
def tagsOfJson (v : Json) : List Json :=
  match v.find? "tags" with
  | some (.array tags) => tags
  | _ => []

/-- The value of the first `d` tag. A missing tag counts as the empty string. -/
def firstDTag (v : Json) : Bytes := ((tagsOfJson v).findSome? dTagValue).getD []

/-- The value of a `d` tag that is short enough for the index. -/
def indexedDTagValue (tag : Json) : Option Bytes :=
  (dTagValue tag).filter fun value => value.length ≤ maxIndexedTagValSize

/-- The value of the first `d` tag that is short enough for the index, or the empty string. -/
def indexedDTag (v : Json) : Bytes := ((tagsOfJson v).findSome? indexedDTagValue).getD []

/-- A first `d` tag that is short enough is the indexed one. -/
theorem indexedDTag_eq {v : Json} (h : (firstDTag v).length ≤ maxIndexedTagValSize) :
    indexedDTag v = firstDTag v := by
  rw [firstDTag] at h
  rw [indexedDTag, firstDTag]
  generalize tagsOfJson v = tags at h
  induction tags with
  | nil => rfl
  | cons tag tags ih =>
    rw [List.findSome?_cons] at h ⊢
    rw [List.findSome?_cons]
    cases hvalue : dTagValue tag with
    | none =>
      rw [hvalue] at h
      simpa [indexedDTagValue, hvalue] using ih h
    | some value =>
      rw [hvalue] at h
      have hshort : value.length ≤ maxIndexedTagValSize := h
      simp [indexedDTagValue, hvalue, Option.filter, hshort]

/-- The value of the first packed `d` tag. -/
def firstDValue (tags : List Tag) : Option Bytes := (tags.find? fun t => t.1 == tagD).map Prod.snd

theorem firstDValue_append (tags new : List Tag) :
    firstDValue (tags ++ new) = (firstDValue tags).or (firstDValue new) := by
  rw [firstDValue, List.find?_append, Option.map_or]
  rfl

variable {hex : HexCodec} {cfg : EventsConfig}

/-- Only a `d` tag is packed with the name `d`, and only when its value is short enough. -/
theorem packTag_firstDValue {st st' : TagLoop} {j : Json} (h : packTag hex cfg st j = .ok st') :
    firstDValue st'.tagBuilder.tags = (firstDValue st.tagBuilder.tags).or (indexedDTagValue j) := by
  have hkeep : ∀ tags : List Tag, (firstDValue tags) = (firstDValue tags).or none :=
    fun tags => (Option.or_none).symm
  unfold packTag at h
  obtain ⟨tag, htag, h⟩ := bind_eq_ok.1 h
  rw [jsonGetArray_eq_ok.1 htag]
  cases tag with
  | nil => cases h
  | cons first rest =>
    obtain ⟨name, hname, h⟩ := bind_eq_ok.1 h
    obtain ⟨value, hvalue, h⟩ := bind_eq_ok.1 h
    rw [jsonGetString_eq_ok.1 hname]
    have hother : name ≠ ascii "d" →
        indexedDTagValue (.array (.string name :: rest)) = none := by
      intro hne
      simp [indexedDTagValue, dTagValue, hne]
    have hd : name = ascii "d" → indexedDTagValue (.array (.string name :: rest)) =
        if value.length ≤ maxIndexedTagValSize then some value else none := by
      intro heq
      cases rest with
      | nil =>
        cases hvalue
        simp [indexedDTagValue, dTagValue, heq, maxIndexedTagValSize]
      | cons second rest =>
        rw [jsonGetString_eq_ok.1 hvalue]
        simp [indexedDTagValue, dTagValue, heq, Option.filter]
    split at h
    · -- an `e` or `p` tag
      next hep =>
      split at h
      · cases h
      · obtain ⟨decoded, -, h⟩ := bind_eq_ok.1 h
        obtain ⟨b, hb, h⟩ := bind_eq_ok.1 h
        cases h
        rw [PackedEventTagBuilder.add_eq_ok hb, firstDValue_append]
        rcases hep with rfl | rfl
        · rw [hother (by decide)]
          rfl
        · rw [hother (by decide)]
          rfl
    · -- any other name
      split at h
      · next hexp =>
        have hne : name ≠ ascii "d" := by
          rw [hexp]
          decide
        rw [hother hne]
        split at h
        · obtain ⟨e, -, h⟩ := bind_eq_ok.1 h
          split at h
          · cases h
          · cases h
            exact hkeep _
        · cases h
          exact hkeep _
      · split at h
        · -- a name of one character: packed when the value is short enough
          next hone =>
          split at h
          · cases h
          · split at h
            · next hshort =>
              obtain ⟨b, hb, h⟩ := bind_eq_ok.1 h
              cases h
              rw [PackedEventTagBuilder.add_eq_ok hb, firstDValue_append]
              obtain ⟨c, rfl⟩ := List.length_eq_one_iff.1 hone
              by_cases hc : c = tagD
              · subst hc
                rw [hd rfl, if_pos hshort]
                rfl
              · rw [hother fun heq => hc (List.cons.inj heq).1]
                simp [firstDValue, hc]
            · next hlong =>
              cases h
              by_cases heq : name = ascii "d"
              · rw [hd heq, if_neg hlong]
                exact hkeep _
              · rw [hother heq]
                exact hkeep _
        · -- a longer name: not packed
          next hlength =>
          cases h
          have hne : name ≠ ascii "d" := by
            rintro rfl
            exact hlength rfl
          rw [hother hne]
          exact hkeep _

/-- The loop over the tags. -/
theorem packTags_firstDValue {js : List Json} {st st' : TagLoop}
    (h : js.foldlM (packTag hex cfg) st = .ok st') : firstDValue st'.tagBuilder.tags =
      (firstDValue st.tagBuilder.tags).or (js.findSome? indexedDTagValue) := by
  induction js generalizing st with
  | nil =>
    cases h
    simp
  | cons j js ih =>
    rw [List.foldlM_cons] at h
    obtain ⟨mid, hmid, h⟩ := bind_eq_ok.1 h
    rw [ih h, packTag_firstDValue hmid, Option.or_assoc, List.findSome?_cons]
    cases indexedDTagValue j <;> rfl

/-- The `d` tag in the address of a parameterised-replaceable event. -/
theorem firstD_eq_indexedDTag {v : Json} {p : PackedEvent}
    (h : nostrJsonToPackedEvent hex cfg v = .ok p) (hparam : isParamReplaceableKind p.kind = true) :
    p.firstD = some (indexedDTag v) := by
  obtain ⟨fields⟩ := nostrJsonToPackedEvent_fields h
  obtain ⟨start, st, b, hstart, hst, hb, htags⟩ := fields.packed
  have hempty : start.tags = [] := by
    rw [addVirtualTag_tags hstart, not_isReplaceableKind_of_param hparam]
    rfl
  have hjson : tagsOfJson v = fields.tags := by
    have hmember := fields.member_tags
    rw [Json.member] at hmember
    rw [tagsOfJson]
    cases hfind : v.find? "tags" with
    | none => simp [hfind] at hmember
    | some m =>
      rw [hfind] at hmember
      rw [Except.ok.inj hmember]
  change firstDValue p.tags = _
  rw [htags, addVirtualTag_tags hb, firstDValue_append, packTags_firstDValue hst, hempty, hparam,
    indexedDTag, hjson]
  cases fields.tags.findSome? indexedDTagValue <;> rfl

end Values

section Addresses

variable {S : StdSort} {ord : IndexOrder} {hex : HexCodec} {text : JsonText}

/-- The search of the replacement part finds the stored event `levId` at the address of `p`. -/
def FoundAt (st : Store) (p : PackedEvent) (levId : Nat) : Prop :=
  ∃ d e, replaceTag p = some d ∧ st.seekReplace (p.pubkey ++ d ++ le64 p.kind) = some e ∧
    parseKey e.key = (p.pubkey ++ d, p.kind) ∧ e.row = levId

theorem isReplacing_of_replaceTag {p : PackedEvent} {d : Bytes} (h : replaceTag p = some d) :
    isReplacing p.kind = true ∧ p.firstD = some d := by
  rw [replaceTag] at h
  split at h
  · next hkind => exact ⟨hkind, h⟩
  · cases h

theorem FoundAt.sameAddress {st : Store} {p e : PackedEvent} {levId : Nat} (h : FoundAt st p levId)
    (he : (levId, e) ∈ st.event.rows) : SameAddress p e := by
  obtain ⟨d, entry, htag, hseek, hparse, rfl⟩ := h
  obtain ⟨hkind, hd⟩ := isReplacing_of_replaceTag htag
  obtain ⟨q, hq, hqk⟩ := Store.seekReplace_sound hseek
  rw [Table.eq_of_mem he hq]
  exact sameAddress_of_parseKey hqk hkind hd hparse

/-- Whenever a call of `writeEvents` handles `w`, the stored copies of `e` stay, and `w` is not marked
as replaced because of one of them. -/
def LeavesAlone (S : StdSort) (ord : IndexOrder) (hex : HexCodec) (text : JsonText)
    (w e : PackedEvent) : Prop :=
  ∀ cache db evs db₁ ev ev' db₂, StoreReachable ord hex text db → Submitted hex evs →
    CallStep S ord hex text cache db evs db₁ ev ev' db₂ → ev.packed = w →
    ∀ r ∈ db₁.event.rows, r.2 = e →
      r ∈ db₂.event.rows ∧ ¬ (ev'.status = .replaced ∧ FoundAt db₁.toStore w r.1)

theorem not_deletes_of_param {d e : PackedEvent} (h : isParamReplaceableKind d.kind = true) :
    ¬ Deletes d e := by
  rintro ⟨hkind, -⟩
  rw [hkind] at h
  exact absurd h (by decide)

/-- Events at different addresses, or with one id, leave each other alone. -/
theorem leavesAlone_of {w e : PackedEvent} (hparam : isParamReplaceableKind w.kind = true)
    (h : ¬ SameAddress w e ∨ w.id = e.id) : LeavesAlone S ord hex text w e := by
  rintro cache db evs db₁ ev ev' db₂ hreach hsub hstep rfl r hr rfl
  have hw : Writable (S.sort EventToWrite.before evs) := hsub.writable.perm (S.perm _ _)
  obtain ⟨-, hinv₁, prev, hout⟩ := hstep.spec hreach.storeInv hw
  -- a write at another address removes nothing here
  rcases h with haddr | hid
  · refine ⟨?_, fun hfound => haddr (hfound.2.sameAddress hr)⟩
    by_cases hs : ev'.status = .written
    · rw [hout.mem_rows hs]
      refine .inr ⟨hr, ?_⟩
      rintro (hdel | ⟨hsame, -⟩)
      · exact not_deletes_of_param hparam hdel
      · exact haddr hsame
    · rw [hout.eq_of_not_written hs]
      exact hr
  · -- the event is refused as a duplicate
    cases hout with
    | duplicate => exact ⟨hr, by simp⟩
    | deleted hfresh => exact absurd hid.symm (hfresh r hr)
    | replaced r' hfresh => exact absurd hid.symm (hfresh r hr)
    | written toDelete hfresh => exact absurd hid.symm (hfresh r hr)

/-- A call on a batch of one event, from a process whose cache is up to date. -/
theorem exists_callStep {db : Db} (hreach : StoreReachable ord hex text db) {ev : EventToWrite}
    (hsub : Submitted hex [ev]) : ∃ cache db' ev',
      (writeEvents S ord hex text cache db [ev]).2 = .ok (db', [ev']) ∧
      CallStep S ord hex text cache db [ev] db ev ev' db' ∧ WriteOutcome [] none db ev db' ev' := by
  obtain ⟨hp, hjson⟩ := hsub ev (by simp)
  obtain ⟨db', ev', hone, hout⟩ := writeOne_spec ord [] none hreach.storeInv
    (wellPacked_of_fromJson hjson) hp
  have hsort : S.sort EventToWrite.before [ev] = [ev] :=
    List.perm_singleton.mp (S.perm EventToWrite.before [ev])
  have hfresh : NegentropyFilterCache.freshen hex text db ⟨[], db.modificationCounter⟩ =
      (⟨[], db.modificationCounter⟩, .ok ()) := by
    rw [NegentropyFilterCache.freshen, if_neg (not_not_intro rfl)]
  refine ⟨⟨[], db.modificationCounter⟩, db', ev', ?_, ?_, hout⟩
  · rw [writeEvents, hfresh, hsort]
    simp only [writeLoop, hone]
    rfl
  · rw [CallStep, hsort, NegentropyFilterCache.current, hfresh]
    exact .head hone

/-- A store with one event. -/
theorem exists_stored (S : StdSort) {q : PackedEvent} (hq : FromJson hex q) :
    ∃ db levId, StoreReachable ord hex text db ∧ ∀ r, r ∈ db.event.rows ↔ r = (levId, q) := by
  have hsub : Submitted hex [⟨q, [], .pending, 0, 0⟩] := by
    intro ev hev
    rw [List.mem_singleton] at hev
    exact hev ▸ ⟨rfl, hq⟩
  obtain ⟨cache, db, ev', hok, -, hout⟩ :=
    @exists_callStep S ord hex text Db.init .refl _ hsub
  have hnone : ∀ r, r ∉ Db.init.event.rows := by simp [Db.init, Store.empty]
  refine ⟨db, ev'.levId, .single (.write S cache hsub hok), fun r => ?_⟩
  have hs : ev'.status = .written := by
    cases hout with
    | duplicate h =>
      rcases h with ⟨r, hr, -⟩ | h
      · exact absurd hr (hnone r)
      · cases h
    | deleted _ h =>
      obtain ⟨r, hr, -⟩ := h
      exact absurd hr (hnone r)
    | replaced r _ hr => exact absurd hr (hnone r)
    | written => rfl
  rw [hout.mem_rows hs]
  simp [hnone]

/-- Events at one address with different ids do not leave each other alone. -/
theorem not_leavesAlone_of {w e : PackedEvent} (hw : FromJson hex w) (he : FromJson hex e)
    (hparam : isParamReplaceableKind w.kind = true) (hsame : SameAddress w e) (hid : w.id ≠ e.id) :
    ¬ LeavesAlone S ord hex text w e := by
  intro h
  obtain ⟨db, levId, hreach, hrows⟩ := @exists_stored ord hex text S _ he
  have hsub : Submitted hex [⟨w, [], .pending, 0, 0⟩] := by
    intro ev hev
    rw [List.mem_singleton] at hev
    exact hev ▸ ⟨rfl, hw⟩
  obtain ⟨cache, db', ev', -, hstep, hout⟩ := exists_callStep (S := S) hreach hsub
  have hmem : (levId, e) ∈ db.event.rows := (hrows _).mpr rfl
  obtain ⟨hkept, hnotReplaced⟩ := h cache db _ db _ ev' db' hreach hsub hstep rfl _ hmem rfl
  have hkind : isParamReplaceableKind e.kind = true := hsame.2.1 ▸ hparam
  by_cases hs : ev'.status = .written
  · -- the write removes the stored event
    rcases (hout.mem_rows hs).mp hkept with heq | ⟨-, hno⟩
    · exact (hout.levId_gt hs hmem).ne (congrArg Prod.fst heq)
    · cases hout with
      | duplicate | deleted | replaced => cases hs
      | written toDelete _ _ hbeats =>
        exact hno (.inr ⟨hsame, hbeats _ hmem hsame⟩)
  · -- the only refusals are for the stored event
    cases hout with
    | duplicate hdup =>
      rcases hdup with ⟨r, hr, heq⟩ | hprev
      · rw [(hrows r).mp hr] at heq
        exact hid heq.symm
      · cases hprev
    | deleted _ hdel =>
      obtain ⟨r, hr, hdel⟩ := hdel
      rw [(hrows r).mp hr] at hdel
      exact not_deletes_of_param hkind hdel
    | replaced =>
      exact hnotReplaced ⟨rfl,
        seekReplace_of_stored hreach.storeInv (wellPacked_of_fromJson hw) hmem hsame⟩
    | written => exact hs rfl

variable {cfg cfg' : EventsConfig}

/-- Two events of one author and one parameterised-replaceable kind leave each other alone exactly when
their first `d` tags of at most 255 bytes differ, or they have the same id. -/
theorem leavesAlone_iff_indexedDTag {v w : Json} {p q : PackedEvent}
    (hv : nostrJsonToPackedEvent hex cfg v = .ok p) (hw : nostrJsonToPackedEvent hex cfg' w = .ok q)
    (hpubkey : p.pubkey = q.pubkey) (hkind : p.kind = q.kind)
    (hparam : isParamReplaceableKind p.kind = true) :
    (LeavesAlone S ord hex text p q ∧ LeavesAlone S ord hex text q p) ↔
      (indexedDTag v ≠ indexedDTag w ∨ p.id = q.id) := by
  have hreplacing : isReplacing p.kind = true := by rw [isReplacing, hparam, Bool.or_true]
  have hparam' : isParamReplaceableKind q.kind = true := hkind ▸ hparam
  have haddr : SameAddress p q ↔ indexedDTag v = indexedDTag w := by
    rw [SameAddress, firstD_eq_indexedDTag hv hparam, firstD_eq_indexedDTag hw hparam']
    simp [hreplacing, hpubkey, ← hkind]
  constructor
  · rintro ⟨h, -⟩
    by_contra hno
    rw [not_or, not_not] at hno
    exact not_leavesAlone_of ⟨cfg, v, hv⟩ ⟨cfg', w, hw⟩ hparam (haddr.mpr hno.1) hno.2 h
  · intro h
    have h' : ¬ SameAddress p q ∨ p.id = q.id := h.imp_left fun hne hsame => hne (haddr.mp hsame)
    exact ⟨leavesAlone_of hparam h', leavesAlone_of hparam'
      (h'.imp (fun hno hsame => hno hsame.symm) Eq.symm)⟩

/-- The JSON of an event of kind 30000 with one `d` tag. -/
def listEventJson (id value : Bytes) : Json :=
  .object [(ascii "content", .string []), (ascii "created_at", .unsigned 20),
    (ascii "id", .string (encodeHex id)), (ascii "kind", .unsigned 30000),
    (ascii "pubkey", .string (encodeHex (List.replicate 32 9))),
    (ascii "tags", .array [.array [.string (ascii "d"), .string value]])]

/-- Two events with `d` tags `a` and `b`. -/
theorem leavesAlone_iff_short_values : ∃ p q,
    nostrJsonToPackedEvent hexCodec .default (listEventJson (List.replicate 32 1) (ascii "a")) = .ok p ∧
    nostrJsonToPackedEvent hexCodec .default (listEventJson (List.replicate 32 2) (ascii "b")) = .ok q ∧
    LeavesAlone .insertion byteOrder hexCodec emptyObjectText p q ∧
    LeavesAlone .insertion byteOrder hexCodec emptyObjectText q p := by
  have hp : (nostrJsonToPackedEvent hexCodec .default
      (listEventJson (List.replicate 32 1) (ascii "a"))).map (fun p => (p.pubkey, p.kind)) =
        .ok (List.replicate 32 9, 30000) := by decide +kernel
  have hq : (nostrJsonToPackedEvent hexCodec .default
      (listEventJson (List.replicate 32 2) (ascii "b"))).map (fun p => (p.pubkey, p.kind)) =
        .ok (List.replicate 32 9, 30000) := by decide +kernel
  obtain ⟨p, hp, heqp⟩ := map_eq_ok.1 hp
  obtain ⟨q, hq, heqq⟩ := map_eq_ok.1 hq
  rw [Prod.mk.injEq] at heqp heqq
  exact ⟨p, q, hp, hq, (leavesAlone_iff_indexedDTag hp hq (heqp.1.trans heqq.1.symm)
    (heqp.2.trans heqq.2.symm) (heqp.2 ▸ by decide)).mpr (.inl (by decide))⟩

/-- Two events whose `d` tags have different values of 256 bytes, which the size check admits. -/
theorem long_d_tags_overwrite : ∃ p q,
    nostrJsonToPackedEvent hexCodec .default
      (listEventJson (List.replicate 32 1) (List.replicate 256 97)) = .ok p ∧
    nostrJsonToPackedEvent hexCodec .default
      (listEventJson (List.replicate 32 2) (List.replicate 256 98)) = .ok q ∧
    p.pubkey = q.pubkey ∧ p.kind = 30000 ∧ q.kind = 30000 ∧
    firstDTag (listEventJson (List.replicate 32 1) (List.replicate 256 97)) ≠
      firstDTag (listEventJson (List.replicate 32 2) (List.replicate 256 98)) ∧
    ¬ LeavesAlone .insertion byteOrder hexCodec emptyObjectText p q ∧
    ¬ LeavesAlone .insertion byteOrder hexCodec emptyObjectText q p := by
  have hp : (nostrJsonToPackedEvent hexCodec .default
      (listEventJson (List.replicate 32 1) (List.replicate 256 97))).map
        (fun p => (p.pubkey, p.kind, p.firstD, p.id)) =
          .ok (List.replicate 32 9, 30000, some [], List.replicate 32 1) := by decide +kernel
  have hq : (nostrJsonToPackedEvent hexCodec .default
      (listEventJson (List.replicate 32 2) (List.replicate 256 98))).map
        (fun p => (p.pubkey, p.kind, p.firstD, p.id)) =
          .ok (List.replicate 32 9, 30000, some [], List.replicate 32 2) := by decide +kernel
  obtain ⟨p, hp, heqp⟩ := map_eq_ok.1 hp
  obtain ⟨q, hq, heqq⟩ := map_eq_ok.1 hq
  simp only [Prod.mk.injEq] at heqp heqq
  obtain ⟨hpub, hkind, hd, hid⟩ := heqp
  obtain ⟨hpub', hkind', hd', hid'⟩ := heqq
  have hsame : SameAddress p q := by
    refine ⟨?_, hkind.trans hkind'.symm, hpub.trans hpub'.symm, hd.trans hd'.symm⟩
    rw [hkind]
    decide
  have hne : p.id ≠ q.id := by
    rw [hid, hid']
    decide
  have hparam : ∀ e : PackedEvent, e.kind = 30000 → isParamReplaceableKind e.kind = true := by
    intro e he
    rw [he]
    decide
  exact ⟨p, q, hp, hq, hpub.trans hpub'.symm, hkind, hkind', by decide +kernel,
    not_leavesAlone_of ⟨_, _, hp⟩ ⟨_, _, hq⟩ (hparam p hkind) hsame hne,
    not_leavesAlone_of ⟨_, _, hq⟩ ⟨_, _, hp⟩ (hparam q hkind') hsame.symm hne.symm⟩

end Addresses

end Strfry
