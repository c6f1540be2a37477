import Strfry.FriedImport
import Strfry.HttpServer

/-!
# A fried export restores the database

The store that is exported is one that `writeEvents` and `deleteEvents` have reached with events that
passed `parseAndVerifyEvent`. Its payloads may have been encoded anew in any way, as long as they decode to
the same texts (`Recoded`). Of the JSON printer it is used that the text of an object ends with a brace and
that no text has a line break, of the hex functions that they invert each other.
-/

set_option autoImplicit false

namespace Strfry

open Lib

/-! ## Stores with the texts of their events -/

/-- The events come from `parseAndVerifyEvent`, with any of its settings. -/
def Verified (hex : HexCodec) (text : JsonText) (evs : List EventToWrite) : Prop :=
  ∀ ev ∈ evs, ev.status = .pending ∧ ∃ (V : Verifier) (verifyMsg verifyTime : Bool) (origJson : Json),
    V.hex = hex ∧ V.text = text ∧
      parseAndVerifyEvent V verifyMsg verifyTime origJson = .ok (ev.packed, ev.jsonStr)

/-- A transaction with such events. -/
inductive VerifiedStep (ord : IndexOrder) (hex : HexCodec) (text : JsonText) : Db → Db → Prop
  | write (S : StdSort) (cache : NegentropyFilterCache) {db db' : Db} {evs evs' : List EventToWrite}
      (hsub : Verified hex text evs)
      (hok : (writeEvents S ord hex text cache db evs).2 = .ok (db', evs')) :
      VerifiedStep ord hex text db db'
  | delete (cache : NegentropyFilterCache) {db db' : Db} {levIds : List Nat} {numDeleted : Nat}
      (hok : (db.deleteEvents hex text cache levIds).2 = .ok (db', numDeleted)) :
      VerifiedStep ord hex text db db'
  | negentropy {db db' : Db} (hstore : db'.toStore = db.toStore) : VerifiedStep ord hex text db db'

/-- The databases reachable from the empty one. -/
def VerifiedReachable (ord : IndexOrder) (hex : HexCodec) (text : JsonText) (db : Db) : Prop :=
  Relation.ReflTransGen (VerifiedStep ord hex text) Db.init db

/-- The store has the events of `db`, and payloads that decode to the same texts. -/
structure Recoded (Z : Zstd) (maxEventSize : Nat) (dicts : Table Bytes) (db : Db) (st : Store) : Prop where
  event : st.event = db.event
  payload : ∀ levId json, db.eventPayload.get? levId = some (0 :: json) →
    st.getEventJson Z maxEventSize dicts levId = .ok json

/-- What is used of the JSON library. -/
structure JsonText.Compact (text : JsonText) : Prop where
  closes : ∀ kvs, ∃ body, text.toString (.object kvs) = body ++ [125]
  noBreak : ∀ v, (10 : UInt8) ∉ text.toString v
  parsesEmpty : text.fromString emptyFilterText = .ok (.object [])

section

variable {ord : IndexOrder} {hex : HexCodec} {text : JsonText} {db db' : Db}

theorem text_of_parseAndVerifyEvent {V : Verifier} {verifyMsg verifyTime : Bool} {origJson : Json}
    {packed : PackedEvent} {jsonStr : Bytes}
    (h : parseAndVerifyEvent V verifyMsg verifyTime origJson = .ok (packed, jsonStr)) :
    ∃ kvs, jsonStr = V.text.toString (.object kvs) := by
  rw [parseAndVerifyEvent] at h
  split at h
  · cases h
  · obtain ⟨_, -, h⟩ := bind_eq_ok.1 h
    obtain ⟨_, -, h⟩ := bind_eq_ok.1 h
    obtain ⟨_, -, h⟩ := bind_eq_ok.1 h
    obtain ⟨json, hjson, h⟩ := bind_eq_ok.1 h
    obtain ⟨_, -, h⟩ := bind_eq_ok.1 h
    cases h
    rw [normalisedJson] at hjson
    obtain ⟨_, -, hjson⟩ := bind_eq_ok.1 hjson
    obtain ⟨_, -, hjson⟩ := bind_eq_ok.1 hjson
    obtain ⟨_, -, hjson⟩ := bind_eq_ok.1 hjson
    obtain ⟨_, -, hjson⟩ := bind_eq_ok.1 hjson
    obtain ⟨_, -, hjson⟩ := bind_eq_ok.1 hjson
    obtain ⟨_, -, hjson⟩ := bind_eq_ok.1 hjson
    obtain ⟨_, -, hjson⟩ := bind_eq_ok.1 hjson
    cases hjson
    exact ⟨_, rfl⟩

theorem Verified.submitted {evs : List EventToWrite} (h : Verified hex text evs) : Submitted hex evs := by
  intro ev hev
  obtain ⟨hp, V, verifyMsg, verifyTime, origJson, rfl, -, hok⟩ := h ev hev
  exact ⟨hp, fromJson_of_parseAndVerifyEvent hok⟩

theorem VerifiedStep.storeStep (h : VerifiedStep ord hex text db db') : StoreStep ord hex text db db' := by
  cases h with
  | write S cache hsub hok => exact .write S cache hsub.submitted hok
  | delete cache hok => exact .delete cache hok
  | negentropy hstore => exact .negentropy hstore

theorem VerifiedReachable.storeInv (h : VerifiedReachable ord hex text db) : StoreInv db.toStore := by
  induction h with
  | refl => exact storeInv_empty
  | tail _ hstep ih => exact hstep.storeStep.storeInv ih

/-- Every event has the text of an object as its payload. -/
def ObjectTexts (text : JsonText) (db : Db) : Prop :=
  ∀ r ∈ db.event.rows, ∃ kvs, db.eventPayload.get? r.1 = some (0 :: text.toString (.object kvs))

theorem WriteRun.objectTexts {filters : List FilterInfo} {prevId : Option Bytes}
    {evs evs' : List EventToWrite} (h : WriteRun ord filters prevId db evs db' evs')
    (hevs : ∀ ev ∈ evs, ∃ kvs, ev.jsonStr = text.toString (.object kvs)) (hdb : ObjectTexts text db) :
    ObjectTexts text db' := by
  induction h with
  | nil => exact hdb
  | @cons prevId db db₁ db' ev ev' rest rest' hone hout hrun ih =>
    refine ih (fun e he => hevs e (List.mem_cons_of_mem _ he)) ?_
    by_cases hs : ev'.status = .written
    · intro r hr
      rw [hout.payload hs hr]
      rcases (hout.mem_rows hs).1 hr with rfl | ⟨hold, -⟩
      · obtain ⟨kvs, hkvs⟩ := hevs ev List.mem_cons_self
        exact ⟨kvs, by rw [if_pos rfl, hkvs]⟩
      · rw [if_neg (ne_of_lt (hout.levId_gt hs hold))]
        exact hdb r hold
    · rw [hout.eq_of_not_written hs]
      exact hdb

theorem VerifiedReachable.objectTexts (h : VerifiedReachable ord hex text db) : ObjectTexts text db := by
  induction h with
  | refl => exact nofun
  | @tail db db' hreach hstep ih =>
    have hinv : StoreInv db.toStore := VerifiedReachable.storeInv hreach
    cases hstep with
    | @write S cache _ _ evs evs' hsub hok =>
      refine (writeEvents_run hinv hsub.submitted.writable hok).objectTexts ?_ ih
      intro ev hev
      obtain ⟨-, V, verifyMsg, verifyTime, origJson, -, rfl, hev'⟩ := hsub ev ((S.perm _ _).mem_iff.1 hev)
      exact text_of_parseAndVerifyEvent hev'
    | delete cache hok =>
      rw [deleteEvents_eq_ok hok]
      intro r hr
      rw [Db.payload_deleteLoop_of_mem hr]
      exact ih r (Db.mem_deleteLoop.1 hr).1
    | negentropy hstore =>
      intro r hr
      rw [hstore] at hr ⊢
      exact ih r hr

end

/-! ## The round trip -/

open WriterPipeline

/-- The pipeline has read the events in order, into an empty database that nobody else writes to, and
`flush` has returned. -/
def Imports (cfg : PipelineConfig) (evs : List EventToWrite) (s : WriterPipeline) : Prop :=
  Reachable cfg alone Db.init s ∧ s.producer = .flushed ∧ s.submitted = evs.map .event

/-- The store has the packed event with this text. -/
def Store.HasText (Z : Zstd) (maxEventSize : Nat) (dicts : Table Bytes) (st : Store) (packed : PackedEvent)
    (json : Bytes) : Prop :=
  ∃ levId, (levId, packed) ∈ st.event.rows ∧ st.getEventJson Z maxEventSize dicts levId = .ok json

section

variable {Z : Zstd} {maxEventSize : Nat} {dicts : Table Bytes} {cfg : PipelineConfig} {db : Db} {st : Store}
  {items : List (PackedEvent × Bytes)}

/-- The event that a fried line stands for. -/
def friedEvent (c : PackedEvent × Bytes) : EventToWrite := { packed := c.1, jsonStr := c.2 ++ [125] }

/-- What an imported database has, from the events that were imported. -/
theorem hasText_of_imports {evs : List EventToWrite} {s : WriterPipeline} (hevs : Importable evs)
    (h : Imports cfg evs s) (dicts' : Table Bytes) (p : PackedEvent) (json : Bytes) :
    s.db.HasText Z maxEventSize dicts' p json ↔ ∃ ev ∈ evs, ev.packed = p ∧ ev.jsonStr = json := by
  obtain ⟨hreach, hp, hsub⟩ := h
  obtain ⟨-, hall, hfrom⟩ := hreach.restored hevs hsub hp
  have hinv := (hreach.restoring hevs (hsub ▸ List.prefix_rfl)).storeInv
  constructor
  · rintro ⟨levId, hr, hjson⟩
    obtain ⟨ev, hev, rfl⟩ := hfrom _ hr
    obtain ⟨levId', hr', hpay⟩ := hall ev hev
    cases hinv.uniqueIds _ _ hr hr' rfl
    rw [Store.getEventJson, hpay] at hjson
    exact ⟨ev, hev, rfl, Except.ok.inj hjson⟩
  · rintro ⟨ev, hev, rfl, rfl⟩
    obtain ⟨levId, hr, hpay⟩ := hall ev hev
    refine ⟨levId, hr, ?_⟩
    rw [Store.getEventJson, hpay]
    rfl

/-- What is exported can be imported: the events of a store are independent of each other. -/
theorem importable_of_exported (hinv : StoreInv db.toStore) (hevent : st.event = db.event)
    (hitems : ∀ c, c ∈ items ↔ ∃ levId, (levId, c.1) ∈ st.event.rows ∧
      st.getEventJson Z maxEventSize dicts levId = .ok (c.2 ++ [125]))
    (hpair : items.Pairwise fun a b => ∃ r r' : Nat × PackedEvent, r ∈ st.event.rows ∧ r' ∈ st.event.rows ∧
      r ≠ r' ∧ r.2 = a.1 ∧ r'.2 = b.1) : Importable (items.map friedEvent) := by
  constructor
  · intro ev hev
    obtain ⟨c, hc, rfl⟩ := List.mem_map.1 hev
    obtain ⟨levId, hr, -⟩ := (hitems c).1 hc
    exact ⟨rfl, hinv.wellPacked _ (hevent ▸ hr)⟩
  · refine List.pairwise_map.2 (hpair.imp ?_)
    rintro a b ⟨r, r', hr, hr', hne, hra, hrb⟩
    show Independent a.1 b.1
    rw [← hra, ← hrb]
    exact hinv.independent (hevent ▸ hr) (hevent ▸ hr') hne

/-- The exported events are those that the store has. -/
theorem hasText_iff_exported (hclosed : ∀ r ∈ st.event.rows, ∃ body,
      st.getEventJson Z maxEventSize dicts r.1 = .ok (body ++ [125]))
    (hitems : ∀ c, c ∈ items ↔ ∃ levId, (levId, c.1) ∈ st.event.rows ∧
      st.getEventJson Z maxEventSize dicts levId = .ok (c.2 ++ [125])) (p : PackedEvent) (json : Bytes) :
    st.HasText Z maxEventSize dicts p json ↔
      ∃ ev ∈ items.map friedEvent, ev.packed = p ∧ ev.jsonStr = json := by
  constructor
  · rintro ⟨levId, hr, hjson⟩
    obtain ⟨body, hbody⟩ := hclosed _ hr
    cases hjson.symm.trans hbody
    exact ⟨_, List.mem_map_of_mem ((hitems (p, body)).2 ⟨levId, hr, hbody⟩), rfl, rfl⟩
  · rintro ⟨ev, hev, rfl, rfl⟩
    obtain ⟨c, hc, rfl⟩ := List.mem_map.1 hev
    exact (hitems c).1 hc

/-- Whatever the order of the export, the batches of the import and the encoding of the payloads: every
line is read back as it was written, every event is written again, and the database in the end has exactly
the events and the texts of the first one. A batch takes at least one event: a writer whose batches take
none puts its events back for ever. -/
theorem fried_export_restores
    (hreach : VerifiedReachable cfg.ord cfg.verifier.hex cfg.verifier.text db)
    (hst : Recoded Z maxEventSize dicts db st) (htext : cfg.verifier.text.Compact)
    (hhex : cfg.verifier.hex.Inverts) (hbatch : 1 ≤ cfg.writeBatchSize) (reverse : Bool) :
    ∃ lines evs, cmdExport Z maxEventSize dicts st cfg.ord 0 maxU64 reverse true = .ok lines ∧
      List.Forall₂ (fun line ev =>
        parseFried cfg.verifier.hex line.dropLast = .ok (ev.packed.bytes, ev.jsonStr)) lines evs ∧
      importLines cfg.verifier.hex lines.flatten =
        evs.map (fun ev : EventToWrite => (ev.packed.bytes, ev.jsonStr)) ∧
      (∀ p json, st.HasText Z maxEventSize dicts p json ↔
        ∃ ev ∈ evs, ev.packed = p ∧ ev.jsonStr = json) ∧
      (∃ s, Imports cfg evs s) ∧
      ∀ s, Imports cfg evs s → s.totalWritten = evs.length ∧ s.totalDups = 0 ∧ s.totalRejected = 0 ∧
        ∀ dicts' p json, s.db.HasText Z maxEventSize dicts' p json ↔
          st.HasText Z maxEventSize dicts p json := by
  have hinv : StoreInv db.toStore := hreach.storeInv
  -- the texts are those of objects, so that each ends in the brace that `exportFried` takes off
  have hread : ∀ r ∈ st.event.rows, ∃ kvs, st.getEventJson Z maxEventSize dicts r.1 =
      .ok (cfg.verifier.text.toString (.object kvs)) := by
    intro r hr
    obtain ⟨kvs, hpay⟩ := hreach.objectTexts r (hst.event ▸ hr)
    exact ⟨kvs, hst.payload _ _ hpay⟩
  have hclosed : ∀ r ∈ st.event.rows, ∃ body,
      st.getEventJson Z maxEventSize dicts r.1 = .ok (body ++ [125]) := by
    intro r hr
    obtain ⟨kvs, hjson⟩ := hread r hr
    obtain ⟨body, hbody⟩ := htext.closes kvs
    exact ⟨body, by rw [hjson, hbody]⟩
  obtain ⟨items, hexport, hitems, hpair⟩ := cmdExport_eq hclosed reverse
  -- no text has a line break in it
  have hbreak : ∀ c ∈ items, (10 : UInt8) ∉ c.2 := by
    intro c hc hmem
    obtain ⟨levId, hr, hjson⟩ := (hitems c).1 hc
    obtain ⟨kvs, hjson'⟩ := hread _ hr
    apply htext.noBreak (.object kvs)
    rw [← Except.ok.inj (hjson.symm.trans hjson')]
    exact List.mem_append_left _ hmem
  have himp := importable_of_exported hinv hst.event hitems hpair
  have hsame := hasText_iff_exported hclosed hitems
  refine ⟨_, items.map friedEvent, hexport, ?_, ?_, hsame,
    import_completes himp hbatch htext.parsesEmpty, ?_⟩
  · rw [List.forall₂_map_left_iff, List.forall₂_map_right_iff, List.forall₂_same]
    exact fun c _ => parseFried_friedText hhex c
  · rw [importLines_flatten hhex hbreak, List.map_map]
    rfl
  · intro s hs
    -- the pipeline has read every event, and none is a duplicate of another
    obtain ⟨hreach', hflushed, hsub⟩ := hs
    have hres := hreach'.restoring himp (hsub ▸ List.prefix_rfl)
    refine ⟨(hreach'.restored himp hsub hflushed).1, hres.dups, hres.rejected, fun dicts' p json => ?_⟩
    rw [hasText_of_imports himp ⟨hreach', hflushed, hsub⟩, hsame]

end

/-! ## Two events -/

/-- A JSON library that prints, and reads the texts of some values. -/
def textsOf (values : List Json) : JsonText where
  fromString s :=
    if s = emptyFilterText then .ok (.object [])
    else
      match values.find? fun v => v.print == s with
      | some v => .ok v
      | none => .error .badJson
  toString := Json.print

theorem compact_textsOf (values : List Json) : (textsOf values).Compact where
  closes kvs := ⟨123 :: Json.printMembers kvs, rfl⟩
  noBreak := Json.noBreak_print
  parsesEmpty := rfl

/-- A note of the key of the signed event, without text and tags. -/
def signedNote (createdAt : UInt64) (id sig : Bytes) : Json :=
  .object [(ascii "content", .string []), (ascii "created_at", .unsigned createdAt),
    (ascii "id", .string id), (ascii "kind", .unsigned 1),
    (ascii "pubkey", .string samplePubkey), (ascii "sig", .string sig), (ascii "tags", .array [])]

def laterId : Bytes := ascii "a302563da9ecabf89e26ebf722aefeed1bd2c79f22a53b3e3809fc2c438de2c2"

def laterSig : Bytes :=
  ascii "07c9b944d9d7c50533717ee49e4955e20f40fded8471c4ca5bdda749af198c73" ++
    ascii "1c9319b9e62601dda6789a34e1bf82c5a72c0f30ecaddf6972d3d02c9484fe49"

/-- A note of the next second. -/
def laterEvent : Json := signedNote 1700000001 laterId laterSig

/-- The text that its id is the hash of. -/
def laterHashText : Bytes :=
  ascii "[0,\"" ++ samplePubkey ++ ascii "\",1700000001,1,[],\"\"]"

/-- The hash and the signature scheme on the two events. -/
def twoEventsCrypto : Crypto where
  sha256 s :=
    if s = sampleHashText then hexBytes sampleId
    else if s = laterHashText then hexBytes laterId
    else []
  xonlyPubkeyParse pubkey := pubkey == hexBytes samplePubkey
  schnorrsigVerify sig hash pubkey := pubkey == hexBytes samplePubkey &&
    (sig == hexBytes sampleSig && hash == hexBytes sampleId || sig == hexBytes laterSig && hash == hexBytes laterId)

/-- The pipeline of `import` with batches of one event. -/
def samplePipeline : PipelineConfig where
  S := .insertion
  ord := byteOrder
  verifier := ⟨twoEventsCrypto, hexCodec, textsOf [sampleEvent, laterEvent], .default, 1700000000⟩
  writeBatchSize := 1
  verifyMsg := true
  verifyTime := false

/-- An event that has been verified, to be written. -/
def toWrite (c : PackedEvent × Bytes) : EventToWrite := { packed := c.1, jsonStr := c.2 }

/-- The events are verified and written. -/
def sampleRun : Except Err ((PackedEvent × Bytes) × (PackedEvent × Bytes) × Db) := do
  let c ← parseAndVerifyEvent samplePipeline.verifier true false sampleEvent
  let c' ← parseAndVerifyEvent samplePipeline.verifier true false laterEvent
  let (db, _) ← (writeEvents .insertion byteOrder hexCodec samplePipeline.verifier.text {} Db.init
    [toWrite c, toWrite c']).2
  .ok (c, c', db)

theorem sampleRun_ok : ∃ c c' db evs, parseAndVerifyEvent samplePipeline.verifier true false sampleEvent = .ok c ∧
    parseAndVerifyEvent samplePipeline.verifier true false laterEvent = .ok c' ∧
    (writeEvents .insertion byteOrder hexCodec samplePipeline.verifier.text {} Db.init
      [toWrite c, toWrite c']).2 = .ok (db, evs) ∧ db.event.rows.length = 2 := by
  have heval : (sampleRun.map fun r => r.2.2.event.rows.length) = .ok 2 := by decide +kernel
  obtain ⟨⟨c, c', db⟩, hrun, hlen⟩ := map_eq_ok.1 heval
  obtain ⟨c, hverify, hrun⟩ := bind_eq_ok.1 hrun
  obtain ⟨c', hverify', hrun⟩ := bind_eq_ok.1 hrun
  obtain ⟨⟨db, evs⟩, hwrite, hrun⟩ := bind_eq_ok.1 hrun
  cases hrun
  exact ⟨c, c', db, evs, hverify, hverify', hwrite, hlen⟩

/-- The payloads as they are. -/
theorem recoded_self (db : Db) : Recoded Archive.storedZstd 65536 Table.empty db db.toStore := by
  refine ⟨rfl, fun levId json hpay => ?_⟩
  rw [Store.getEventJson, hpay]
  rfl

/-- Two events, which are imported in two batches. -/
theorem fried_export_restores_sample :
    ∃ db, VerifiedReachable byteOrder hexCodec samplePipeline.verifier.text db ∧ db.event.rows.length = 2 ∧
      ∃ lines evs, cmdExport Archive.storedZstd 65536 Table.empty db.toStore byteOrder 0 maxU64 true true =
          .ok lines ∧
        List.Forall₂ (fun line ev =>
          parseFried hexCodec line.dropLast = .ok (ev.packed.bytes, ev.jsonStr)) lines evs ∧
        importLines hexCodec lines.flatten =
          evs.map (fun ev : EventToWrite => (ev.packed.bytes, ev.jsonStr)) ∧
        (∀ p json, db.HasText Archive.storedZstd 65536 Table.empty p json ↔
          ∃ ev ∈ evs, ev.packed = p ∧ ev.jsonStr = json) ∧
        (∃ s, Imports samplePipeline evs s) ∧
        ∀ s, Imports samplePipeline evs s →
          s.totalWritten = evs.length ∧ s.totalDups = 0 ∧ s.totalRejected = 0 ∧
          ∀ dicts' p json, s.db.HasText Archive.storedZstd 65536 dicts' p json ↔
            db.HasText Archive.storedZstd 65536 Table.empty p json := by
  obtain ⟨c, c', db, evs, hverify, hverify', hwrite, hlen⟩ := sampleRun_ok
  have hverified : Verified hexCodec samplePipeline.verifier.text [toWrite c, toWrite c'] := by
    intro ev hev
    rcases List.mem_cons.mp hev with rfl | hev
    · exact ⟨rfl, samplePipeline.verifier, true, false, sampleEvent, rfl, rfl, hverify⟩
    · rw [List.mem_singleton.mp hev]
      exact ⟨rfl, samplePipeline.verifier, true, false, laterEvent, rfl, rfl, hverify'⟩
  have hreach : VerifiedReachable byteOrder hexCodec samplePipeline.verifier.text db :=
    .single (.write .insertion {} hverified hwrite)
  exact ⟨db, hreach, hlen, @fried_export_restores _ _ _ samplePipeline _ _ hreach (recoded_self db)
    (compact_textsOf _) inverts_hexCodec le_rfl true⟩

end Strfry
