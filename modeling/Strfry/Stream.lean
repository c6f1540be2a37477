import Strfry.HttpServer
import Strfry.Lib.Feed
import Strfry.MeshWrites
import Strfry.Negentropy

/-!
# Streaming to and from another relay

`cmd_stream` asks another relay for its new events and writes them, and sends it the events that are new in the
database. `currEventId` follows the table of events, and `downloadedIds` are the ids of the events that came from
the relay, so that they are not sent back.

What comes from the relay may be anything. The import pipeline and other processes commit between the calls of
`onMessage` and `onTrigger`, both of which run in the websocket thread.

Every new event is handled once and in order (`Stream.stream_handles_once`), and none that came from the relay is
sent back (`Stream.downloaded_not_uploaded`).
-/

set_option autoImplicit false

namespace Strfry

open Lib

/-- The option `--dir`. -/
inductive StreamDir
  | up
  | down
  | both
  deriving DecidableEq

/-- The relay is asked for events. -/
def StreamDir.downloads : StreamDir → Bool
  | up => false
  | _ => true

/-- Events are sent to the relay. -/
def StreamDir.uploads : StreamDir → Bool
  | down => false
  | _ => true

/-- The options of `cmd_stream`, and the libraries. -/
structure StreamConfig where
  dir : StreamDir
  S : StdSort
  ord : IndexOrder
  verifier : Verifier
  zstd : Zstd
  maxEventSize : Nat
  dictionaries : Table Bytes

/-- What has happened: the REQ was sent, an event of the relay was accepted, or an event of the database was
handled. An upload is lost when there is no connection, and a payload may not decode. -/
inductive StreamEntry
  | requested
  | accepted (id : Bytes)
  | uploaded (r : Nat × PackedEvent) (msg : Bytes)
  | dropped (r : Nat × PackedEvent)
  | skipped (r : Nat × PackedEvent)
  | failed (r : Nat × PackedEvent)
  deriving DecidableEq

/-- The event that was handled. -/
def StreamEntry.handled : StreamEntry → Option (Nat × PackedEvent)
  | uploaded r _ => some r
  | dropped r => some r
  | skipped r => some r
  | failed r => some r
  | _ => none

/-- The variables of `cmd_stream`. `log`, `downloaded`, the rows that its own pipeline has written, and
`highest` are history. -/
structure Stream where
  db : Db
  currEventId : Nat := db.event.lastKey
  downloadedIds : Finset Bytes := ∅
  connected : Bool := false
  written : List Json := []
  log : List StreamEntry := []
  downloaded : List (Nat × PackedEvent) := []
  highest : Nat := db.event.lastKey

namespace Stream

/-! ## The callbacks -/

/-- `onConnect`. -/
def onConnect (cfg : StreamConfig) (s : Stream) : Stream :=
  { s with
    connected := true
    log := if cfg.dir.downloads then s.log ++ [.requested] else s.log }

/-- An EVENT of the relay. The id is the one that the message claims. -/
def onEvent (cfg : StreamConfig) (plugin : Json → PluginEventSifterResult) (msg : List Json) (s : Stream) :
    Stream :=
  if cfg.dir.downloads then
    match jsonAt msg 2 with
    | .error _ => s
    | .ok evJson =>
      if plugin evJson = .accept then
        match claimedId cfg.verifier evJson with
        | .error _ => s
        | .ok id =>
          if id.length = 32 then
            { s with
              downloadedIds := insert id s.downloadedIds
              written := s.written ++ [evJson]
              log := s.log ++ [.accepted id] }
          else s
      else s
  else s

/-- `onMessage`. The other messages are only logged, and exceptions are caught. -/
def onMessage (cfg : StreamConfig) (plugin : Json → PluginEventSifterResult) (msgStr : Bytes) (s : Stream) :
    Stream :=
  match cfg.verifier.text.fromString msgStr with
  | .ok (.array (.string type :: rest)) =>
    if type = ascii "EVENT" then s.onEvent cfg plugin (.string type :: rest) else s
  | _ => s

/-- The loop of `onTrigger`. An exception of `getEventJson` ends it. -/
def uploadLoop (cfg : StreamConfig) (db : Store) : List (Nat × PackedEvent) → Stream → Stream
  | [], s => s
  | r :: rest, s =>
    if r.2.id ∈ s.downloadedIds then
      uploadLoop cfg db rest { s with
        currEventId := r.1, downloadedIds := s.downloadedIds.erase r.2.id, log := s.log ++ [.skipped r] }
    else
      match db.getEventJson cfg.zstd cfg.maxEventSize cfg.dictionaries r.1 with
      | .error _ => { s with currEventId := r.1, log := s.log ++ [.failed r] }
      | .ok json =>
        uploadLoop cfg db rest { s with
          currEventId := r.1
          log := s.log ++ [if s.connected then .uploaded r (eventMsg json) else .dropped r] }

/-- `onTrigger`. -/
def onTrigger (cfg : StreamConfig) (s : Stream) : Stream :=
  if cfg.dir.uploads then
    s.uploadLoop cfg s.db.toStore (s.db.event.rowsFrom (s.currEventId + 1))
  else s

/-- The database after a transaction. -/
def committed (s : Stream) (db' : Db) : Stream :=
  { s with db := db', highest := max s.highest db'.event.lastKey }

/-- One step: a callback, a batch of the own pipeline, whose events were accepted as JSON, or a transaction of
another process. -/
inductive Step (cfg : StreamConfig) : Stream → Stream → Prop
  | connect {s : Stream} : Step cfg s (s.onConnect cfg)
  | disconnect {s : Stream} : Step cfg s { s with connected := false }
  | message {s : Stream} (plugin : Json → PluginEventSifterResult) (msgStr : Bytes) :
      Step cfg s (s.onMessage cfg plugin msgStr)
  | trigger {s : Stream} : Step cfg s (s.onTrigger cfg)
  | write {s : Stream} {cache : NegentropyFilterCache} {evs evs' : List EventToWrite} {db' : Db}
      (verified : VerifiedFrom cfg.verifier s.written evs)
      (call : (writeEvents cfg.S cfg.ord cfg.verifier.hex cfg.verifier.text cache s.db evs).2 =
        .ok (db', evs')) :
      Step cfg s { s.committed db' with downloaded := s.downloaded ++ added s.db db' }
  | other {s : Stream} {db' : Db} (txn : StoreStep cfg.ord cfg.verifier.hex cfg.verifier.text s.db db') :
      Step cfg s (s.committed db')

/-! ## The table that is followed -/

/-- The events that were handled. -/
def handledRows (log : List StreamEntry) : List (Nat × PackedEvent) := log.filterMap StreamEntry.handled

/-- The table of events, and how far `onTrigger` has come in it. -/
def feed (s : Stream) : Feed PackedEvent := ⟨s.db.event, s.highest, s.currEventId, handledRows s.log⟩

variable {cfg : StreamConfig} {db : Store} {rows : List (Nat × PackedEvent)} {s s' : Stream}

theorem handledRows_append (log log' : List StreamEntry) :
    handledRows (log ++ log') = handledRows log ++ handledRows log' := List.filterMap_append

theorem handledRows_send (connected : Bool) (r : Nat × PackedEvent) (msg : Bytes) :
    handledRows [if connected then .uploaded r msg else .dropped r] = [r] := by
  cases connected <;> rfl

/-- What the loop leaves as it is, and the events that it has handled. -/
structure Uploads (rows : List (Nat × PackedEvent)) (s s' : Stream) (done : List (Nat × PackedEvent)) : Prop where
  db : s'.db = s.db
  highest : s'.highest = s.highest
  written : s'.written = s.written
  downloaded : s'.downloaded = s.downloaded
  upTo : done <+: rows
  currEventId : s'.currEventId = Feed.advance s.currEventId done
  handled : handledRows s'.log = handledRows s.log ++ done

/-- One event, and then the others. -/
theorem Uploads.cons {r : Nat × PackedEvent} {done : List (Nat × PackedEvent)} {ids : Finset Bytes}
    {entry : StreamEntry} (hentry : entry.handled = some r)
    (h : Uploads rows { s with currEventId := r.1, downloadedIds := ids, log := s.log ++ [entry] } s' done) :
    Uploads (r :: rows) s s' (r :: done) where
  db := h.db
  highest := h.highest
  written := h.written
  downloaded := h.downloaded
  upTo := (List.prefix_cons_inj r).mpr h.upTo
  currEventId := by rw [h.currEventId, Feed.advance_cons]
  handled := by
    rw [h.handled, handledRows_append, List.append_assoc]
    simp [handledRows, hentry]

theorem uploadLoop_uploads (cfg : StreamConfig) (db : Store) (rows : List (Nat × PackedEvent)) (s : Stream) :
    ∃ done, Uploads rows s (s.uploadLoop cfg db rows) done := by
  induction rows generalizing s with
  | nil => exact ⟨[], rfl, rfl, rfl, rfl, List.prefix_refl _, rfl, (List.append_nil _).symm⟩
  | cons r rest ih =>
    simp only [uploadLoop]
    split
    · obtain ⟨done, hdone⟩ := ih _
      exact ⟨r :: done, hdone.cons rfl⟩
    · split
      · exact ⟨[r], rfl, rfl, rfl, rfl, (List.prefix_cons_inj r).mpr List.nil_prefix, rfl,
          handledRows_append _ _⟩
      · obtain ⟨done, hdone⟩ := ih _
        refine ⟨r :: done, hdone.cons ?_⟩
        cases s.connected <;> rfl

theorem onTrigger_db (cfg : StreamConfig) (s : Stream) : (s.onTrigger cfg).db = s.db := by
  rw [onTrigger]
  split
  · obtain ⟨done, h⟩ := uploadLoop_uploads cfg s.db.toStore (s.db.event.rowsFrom (s.currEventId + 1)) s
    exact h.db
  · rfl

/-- A loop in which all payloads decode handles all events. -/
theorem uploadLoop_all (hjson : ∀ r ∈ rows, ∃ json, db.getEventJson cfg.zstd cfg.maxEventSize cfg.dictionaries
    r.1 = .ok json) (s : Stream) :
    handledRows (s.uploadLoop cfg db rows).log = handledRows s.log ++ rows := by
  induction rows generalizing s with
  | nil => exact (List.append_nil _).symm
  | cons r rest ih =>
    have hrest := fun r' hr' => hjson r' (List.mem_cons_of_mem _ hr')
    simp only [uploadLoop]
    split
    · rw [ih hrest, handledRows_append, List.append_assoc]
      rfl
    · obtain ⟨json, hok⟩ := hjson r List.mem_cons_self
      rw [hok, ih hrest, handledRows_append, handledRows_send, List.append_assoc]
      rfl

/-- The state after an event of the relay was accepted. -/
def accept (s : Stream) (evJson : Json) (id : Bytes) : Stream :=
  { s with
    downloadedIds := insert id s.downloadedIds
    written := s.written ++ [evJson]
    log := s.log ++ [.accepted id] }

/-- A message of the relay changes nothing, or is an event with an id that is accepted. -/
theorem onMessage_cases (cfg : StreamConfig) (plugin : Json → PluginEventSifterResult) (msgStr : Bytes)
    (s : Stream) : s.onMessage cfg plugin msgStr = s ∨ ∃ evJson id, cfg.dir.downloads = true ∧
      claimedId cfg.verifier evJson = .ok id ∧
      s.onMessage cfg plugin msgStr = s.accept evJson id := by
  rw [onMessage]
  split
  · split
    · rw [onEvent]
      split
      · rename_i hdown
        split
        · exact .inl rfl
        · rename_i evJson hev
          split
          · split
            · exact .inl rfl
            · rename_i id hid
              split
              · exact .inr ⟨evJson, id, hdown, hid, rfl⟩
              · exact .inl rfl
          · exact .inl rfl
      · exact .inl rfl
    · exact .inl rfl
  · exact .inl rfl

/-- Each step is one of the table and its reader, or of no matter to them. -/
theorem Step.feed (hstep : Step cfg s s') : s'.feed = s.feed ∨ Feed.Step s.feed s'.feed := by
  cases hstep with
  | connect =>
    left
    rw [Stream.feed, Stream.feed, onConnect]
    cases cfg.dir.downloads with
    | false => rfl
    | true =>
      rw [if_pos rfl, handledRows_append]
      simp [handledRows, StreamEntry.handled]
  | disconnect => exact .inl rfl
  | message plugin msgStr =>
    left
    rcases onMessage_cases cfg plugin msgStr s with heq | ⟨evJson, id, -, -, heq⟩
    · rw [heq]
    · rw [heq, Stream.feed, Stream.feed, accept, handledRows_append]
      simp [handledRows, StreamEntry.handled]
  | trigger =>
    rw [onTrigger]
    split
    · obtain ⟨done, h⟩ := uploadLoop_uploads cfg s.db.toStore (s.db.event.rowsFrom (s.currEventId + 1)) s
      have hread : Feed.Step s.feed _ := .read h.upTo
      right
      simp only [Stream.feed, h.db, h.highest, h.currEventId, h.handled]
      exact hread
    · exact .inl rfl
  | write verified call => exact .inr (.change _)
  | other txn => exact .inr (.change _)

/-! ## Each event once -/

/-- A step in which no levId is used for a second event. -/
def FreshStep (cfg : StreamConfig) (s s' : Stream) : Prop := Step cfg s s' ∧ Feed.Fresh s.feed s'.feed

/-- What the log says of the events that are new since the start on `db`: they were handled in the order of
their levIds, and up to `currEventId` none of those that are stored was missed. A call of `onTrigger` in which
all payloads decode leaves none. -/
structure HandlesOnce (cfg : StreamConfig) (db : Db) (s : Stream) : Prop where
  sorted : (handledRows s.log).Pairwise fun a b => a.1 < b.1
  handled : ∀ r ∈ s.db.event.rows, db.event.lastKey < r.1 →
    (r ∈ handledRows s.log ↔ r.1 ≤ s.currEventId)
  next : cfg.dir.uploads = true → (∀ r ∈ s.db.event.rows, ∃ json,
      s.db.getEventJson cfg.zstd cfg.maxEventSize cfg.dictionaries r.1 = .ok json) →
    ∀ r ∈ s.db.event.rows, db.event.lastKey < r.1 → r ∈ handledRows (s.onTrigger cfg).log

theorem feed_of_run {db : Db} (hrun : Relation.ReflTransGen (FreshStep cfg) { db := db } s) :
    Feed.Ordered db.event.lastKey s.feed ∧ Feed.Complete db.event.lastKey s.feed := by
  induction hrun with
  | refl => exact ⟨Feed.ordered_start _, Feed.complete_start _⟩
  | tail _ hstep ih =>
    obtain ⟨hordered, hcomplete⟩ := ih
    rcases hstep.1.feed with heq | hfeed
    · rw [heq]
      exact ⟨hordered, hcomplete⟩
    · exact ⟨hordered.step hfeed, hcomplete.step hfeed hstep.2⟩

/-- Every new event is handled once, in the order in which the events were stored. -/
theorem stream_handles_once {db : Db} (hrun : Relation.ReflTransGen (FreshStep cfg) { db := db } s) :
    HandlesOnce cfg db s := by
  obtain ⟨hordered, hcomplete⟩ := feed_of_run hrun
  refine ⟨hordered.sorted, fun r hr hlt => ⟨fun hmem => (hordered.bounds r hmem).2, hcomplete.all r hr hlt⟩,
    fun hup hjson r hr hlt => ?_⟩
  rw [onTrigger, if_pos hup, uploadLoop_all fun r' hr' => hjson r' (Table.mem_rowsFrom.mp hr').1]
  rcases le_or_gt r.1 s.currEventId with hle | hgt
  · exact List.mem_append_left _ (hcomplete.all r hr hlt hle)
  · exact List.mem_append_right _ (Table.mem_rowsFrom.mpr ⟨hr, hgt⟩)

/-! ## No echo -/

/-- An event is not uploaded after its id was accepted. -/
def NoEcho (a b : StreamEntry) : Prop := ∀ id r msg, a = .accepted id → b = .uploaded r msg → r.2.id ≠ id

/-- A step that stores no event but those in `E`. -/
def StepWithin (cfg : StreamConfig) (E : Set (Nat × PackedEvent)) (s s' : Stream) : Prop :=
  FreshStep cfg s s' ∧ ∀ r ∈ s'.db.event.rows, r ∈ E

/-- The events of a run are in `E`. An id that was accepted is kept until an event with it is skipped, and an
event that the own pipeline has written has such an id. -/
structure Echoless (cfg : StreamConfig) (E : Set (Nat × PackedEvent)) (s : Stream) : Prop where
  known : ∀ r ∈ handledRows s.log, r ∈ E
  ids : ∀ id, .accepted id ∈ s.log → id ∈ s.downloadedIds ∨ ∃ r, .skipped r ∈ s.log ∧ r.2.id = id
  echo : s.log.Pairwise NoEcho
  written : ∀ v ∈ s.written, ∃ id,
    claimedId cfg.verifier v = .ok id ∧ .accepted id ∈ s.log
  own : ∀ r ∈ s.downloaded, .accepted r.2.id ∈ s.log ∧ ∀ msg, .uploaded r msg ∉ s.log

variable {E : Set (Nat × PackedEvent)}

theorem mem_handledRows {log : List StreamEntry} {entry : StreamEntry} {r : Nat × PackedEvent}
    (hentry : entry.handled = some r) (hmem : entry ∈ log) : r ∈ handledRows log :=
  List.mem_filterMap.mpr ⟨entry, hmem, hentry⟩

theorem pairwise_noEcho_concat {log : List StreamEntry} {entry : StreamEntry} (h : log.Pairwise NoEcho)
    (hentry : ∀ r msg, entry = .uploaded r msg → .accepted r.2.id ∉ log) :
    (log ++ [entry]).Pairwise NoEcho := by
  refine List.pairwise_append.mpr ⟨h, List.pairwise_singleton _ _, fun a ha b hb => ?_⟩
  rw [List.mem_singleton.mp hb]
  rintro id r msg rfl heq rfl
  exact hentry r msg heq ha

theorem mem_concat {log : List StreamEntry} {a entry : StreamEntry} (hne : a ≠ entry) :
    a ∈ log ++ [entry] ↔ a ∈ log := by
  rw [List.mem_append, List.mem_singleton, or_iff_left hne]

/-- An event is skipped. -/
theorem Echoless.skip (h : Echoless cfg E s) {r : Nat × PackedEvent} (hr : r ∈ E) :
    Echoless cfg E { s with
      currEventId := r.1, downloadedIds := s.downloadedIds.erase r.2.id, log := s.log ++ [.skipped r] } where
  known := by
    intro r' hr'
    rw [handledRows_append] at hr'
    rcases List.mem_append.mp hr' with hr' | hr'
    · exact h.known r' hr'
    · rw [List.mem_singleton.mp hr']
      exact hr
  ids := by
    intro id hid
    rw [mem_concat (by rintro ⟨⟩)] at hid
    rcases h.ids id hid with hin | ⟨r', hr', heq⟩
    · by_cases heq : r.2.id = id
      · exact .inr ⟨r, List.mem_append_right _ (List.mem_singleton_self _), heq⟩
      · exact .inl (Finset.mem_erase.mpr ⟨fun hid => heq hid.symm, hin⟩)
    · exact .inr ⟨r', List.mem_append_left _ hr', heq⟩
  echo := by
    apply pairwise_noEcho_concat h.echo
    rintro r' msg ⟨⟩
  written := by
    intro v hv
    obtain ⟨id, hid, hmem⟩ := h.written v hv
    exact ⟨id, hid, List.mem_append_left _ hmem⟩
  own := by
    intro r' hr'
    obtain ⟨hacc, hup⟩ := h.own r' hr'
    refine ⟨List.mem_append_left _ hacc, fun msg hmem => hup msg ?_⟩
    rwa [mem_concat (by rintro ⟨⟩)] at hmem

/-- An event that has not been handled, and whose id is not kept, was not accepted. -/
theorem Echoless.not_accepted (h : Echoless cfg E s)
    (hinj : ∀ r ∈ E, ∀ r' ∈ E, r.2.id = r'.2.id → r = r') {r : Nat × PackedEvent} (hr : r ∈ E)
    (hnew : r ∉ handledRows s.log) (hid : r.2.id ∉ s.downloadedIds) : .accepted r.2.id ∉ s.log := by
  intro hmem
  rcases h.ids _ hmem with hin | ⟨r', hr', heq⟩
  · exact hid hin
  · have hhandled := mem_handledRows (r := r') rfl hr'
    rw [hinj r' (h.known r' hhandled) r hr heq] at hhandled
    exact hnew hhandled

/-- An event is sent, or its payload does not decode. -/
theorem Echoless.send (h : Echoless cfg E s) {r : Nat × PackedEvent} (hr : r ∈ E)
    (hacc : .accepted r.2.id ∉ s.log) {entry : StreamEntry} (hentry : entry.handled = some r)
    (hskip : ∀ r', entry ≠ .skipped r') :
    Echoless cfg E { s with currEventId := r.1, log := s.log ++ [entry] } where
  known := by
    intro r' hr'
    rw [handledRows_append] at hr'
    rcases List.mem_append.mp hr' with hr' | hr'
    · exact h.known r' hr'
    · obtain ⟨e, he, heq⟩ := List.mem_filterMap.mp hr'
      rw [List.mem_singleton.mp he, hentry] at heq
      cases heq
      exact hr
  ids := by
    intro id hid
    rw [mem_concat] at hid
    · rcases h.ids id hid with hin | ⟨r', hr', heq⟩
      · exact .inl hin
      · exact .inr ⟨r', List.mem_append_left _ hr', heq⟩
    · rintro rfl
      cases hentry
  echo := by
    apply pairwise_noEcho_concat h.echo
    rintro r' msg rfl
    cases hentry
    exact hacc
  written := by
    intro v hv
    obtain ⟨id, hid, hmem⟩ := h.written v hv
    exact ⟨id, hid, List.mem_append_left _ hmem⟩
  own := by
    intro r' hr'
    obtain ⟨hacc', hup⟩ := h.own r' hr'
    refine ⟨List.mem_append_left _ hacc', fun msg hmem => ?_⟩
    rcases List.mem_append.mp hmem with hmem | hmem
    · exact hup msg hmem
    · rw [← List.mem_singleton.mp hmem] at hentry
      cases hentry
      exact hacc hacc'

/-- The loop of `onTrigger`. -/
theorem Echoless.uploadLoop (h : Echoless cfg E s)
    (hinj : ∀ r ∈ E, ∀ r' ∈ E, r.2.id = r'.2.id → r = r') (hE : ∀ r ∈ rows, r ∈ E)
    (hnew : ∀ r ∈ rows, r ∉ handledRows s.log) (hnd : rows.Nodup) :
    Echoless cfg E (s.uploadLoop cfg db rows) := by
  induction rows generalizing s with
  | nil => exact h
  | cons r rest ih =>
    obtain ⟨hnot, hnd⟩ := List.nodup_cons.mp hnd
    have hr := hE r List.mem_cons_self
    have hrest := fun r' hr' => hE r' (List.mem_cons_of_mem r hr')
    -- what is left of the events is still new when this one was handled
    have hleft : ∀ entry : StreamEntry, entry.handled = some r →
        ∀ r' ∈ rest, r' ∉ handledRows (s.log ++ [entry]) := by
      intro entry hentry r' hr' hmem
      rw [handledRows_append] at hmem
      rcases List.mem_append.mp hmem with hmem | hmem
      · exact hnew r' (List.mem_cons_of_mem _ hr') hmem
      · obtain ⟨e, he, heq⟩ := List.mem_filterMap.mp hmem
        rw [List.mem_singleton.mp he, hentry] at heq
        cases heq
        exact hnot hr'
    simp only [Stream.uploadLoop]
    split
    · exact ih (h.skip hr) hrest (hleft _ rfl) hnd
    · rename_i hid
      have hacc := h.not_accepted hinj hr (hnew r List.mem_cons_self) hid
      split
      · exact h.send hr hacc rfl (by rintro r' ⟨⟩)
      · rename_i json _
        have hentry : (if s.connected then StreamEntry.uploaded r (eventMsg json) else .dropped r).handled =
            some r := by cases s.connected <;> rfl
        refine ih (h.send hr hacc hentry ?_) hrest (hleft _ hentry) hnd
        intro r'
        cases s.connected <;> rintro ⟨⟩

/-- An id is accepted. -/
theorem Echoless.accept (h : Echoless cfg E s) {evJson : Json} {id : Bytes}
    (hid : claimedId cfg.verifier evJson = .ok id) :
    Echoless cfg E (s.accept evJson id) where
  known := by
    intro r hr
    rw [Stream.accept, handledRows_append] at hr
    rcases List.mem_append.mp hr with hr | hr
    · exact h.known r hr
    · cases hr
  ids := by
    intro id' hmem
    rcases List.mem_append.mp hmem with hmem | hmem
    · rcases h.ids id' hmem with hin | ⟨r, hr, heq⟩
      · exact .inl (Finset.mem_insert_of_mem hin)
      · exact .inr ⟨r, List.mem_append_left _ hr, heq⟩
    · cases List.mem_singleton.mp hmem
      exact .inl (Finset.mem_insert_self _ _)
  echo := by
    apply pairwise_noEcho_concat h.echo
    rintro r msg ⟨⟩
  written := by
    intro v hv
    rcases List.mem_append.mp hv with hv | hv
    · obtain ⟨id', hid', hmem⟩ := h.written v hv
      exact ⟨id', hid', List.mem_append_left _ hmem⟩
    · rw [List.mem_singleton.mp hv]
      exact ⟨id, hid, List.mem_append_right _ (List.mem_singleton_self _)⟩
  own := by
    intro r hr
    obtain ⟨hacc, hup⟩ := h.own r hr
    refine ⟨List.mem_append_left _ hacc, fun msg hmem => hup msg ?_⟩
    rcases List.mem_append.mp hmem with hmem | hmem
    · exact hmem
    · cases List.mem_singleton.mp hmem

/-- A row that a batch adds has the id of an event that was accepted. -/
theorem accepted_of_added (h : Echoless cfg E s) {cache : NegentropyFilterCache} {evs evs' : List EventToWrite}
    {db' : Db} (hreach : StoreReachable cfg.ord cfg.verifier.hex cfg.verifier.text s.db)
    (verified : VerifiedFrom cfg.verifier s.written evs)
    (call : (writeEvents cfg.S cfg.ord cfg.verifier.hex cfg.verifier.text cache s.db evs).2 =
      .ok (db', evs')) :
    ∀ r ∈ added s.db db', .accepted r.2.id ∈ s.log := by
  intro r hr
  obtain ⟨v, hv, hid⟩ := exists_written_of_added hreach verified call r hr
  obtain ⟨id, hid', hmem⟩ := h.written v hv
  rwa [Except.ok.inj (hid.symm.trans hid')]

/-- A transaction changes nothing that the log is about. -/
theorem Echoless.committed (h : Echoless cfg E s) (db' : Db) : Echoless cfg E (s.committed db') :=
  ⟨h.known, h.ids, h.echo, h.written, h.own⟩

/-- The REQ is sent. -/
theorem Echoless.request (h : Echoless cfg E s) :
    Echoless cfg E { s with connected := true, log := s.log ++ [.requested] } where
  known := by
    intro r hr
    rw [handledRows_append] at hr
    rcases List.mem_append.mp hr with hr | hr
    · exact h.known r hr
    · cases hr
  ids := by
    intro id hid
    rw [mem_concat (by rintro ⟨⟩)] at hid
    rcases h.ids id hid with hin | ⟨r, hr, heq⟩
    · exact .inl hin
    · exact .inr ⟨r, List.mem_append_left _ hr, heq⟩
  echo := by
    apply pairwise_noEcho_concat h.echo
    rintro r msg ⟨⟩
  written := by
    intro v hv
    obtain ⟨id, hid, hmem⟩ := h.written v hv
    exact ⟨id, hid, List.mem_append_left _ hmem⟩
  own := by
    intro r hr
    obtain ⟨hacc, hup⟩ := h.own r hr
    refine ⟨List.mem_append_left _ hacc, fun msg hmem => hup msg ?_⟩
    rwa [mem_concat (by rintro ⟨⟩)] at hmem

/-- The own pipeline commits. What it adds is behind all that was handled. -/
theorem Echoless.write (h : Echoless cfg E s) {db' : Db}
    (hacc : ∀ r ∈ added s.db db', .accepted r.2.id ∈ s.log)
    (hnew : ∀ r ∈ added s.db db', r ∉ handledRows s.log) :
    Echoless cfg E { s.committed db' with downloaded := s.downloaded ++ added s.db db' } where
  known := h.known
  ids := h.ids
  echo := h.echo
  written := h.written
  own := by
    intro r hr
    rcases List.mem_append.mp hr with hr | hr
    · exact h.own r hr
    · exact ⟨hacc r hr, fun msg hmem => hnew r hr (mem_handledRows rfl hmem)⟩

theorem Step.echoless {k : Nat} (h : Echoless cfg E s) (hstep : Step cfg s s')
    (hfresh : Feed.Fresh s.feed s'.feed)
    (hreach : StoreReachable cfg.ord cfg.verifier.hex cfg.verifier.text s.db)
    (hordered : Feed.Ordered k s.feed) (hcomplete : Feed.Complete k s.feed)
    (hinj : ∀ r ∈ E, ∀ r' ∈ E, r.2.id = r'.2.id → r = r') (hE : ∀ r ∈ s.db.event.rows, r ∈ E) :
    Echoless cfg E s' := by
  cases hstep with
  | connect =>
    rw [onConnect]
    split
    · exact h.request
    · exact ⟨h.known, h.ids, h.echo, h.written, h.own⟩
  | disconnect => exact ⟨h.known, h.ids, h.echo, h.written, h.own⟩
  | message plugin msgStr =>
    rcases onMessage_cases cfg plugin msgStr s with heq | ⟨evJson, id, -, hid, heq⟩
    · rw [heq]
      exact h
    · rw [heq]
      exact h.accept hid
  | trigger =>
    rw [onTrigger]
    split
    · have hrows : ∀ r ∈ s.db.event.rowsFrom (s.currEventId + 1),
          r ∈ s.db.event.rows ∧ s.currEventId < r.1 := fun r hr => Table.mem_rowsFrom.mp hr
      have hnd : (s.db.event.rowsFrom (s.currEventId + 1)).Nodup :=
        (s.db.event.sorted.imp fun hlt heq => hlt.ne (congrArg Prod.fst heq)).filter _
      refine h.uploadLoop hinj (fun r hr => hE r (hrows r hr).1) (fun r hr hmem => ?_) hnd
      exact absurd (hordered.bounds r hmem).2 (not_le.mpr (hrows r hr).2)
    · exact h
  | @write cache evs evs' db' verified call =>
    refine h.write (accepted_of_added h hreach verified call) fun r hr hmem => ?_
    obtain ⟨hr', hnot⟩ := List.mem_filter.mp hr
    rw [decide_eq_true_eq] at hnot
    have hlt : s.highest < r.1 := (hfresh r hr').resolve_left hnot
    have hle : r.1 ≤ s.highest := (hordered.bounds r hmem).2.trans hcomplete.cursor_le
    exact absurd hle (not_le.mpr hlt)
  | other txn => exact h.committed _

theorem Step.storeReachable (hstep : Step cfg s s')
    (hreach : StoreReachable cfg.ord cfg.verifier.hex cfg.verifier.text s.db) :
    StoreReachable cfg.ord cfg.verifier.hex cfg.verifier.text s'.db := by
  cases hstep with
  | connect => exact hreach
  | disconnect => exact hreach
  | message plugin msgStr =>
    rcases onMessage_cases cfg plugin msgStr s with heq | ⟨evJson, id, -, -, heq⟩
    · rw [heq]
      exact hreach
    · rw [heq]
      exact hreach
  | trigger =>
    rw [onTrigger_db]
    exact hreach
  | @write cache evs evs' db' verified call =>
    exact hreach.tail (.write cfg.S cache verified.submitted call)
  | other txn => exact hreach.tail txn

/-- A run with its invariants. All events that it ever stores are in `E`. -/
theorem echoless_of_run {db : Db} (hreach : StoreReachable cfg.ord cfg.verifier.hex cfg.verifier.text db)
    (hinj : ∀ r ∈ E, ∀ r' ∈ E, r.2.id = r'.2.id → r = r') (hdb : ∀ r ∈ db.event.rows, r ∈ E)
    (hrun : Relation.ReflTransGen (StepWithin cfg E) { db := db } s) :
    StoreReachable cfg.ord cfg.verifier.hex cfg.verifier.text s.db ∧ (∀ r ∈ s.db.event.rows, r ∈ E) ∧
      Echoless cfg E s := by
  induction hrun with
  | refl =>
    refine ⟨hreach, hdb, ?_, ?_, .nil, ?_, ?_⟩
    · intro r hr
      cases hr
    · intro id hid
      cases hid
    · intro v hv
      cases hv
    · intro r hr
      cases hr
  | tail hrun hstep ih =>
    obtain ⟨hreach', hrows, h⟩ := ih
    obtain ⟨⟨hstep, hfresh⟩, hrows'⟩ := hstep
    obtain ⟨hordered, hcomplete⟩ := feed_of_run (Relation.ReflTransGen.mono (fun _ _ hstep => hstep.1) _ _ hrun)
    refine ⟨?_, hrows', hstep.echoless h hfresh hreach' hordered hcomplete hinj hrows⟩
    exact hstep.storeReachable hreach'

/-- An event that came from the relay is not sent back to it: neither after its id was accepted, nor as a row
that the own pipeline has written. An event that is removed must not be stored again. -/
theorem downloaded_not_uploaded {db : Db}
    (hreach : StoreReachable cfg.ord cfg.verifier.hex cfg.verifier.text db)
    (hinj : ∀ r ∈ E, ∀ r' ∈ E, r.2.id = r'.2.id → r = r') (hdb : ∀ r ∈ db.event.rows, r ∈ E)
    (hrun : Relation.ReflTransGen (StepWithin cfg E) { db := db } s) :
    s.log.Pairwise NoEcho ∧ ∀ r ∈ s.downloaded, ∀ msg, .uploaded r msg ∉ s.log := by
  obtain ⟨-, -, h⟩ := echoless_of_run hreach hinj hdb hrun
  exact ⟨h.echo, fun r hr => (h.own r hr).2⟩

/-! ## A short run -/

/-- What the relay sends. -/
def sampleStreamText : Bytes := ascii "[\"EVENT\",\"sub\"," ++ sampleEventText ++ ascii "]"

/-- Streaming in both directions, with the libraries of the signed event. -/
def sampleStream : StreamConfig where
  dir := .both
  S := .insertion
  ord := byteOrder
  verifier := ⟨sampleCrypto, hexCodec, { sampleText with
    fromString := fun s =>
      if s = sampleStreamText then
        .ok (.array [.string (ascii "EVENT"), .string (ascii "sub"), sampleEvent])
      else sampleText.fromString s }, .default, 1700000000⟩
  zstd := Archive.storedZstd
  maxEventSize := 65536
  dictionaries := Table.empty

/-- A note that does not come from the relay. -/
def localNote : EventToWrite := ⟨repeatedEvent 1 9 1700000000 1, ascii "\x7b\x7d", .pending, 0, 0⟩

theorem submitted_localNote : Submitted hexCodec [localNote] := by
  intro ev hev
  rw [List.mem_singleton.mp hev]
  exact ⟨rfl, fromJson_plainEvent _ _ _ _ _ _⟩

/-- The note of the relay and the local one are written. -/
def sampleWrites : Except Err ((PackedEvent × Bytes) × Db × Db) := do
  let c ← parseAndVerifyEvent sampleStream.verifier true true sampleEvent
  let (db₁, _) ← (writeEvents .insertion byteOrder hexCodec sampleStream.verifier.text {} Db.init
    [{ packed := c.1, jsonStr := c.2 }]).2
  let (db₂, _) ← (writeEvents .insertion byteOrder hexCodec sampleStream.verifier.text {} db₁ [localNote]).2
  .ok (c, db₁, db₂)

/-- The note of the relay has come. -/
def sampleReceived : Stream :=
  (({ db := Db.init } : Stream).onConnect sampleStream).accept sampleEvent (hexBytes sampleId)

/-- The own pipeline has written it. -/
def sampleStored (db : Db) : Stream :=
  { sampleReceived.committed db with downloaded := sampleReceived.downloaded ++ added sampleReceived.db db }

/-- The local note is committed, and `onTrigger` runs. -/
def sampleSent (db₁ db₂ : Db) : Stream := ((sampleStored db₁).committed db₂).onTrigger sampleStream

theorem fromString_sampleStreamText : sampleStream.verifier.text.fromString sampleStreamText =
    .ok (.array [.string (ascii "EVENT"), .string (ascii "sub"), sampleEvent]) := by
  simp only [sampleStream, if_true]

theorem onEvent_sample (s : Stream) : s.onEvent sampleStream (fun _ => .accept)
    [.string (ascii "EVENT"), .string (ascii "sub"), sampleEvent] = s.accept sampleEvent (hexBytes sampleId) := by
  have hid : claimedId sampleStream.verifier sampleEvent =
      .ok (hexBytes sampleId) := by decide +kernel
  have hlen : (hexBytes sampleId).length = 32 := by decide +kernel
  have hdir : sampleStream.dir.downloads = true := rfl
  simp only [onEvent, hdir, jsonAt, List.getElem?_cons_succ, List.getElem?_cons_zero, hid, if_pos hlen, if_true]
  rw [accept]

theorem onMessage_sample : (({ db := Db.init } : Stream).onConnect sampleStream).onMessage sampleStream
    (fun _ => .accept) sampleStreamText = sampleReceived := by
  rw [onMessage, fromString_sampleStreamText]
  simp only [if_true, onEvent_sample]
  rw [sampleReceived]

/-- The note of the relay is skipped, and the local one is sent. -/
theorem exists_sampleRun : ∃ p s,
    Relation.ReflTransGen (StepWithin sampleStream {(1, p), (2, localNote.packed)}) { db := Db.init } s ∧
    p.id ≠ localNote.packed.id ∧ s.downloaded = [(1, p)] ∧
    s.log = [.requested, .accepted p.id, .skipped (1, p),
      .uploaded (2, localNote.packed) (eventMsg (ascii "\x7b\x7d"))] := by
  have heval : (sampleWrites.map fun r => decide (r.2.1.event.rows = [(1, r.1.1)] ∧
      r.2.2.event.rows = [(1, r.1.1), (2, localNote.packed)] ∧ r.1.1.id ≠ localNote.packed.id ∧
      (sampleSent r.2.1 r.2.2).downloaded = [(1, r.1.1)] ∧
      (sampleSent r.2.1 r.2.2).log = [.requested, .accepted r.1.1.id, .skipped (1, r.1.1),
        .uploaded (2, localNote.packed) (eventMsg (ascii "\x7b\x7d"))])) = .ok true := by
    decide +kernel
  obtain ⟨⟨c, db₁, db₂⟩, hrun, hfacts⟩ := map_eq_ok.1 heval
  obtain ⟨hrows₁, hrows₂, hne, hdown, hlog⟩ := of_decide_eq_true hfacts
  obtain ⟨c, hverify, hrun⟩ := bind_eq_ok.1 hrun
  obtain ⟨⟨db₁, evs₁⟩, hfirst, hrun⟩ := bind_eq_ok.1 hrun
  obtain ⟨⟨db₂, evs₂⟩, hsecond, hrun⟩ := bind_eq_ok.1 hrun
  cases hrun
  -- the event that is written is the one that came from the relay
  have hverified : VerifiedFrom sampleStream.verifier sampleReceived.written
      [{ packed := c.1, jsonStr := c.2 }] := by
    intro ev hev
    rw [List.mem_singleton.mp hev]
    exact ⟨rfl, sampleEvent, List.mem_singleton_self _, sampleStream.verifier.now, hverify⟩
  have hlast : db₁.event.lastKey = 1 := by
    rw [Table.lastKey, hrows₁]
    rfl
  have hsent : (sampleSent db₁ db₂).db = db₂ := onTrigger_db sampleStream _
  have hconnect : StepWithin sampleStream {(1, c.1), (2, localNote.packed)} { db := Db.init }
      (({ db := Db.init } : Stream).onConnect sampleStream) := by
    refine ⟨⟨.connect, fun r hr => .inl hr⟩, fun r hr => ?_⟩
    cases hr
  have hmessage : StepWithin sampleStream {(1, c.1), (2, localNote.packed)}
      (({ db := Db.init } : Stream).onConnect sampleStream) sampleReceived := by
    have hstep : Step sampleStream (({ db := Db.init } : Stream).onConnect sampleStream) _ :=
      .message (fun _ => .accept) sampleStreamText
    rw [onMessage_sample] at hstep
    exact ⟨⟨hstep, fun r hr => .inl hr⟩, fun r hr => absurd hr List.not_mem_nil⟩
  have hwrite : StepWithin sampleStream {(1, c.1), (2, localNote.packed)} sampleReceived
      (sampleStored db₁) := by
    have hmem : ∀ r ∈ db₁.event.rows, r = (1, c.1) := by
      intro r hr
      rwa [hrows₁, List.mem_singleton] at hr
    refine ⟨⟨.write hverified hfirst, fun r hr => .inr ?_⟩, fun r hr => .inl (hmem r hr)⟩
    show 0 < r.1
    rw [hmem r hr]
    exact Nat.one_pos
  -- the note of the other process is the second row
  have hmem : ∀ r ∈ db₂.event.rows, r = (1, c.1) ∨ r = (2, localNote.packed) := by
    intro r hr
    rwa [hrows₂, List.mem_cons, List.mem_singleton] at hr
  have hother : StepWithin sampleStream {(1, c.1), (2, localNote.packed)} (sampleStored db₁)
      ((sampleStored db₁).committed db₂) := by
    refine ⟨⟨.other (.write .insertion {} submitted_localNote hsecond), fun r hr => ?_⟩, hmem⟩
    rcases hmem r hr with rfl | rfl
    · left
      show (1, c.1) ∈ db₁.event.rows
      rw [hrows₁]
      exact List.mem_singleton_self _
    · right
      show max 0 db₁.event.lastKey < 2
      rw [hlast]
      decide
  have hsend : StepWithin sampleStream {(1, c.1), (2, localNote.packed)} ((sampleStored db₁).committed db₂)
      (sampleSent db₁ db₂) := by
    refine ⟨⟨.trigger, fun r hr => .inl ?_⟩, fun r hr => ?_⟩
    · have hr : r ∈ (sampleSent db₁ db₂).db.event.rows := hr
      rw [hsent] at hr
      exact hr
    · rw [hsent] at hr
      exact hmem r hr
  exact ⟨c.1, _, ((((Relation.ReflTransGen.single hconnect).tail hmessage).tail hwrite).tail hother).tail hsend,
    hne, hdown, hlog⟩

/-- The run with the local note. -/
theorem stream_handles_once_sample : ∃ s, Relation.ReflTransGen (FreshStep sampleStream) { db := Db.init } s ∧
    handledRows s.log ≠ [] ∧ HandlesOnce sampleStream Db.init s := by
  obtain ⟨p, s, hrun, -, -, hlog⟩ := exists_sampleRun
  have hrun' := Relation.ReflTransGen.mono (fun _ _ hstep => hstep.1) _ _ hrun
  exact ⟨s, hrun', by simp [hlog, handledRows, StreamEntry.handled], stream_handles_once hrun'⟩

/-- The same run. -/
theorem downloaded_not_uploaded_sample : ∃ (p : PackedEvent) (s : Stream),
    p.id ≠ localNote.packed.id ∧ s.downloaded = [(1, p)] ∧
    (∃ msg, .uploaded (2, localNote.packed) msg ∈ s.log) ∧
    s.log.Pairwise NoEcho ∧ ∀ r ∈ s.downloaded, ∀ msg, .uploaded r msg ∉ s.log := by
  obtain ⟨p, s, hrun, hne, hdown, hlog⟩ := exists_sampleRun
  refine ⟨p, s, hne, hdown, ⟨eventMsg (ascii "\x7b\x7d"), by simp [hlog]⟩,
    downloaded_not_uploaded .refl ?_ ?_ hrun⟩
  · rintro r (rfl | rfl) r' (rfl | rfl) heq
    · rfl
    · exact absurd heq hne
    · exact absurd heq.symm hne
    · rfl
  · intro r hr
    cases hr

end Stream

end Strfry
