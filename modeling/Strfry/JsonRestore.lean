import Strfry.PipelinePaths

/-!
# A JSON export restores the database

`export` without `--fried` prints the stored texts, and `import` parses and verifies every line again. What is
stored is the text of the normalised object, with the members that the checks read and no other, so the object
passes the checks a second time with the same packed event and the same text (`parseAndVerifyEvent_again`).
The store is one that `writeEvents` and `deleteEvents` have reached with events that passed them a first time,
under the settings of the importing verifier; only its clock may differ. Of the JSON library it is used, besides
what a fried export needs, that it reads the texts of these objects back.
-/

set_option autoImplicit false

namespace Strfry

open Lib

/-! ## Verifying again -/

/-- The members of an event that the program reads. -/
def eventKeys : List String := ["content", "created_at", "id", "kind", "pubkey", "sig", "tags"]

/-- Two values with the same such members. -/
def SameMembers (v w : Json) : Prop := ∀ key ∈ eventKeys, w.member key = v.member key

section Again

variable {v json : Json}

/-- The normalised object has the members of the value. -/
theorem sameMembers_of_normalisedJson (h : normalisedJson v = .ok json) :
    json.isObject = true ∧ SameMembers v json := by
  rw [normalisedJson] at h
  obtain ⟨content, hcontent, h⟩ := bind_eq_ok.1 h
  obtain ⟨createdAt, hcreatedAt, h⟩ := bind_eq_ok.1 h
  obtain ⟨id, hid, h⟩ := bind_eq_ok.1 h
  obtain ⟨kind, hkind, h⟩ := bind_eq_ok.1 h
  obtain ⟨pubkey, hpubkey, h⟩ := bind_eq_ok.1 h
  obtain ⟨sig, hsig, h⟩ := bind_eq_ok.1 h
  obtain ⟨tags, htags, h⟩ := bind_eq_ok.1 h
  cases h
  refine ⟨rfl, fun key hkey => ?_⟩
  simp only [eventKeys, List.mem_cons, List.not_mem_nil, or_false] at hkey
  rcases hkey with rfl | rfl | rfl | rfl | rfl | rfl | rfl
  · exact hcontent.symm
  · exact hcreatedAt.symm
  · exact hid.symm
  · exact hkind.symm
  · exact hpubkey.symm
  · exact hsig.symm
  · exact htags.symm

theorem SameMembers.nostrJsonToPackedEvent (h : SameMembers v json) (hex : HexCodec) (cfg : EventsConfig) :
    nostrJsonToPackedEvent hex cfg json = Strfry.nostrJsonToPackedEvent hex cfg v := by
  rw [Strfry.nostrJsonToPackedEvent, Strfry.nostrJsonToPackedEvent, h "id" (by decide), h "pubkey" (by decide),
    h "created_at" (by decide), h "kind" (by decide), h "content" (by decide), h "tags" (by decide)]

theorem SameMembers.verifyNostrEvent (h : SameMembers v json) (crypto : Crypto) (hex : HexCodec) (text : JsonText)
    (packed : PackedEvent) :
    verifyNostrEvent crypto hex text packed json = Strfry.verifyNostrEvent crypto hex text packed v := by
  rw [Strfry.verifyNostrEvent, Strfry.verifyNostrEvent, nostrHash, nostrHash, h "pubkey" (by decide),
    h "created_at" (by decide), h "kind" (by decide), h "tags" (by decide), h "content" (by decide),
    h "sig" (by decide)]

theorem SameMembers.normalisedJson (h : SameMembers v json) : normalisedJson json = Strfry.normalisedJson v := by
  rw [Strfry.normalisedJson, Strfry.normalisedJson, h "content" (by decide), h "created_at" (by decide),
    h "id" (by decide), h "kind" (by decide), h "pubkey" (by decide), h "sig" (by decide), h "tags" (by decide)]

theorem checkIf_eq_ok {c : Bool} {check : Except Err Unit} :
    checkIf c check = .ok () ↔ (c = true → check = .ok ()) := by
  cases c <;> simp [checkIf]

/-- What `parseAndVerifyEvent` has checked, and what it returns. -/
theorem parseAndVerifyEvent_ok_iff {V : Verifier} {verifyMsg verifyTime : Bool} {c : PackedEvent × Bytes} :
    parseAndVerifyEvent V verifyMsg verifyTime v = .ok c ↔
      v.isObject = true ∧ nostrJsonToPackedEvent V.hex V.cfg.toEventsConfig v = .ok c.1 ∧
      (verifyTime = true → verifyEventTimestamp V.cfg V.now c.1 = .ok ()) ∧
      (verifyMsg = true → verifyNostrEvent V.crypto V.hex V.text c.1 v = .ok ()) ∧
      (∃ json, normalisedJson v = .ok json ∧ c.2 = V.text.toString json) ∧
      (verifyMsg = true → verifyNostrEventJsonSize V.cfg c.2 = .ok ()) := by
  rw [parseAndVerifyEvent]
  split
  · rename_i hobject
    refine iff_of_false (by rintro ⟨⟩) fun h => ?_
    rw [h.1] at hobject
    cases hobject
  · rename_i hobject
    rw [Bool.not_eq_true', Bool.not_eq_false] at hobject
    constructor
    · intro h
      obtain ⟨packed, hpacked, h⟩ := bind_eq_ok.1 h
      obtain ⟨_, htime, h⟩ := bind_eq_ok.1 h
      obtain ⟨_, hmsg, h⟩ := bind_eq_ok.1 h
      obtain ⟨json, hjson, h⟩ := bind_eq_ok.1 h
      obtain ⟨_, hsize, h⟩ := bind_eq_ok.1 h
      cases h
      exact ⟨hobject, hpacked, checkIf_eq_ok.1 htime, checkIf_eq_ok.1 hmsg, ⟨json, hjson, rfl⟩,
        checkIf_eq_ok.1 hsize⟩
    · rintro ⟨-, hpacked, htime, hmsg, ⟨json, hjson, htext⟩, hsize⟩
      rw [htext] at hsize
      refine bind_eq_ok.2 ⟨_, hpacked, bind_eq_ok.2 ⟨_, checkIf_eq_ok.2 htime, bind_eq_ok.2 ⟨_, checkIf_eq_ok.2 hmsg,
        bind_eq_ok.2 ⟨json, hjson, bind_eq_ok.2 ⟨_, checkIf_eq_ok.2 hsize, ?_⟩⟩⟩⟩⟩
      rw [← htext]

/-- The normalised object passes again, at any time, if the time is not checked. -/
theorem parseAndVerifyEvent_again {V : Verifier} {verifyMsg verifyTime again : Bool} {c : PackedEvent × Bytes}
    (h : parseAndVerifyEvent V verifyMsg verifyTime v = .ok c) (hjson : normalisedJson v = .ok json)
    (hmsg : again = true → verifyMsg = true) (now : Nat) :
    parseAndVerifyEvent { V with now := now } again false json = .ok c := by
  obtain ⟨-, hpacked, -, hverified, ⟨json', hjson', htext⟩, hsize⟩ := parseAndVerifyEvent_ok_iff.1 h
  cases hjson.symm.trans hjson'
  obtain ⟨hobject, hsame⟩ := sameMembers_of_normalisedJson hjson
  refine parseAndVerifyEvent_ok_iff.2 ⟨hobject, ?_, by rintro ⟨⟩, fun hc => ?_, ⟨json, ?_, htext⟩,
    fun hc => hsize (hmsg hc)⟩
  · exact (hsame.nostrJsonToPackedEvent _ _).trans hpacked
  · exact (hsame.verifyNostrEvent _ _ _ _).trans (hverified (hmsg hc))
  · exact hsame.normalisedJson.trans hjson

end Again

/-! ## Stores whose texts are read back -/

/-- The event passed the checks under the settings of `cfg`, at some time, and the parser reads the text of its
normalised object back. -/
def PassedBefore (cfg : PipelineConfig) (c : PackedEvent × Bytes) : Prop :=
  ∃ (now : Nat) (verifyMsg verifyTime : Bool) (origJson json : Json), (cfg.verifyMsg = true → verifyMsg = true) ∧
    parseAndVerifyEvent { cfg.verifier with now := now } verifyMsg verifyTime origJson = .ok c ∧
    normalisedJson origJson = .ok json ∧ cfg.verifier.text.fromString (cfg.verifier.text.toString json) = .ok json

/-- A transaction with such events. -/
inductive PassedStep (cfg : PipelineConfig) : Db → Db → Prop
  | write (S : StdSort) (cache : NegentropyFilterCache) {db db' : Db} {evs evs' : List EventToWrite}
      (hsub : ∀ ev ∈ evs, ev.status = .pending ∧ PassedBefore cfg (ev.packed, ev.jsonStr))
      (hok : (writeEvents S cfg.ord cfg.verifier.hex cfg.verifier.text cache db evs).2 = .ok (db', evs')) :
      PassedStep cfg db db'
  | delete (cache : NegentropyFilterCache) {db db' : Db} {levIds : List Nat} {numDeleted : Nat}
      (hok : (db.deleteEvents cfg.verifier.hex cfg.verifier.text cache levIds).2 = .ok (db', numDeleted)) :
      PassedStep cfg db db'
  | negentropy {db db' : Db} (hstore : db'.toStore = db.toStore) : PassedStep cfg db db'

/-- The databases reachable from the empty one. -/
def PassedReachable (cfg : PipelineConfig) (db : Db) : Prop := Relation.ReflTransGen (PassedStep cfg) Db.init db

/-- What holds of every stored event and its text. -/
def Payloads (P : PackedEvent × Bytes → Prop) (db : Db) : Prop :=
  ∀ r ∈ db.event.rows, ∃ json, db.eventPayload.get? r.1 = some (0 :: json) ∧ P (r.2, json)

section Stored

variable {cfg : PipelineConfig} {db db' : Db} {P : PackedEvent × Bytes → Prop}

theorem WriteRun.payloads {ord : IndexOrder} {filters : List FilterInfo} {prevId : Option Bytes}
    {evs evs' : List EventToWrite} (h : WriteRun ord filters prevId db evs db' evs')
    (hevs : ∀ ev ∈ evs, P (ev.packed, ev.jsonStr)) (hdb : Payloads P db) : Payloads P db' := by
  induction h with
  | nil => exact hdb
  | @cons prevId db db₁ db' ev ev' rest rest' hone hout hrun ih =>
    refine ih (fun e he => hevs e (List.mem_cons_of_mem _ he)) ?_
    by_cases hs : ev'.status = .written
    · intro r hr
      rw [hout.payload hs hr]
      rcases (hout.mem_rows hs).1 hr with rfl | ⟨hold, -⟩
      · exact ⟨ev.jsonStr, if_pos rfl, hevs ev List.mem_cons_self⟩
      · rw [if_neg (ne_of_lt (hout.levId_gt hs hold))]
        exact hdb r hold
    · rw [hout.eq_of_not_written hs]
      exact hdb

theorem submitted_of_passed {evs : List EventToWrite}
    (h : ∀ ev ∈ evs, ev.status = .pending ∧ PassedBefore cfg (ev.packed, ev.jsonStr)) :
    Submitted cfg.verifier.hex evs := by
  intro ev hev
  obtain ⟨hp, now, verifyMsg, verifyTime, origJson, json, -, hverified, -⟩ := h ev hev
  have hfrom : FromJson ({ cfg.verifier with now := now } : Verifier).hex ev.packed :=
    fromJson_of_parseAndVerifyEvent hverified
  exact ⟨hp, hfrom⟩

theorem PassedStep.storeStep (h : PassedStep cfg db db') :
    StoreStep cfg.ord cfg.verifier.hex cfg.verifier.text db db' := by
  cases h with
  | write S cache hsub hok => exact .write S cache (submitted_of_passed hsub) hok
  | delete cache hok => exact .delete cache hok
  | negentropy hstore => exact .negentropy hstore

theorem PassedReachable.storeInv (h : PassedReachable cfg db) : StoreInv db.toStore := by
  induction h with
  | refl => exact storeInv_empty
  | tail _ hstep ih => exact hstep.storeStep.storeInv ih

theorem PassedReachable.payloads (h : PassedReachable cfg db) : Payloads (PassedBefore cfg) db := by
  induction h with
  | refl => rintro r ⟨⟩
  | @tail db db' hreach hstep ih =>
    have hinv : StoreInv db.toStore := PassedReachable.storeInv hreach
    cases hstep with
    | @write S cache _ _ evs evs' hsub hok =>
      have hsubmitted := submitted_of_passed hsub
      apply (writeEvents_run hinv hsubmitted.writable hok).payloads _ ih
      exact fun ev hev => (hsub ev ((S.perm _ _).mem_iff.1 hev)).2
    | delete cache hok =>
      rw [deleteEvents_eq_ok hok]
      intro r hr
      rw [Db.payload_deleteLoop_of_mem hr]
      exact ih r (Db.mem_deleteLoop.1 hr).1
    | negentropy hstore =>
      intro r hr
      rw [hstore] at hr ⊢
      exact ih r hr

end Stored

/-! ## Lines -/

/-- The line that is printed for an event with the text `c.2 ++ [125]`. -/
def plainText (c : PackedEvent × Bytes) : Bytes := c.2 ++ [125] ++ [10]

/-- The values that `import` passes to the pipeline; a line that does not parse is skipped. -/
def importValues (text : JsonText) (input : Bytes) : List Json :=
  (splitLines input).filterMap fun line => (text.fromString line.dropLast).toOption

section Lines

variable {Z : Zstd} {maxEventSize : Nat} {dicts : Table Bytes} {st : Store} {ord : IndexOrder}

/-- Every event has a text, which ends with a brace. -/
def Closed (Z : Zstd) (maxEventSize : Nat) (dicts : Table Bytes) (st : Store) : Prop :=
  ∀ r ∈ st.event.rows, ∃ body, st.getEventJson Z maxEventSize dicts r.1 = .ok (body ++ [125])

/-- The text is determined by the fried line. -/
theorem snd_eq_of_friedText {c c' : PackedEvent × Bytes} (h : friedText c = friedText c') : c.2 = c'.2 := by
  have hparse := parseFried_friedText inverts_hexCodec c
  rw [h, parseFried_friedText inverts_hexCodec c'] at hparse
  exact List.append_cancel_right (Prod.mk.inj (Except.ok.inj hparse)).2.symm

/-- An entry that has a fried line has a plain one. -/
theorem exportEntry_plain (hclosed : Closed Z maxEventSize dicts st) {levId : Nat} {c : PackedEvent × Bytes}
    (h : exportEntry Z maxEventSize dicts st true levId = .ok (friedText c)) :
    exportEntry Z maxEventSize dicts st false levId = .ok (plainText c) := by
  obtain ⟨json, hjson, h⟩ := bind_eq_ok.1 h
  obtain ⟨p, hp, h⟩ := bind_eq_ok.1 h
  have hrow : (levId, p) ∈ st.event.rows := by
    rw [Store.lookupEventByLevId] at hp
    cases hget : st.event.get? levId with
    | none =>
      rw [hget] at hp
      cases hp
    | some q =>
      rw [hget] at hp
      cases hp
      exact Table.get?_eq_some_iff.1 hget
  obtain ⟨body, hbody⟩ := hclosed _ hrow
  cases hjson.symm.trans hbody
  have hline : friedLine (body ++ [125]) p.bytes = .ok (friedText (p, body)) := friedLine_eq (p, body)
  have htext := snd_eq_of_friedText (Except.ok.inj (hline.symm.trans h))
  exact bind_eq_ok.2 ⟨_, hjson, by rw [plainText, ← htext]; rfl⟩

/-- The loop prints the same events, with or without the field. -/
theorem exportLoop_plain (hclosed : Closed Z maxEventSize dicts st) {inBounds : Nat → Bool}
    {entries : List (Entry Bytes)} : ∀ {items : List (PackedEvent × Bytes)},
    exportLoop Z maxEventSize dicts st inBounds true entries = .ok (items.map friedText) →
    exportLoop Z maxEventSize dicts st inBounds false entries = .ok (items.map plainText) := by
  induction entries with
  | nil =>
    intro items h
    have hitems := List.map_eq_nil_iff.1 (Except.ok.inj h).symm
    rw [hitems]
    rfl
  | cons e entries ih =>
    intro items h
    rw [exportLoop] at h ⊢
    split at h
    · rename_i hout
      have hitems := List.map_eq_nil_iff.1 (Except.ok.inj h).symm
      rw [if_pos hout, hitems]
      rfl
    · rename_i hin
      rw [if_neg hin]
      obtain ⟨line, hline, h⟩ := bind_eq_ok.1 h
      obtain ⟨lines, hlines, h⟩ := bind_eq_ok.1 h
      obtain ⟨c, rest, rfl, rfl, rfl⟩ := List.map_eq_cons_iff.1 (Except.ok.inj h).symm
      exact bind_eq_ok.2 ⟨_, exportEntry_plain hclosed hline, bind_eq_ok.2 ⟨_, ih hlines, rfl⟩⟩

theorem cmdExport_plain (hclosed : Closed Z maxEventSize dicts st) {since til : Nat} {reverse : Bool}
    {items : List (PackedEvent × Bytes)}
    (h : cmdExport Z maxEventSize dicts st ord since til reverse true = .ok (items.map friedText)) :
    cmdExport Z maxEventSize dicts st ord since til reverse false = .ok (items.map plainText) := by
  cases reverse with
  | true => exact exportLoop_plain hclosed h
  | false => exact exportLoop_plain hclosed h

/-- A whole output is read back, line by line. -/
theorem importValues_flatten {text : JsonText} {items : List (PackedEvent × Bytes)}
    {value : PackedEvent × Bytes → Json} (hbreak : ∀ c ∈ items, (10 : UInt8) ∉ c.2 ++ [125])
    (hread : ∀ c ∈ items, text.fromString (c.2 ++ [125]) = .ok (value c)) :
    importValues text (items.map plainText).flatten = items.map value := by
  induction items with
  | nil => rfl
  | cons c items ih =>
    have hsplit : splitLines ((c :: items).map plainText).flatten =
        plainText c :: splitLines (items.map plainText).flatten := by
      rw [List.map_cons, List.flatten_cons]
      conv_lhs => rw [plainText, List.append_assoc, List.singleton_append]
      rw [splitLines_append (hbreak c List.mem_cons_self)]
      rfl
    have hfirst : (text.fromString (plainText c).dropLast).toOption = some (value c) := by
      rw [plainText, List.dropLast_concat, hread c List.mem_cons_self]
      rfl
    have hrest := ih (fun c' hc => hbreak c' (List.mem_cons_of_mem _ hc))
      fun c' hc => hread c' (List.mem_cons_of_mem _ hc)
    rw [importValues, hsplit, List.filterMap_cons]
    simp only [hfirst, List.map_cons]
    exact congrArg _ hrest

end Lines

/-! ## The round trip -/

open WriterPipeline

section RoundTrip

variable {Z : Zstd} {maxEventSize : Nat} {dicts : Table Bytes} {cfg : PipelineConfig} {db : Db} {st : Store}

/-- The text of such an event is read as a value that passes again. -/
theorem PassedBefore.passes {c : PackedEvent × Bytes} (h : PassedBefore cfg c) (htime : cfg.verifyTime = false) :
    ∃ v, cfg.verifier.text.fromString c.2 = .ok v ∧ Passes cfg v c := by
  obtain ⟨now, verifyMsg, verifyTime, origJson, json, hmsg, hverified, hjson, hread⟩ := h
  obtain ⟨-, -, -, -, ⟨json', hjson', htext⟩, -⟩ := parseAndVerifyEvent_ok_iff.1 hverified
  cases hjson.symm.trans hjson'
  refine ⟨json, by rw [htext]; exact hread, ?_, fun now' => ?_⟩
  · rintro rfl
    cases (sameMembers_of_normalisedJson hjson).1
  · rw [verify, htime]
    exact parseAndVerifyEvent_again hverified hjson hmsg now'

/-- Every stored event passed the checks, with the text that the store gives for it. -/
theorem PassedReachable.stored (h : PassedReachable cfg db) (hst : Recoded Z maxEventSize dicts db st) :
    ∀ r ∈ st.event.rows, ∃ json, st.getEventJson Z maxEventSize dicts r.1 = .ok json ∧
      PassedBefore cfg (r.2, json) := by
  intro r hr
  obtain ⟨json, hpay, hpassed⟩ := h.payloads r (hst.event ▸ hr)
  exact ⟨json, hst.payload _ _ hpay, hpassed⟩

theorem PassedBefore.text {c : PackedEvent × Bytes} (h : PassedBefore cfg c) :
    ∃ kvs, c.2 = cfg.verifier.text.toString (.object kvs) := by
  obtain ⟨now, verifyMsg, verifyTime, origJson, json, -, hverified, -⟩ := h
  exact @text_of_parseAndVerifyEvent { cfg.verifier with now := now } verifyMsg verifyTime origJson c.1 c.2 hverified

/-- Whatever the order of the export, the batches of the import, the encoding of the payloads, and the times
at which the events were written and are imported: no line is rejected, every event is written again, and
the database in the end has exactly the events and the texts of the first one. -/
theorem json_export_restores (hreach : PassedReachable cfg db) (hst : Recoded Z maxEventSize dicts db st)
    (htext : cfg.verifier.text.Compact) (htime : cfg.verifyTime = false) (hbatch : 1 ≤ cfg.writeBatchSize)
    (reverse : Bool) :
    ∃ lines values, cmdExport Z maxEventSize dicts st cfg.ord 0 maxU64 reverse false = .ok lines ∧
      importValues cfg.verifier.text lines.flatten = values ∧
      (∃ s, Finishes cfg alone Db.init (values.map .json) s) ∧
      ∀ s, Finishes cfg alone Db.init (values.map .json) s →
        s.totalWritten = lines.length ∧ s.totalDups = 0 ∧ s.totalRejected = 0 ∧
        ∀ dicts' p json, s.db.HasText Z maxEventSize dicts' p json ↔ st.HasText Z maxEventSize dicts p json := by
  have hstored := hreach.stored hst
  have hclosed : Closed Z maxEventSize dicts st := by
    intro r hr
    obtain ⟨json, hjson, hpassed⟩ := hstored r hr
    obtain ⟨kvs, hkvs⟩ := hpassed.text
    obtain ⟨body, hbody⟩ := htext.closes kvs
    exact ⟨body, hjson.trans (congrArg Except.ok (hkvs.trans hbody))⟩
  obtain ⟨items, hfried, hitems, hpair⟩ := @cmdExport_eq Z maxEventSize dicts st cfg.ord hclosed reverse
  -- each text has passed the check before, and passes it again
  have hpassed : ∀ c ∈ items, PassedBefore cfg (c.1, c.2 ++ [125]) := by
    intro c hc
    obtain ⟨levId, hr, hjson⟩ := (hitems c).1 hc
    obtain ⟨json, hjson', h⟩ := hstored _ hr
    cases hjson.symm.trans hjson'
    exact h
  have hbreak : ∀ c ∈ items, (10 : UInt8) ∉ c.2 ++ [125] := by
    intro c hc
    obtain ⟨kvs, hkvs⟩ := (hpassed c hc).text
    have hkvs : c.2 ++ [125] = _ := hkvs
    rw [hkvs]
    exact htext.noBreak _
  have hread : ∀ c ∈ items, ∃ v, cfg.verifier.text.fromString (c.2 ++ [125]) = .ok v ∧
      Passes cfg v (c.1, c.2 ++ [125]) := fun c hc => (hpassed c hc).passes htime
  have : Nonempty Json := ⟨.null⟩
  choose! value hvalue using hread
  -- the values that are read and the events that were exported, one by one
  have hpass : List.Forall₂ (Passes cfg) (items.map value) (items.map fun c => (c.1, c.2 ++ [125])) := by
    rw [List.forall₂_map_left_iff, List.forall₂_map_right_iff, List.forall₂_same]
    exact fun c hc => (hvalue c hc).2
  have hevents : (items.map fun c => (c.1, c.2 ++ [125])).map (fun c => PipelineInput.event (passedEvent c)) =
      (items.map friedEvent).map .event := by
    rw [List.map_map, List.map_map]
    rfl
  have himp := importable_of_exported hreach.storeInv hst.event hitems hpair
  have hsame := hasText_iff_exported hclosed hitems
  refine ⟨_, items.map value, cmdExport_plain hclosed hfried,
    importValues_flatten hbreak fun c hc => (hvalue c hc).1, ?_, ?_⟩
  -- a run with the events in the place of the values gives one with the values
  · obtain ⟨s, hreach', hflushed, hsub⟩ := import_completes himp hbatch htext.parsesEmpty
    have hfinishes : Finishes cfg alone Db.init _ s := ⟨hreach', hflushed, hsub.trans hevents.symm⟩
    obtain ⟨s', hs', -⟩ := hfinishes.values hpass
    exact ⟨s', hs'⟩
  · intro s hs
    -- and the other way round, so that the results are those of the events
    obtain ⟨s', ⟨hreach', hflushed, hsub⟩, hresults⟩ := hs.events hpass
    rw [hevents] at hsub
    have hres := hreach'.restoring himp (hsub ▸ List.prefix_rfl)
    have hwritten := (hreach'.restored himp hsub hflushed).1
    rw [results, results] at hresults
    simp only [Prod.mk.injEq] at hresults
    obtain ⟨hdb, htotal, hrejected, hdups, -⟩ := hresults
    rw [List.length_map] at hwritten
    rw [List.length_map, ← hdb, ← htotal, ← hrejected, ← hdups]
    refine ⟨hwritten, hres.dups, hres.rejected, fun dicts' p json => ?_⟩
    rw [hasText_of_imports himp ⟨hreach', hflushed, hsub⟩, hsame]

end RoundTrip

/-! ## Two events -/

/-- The signed events are normalised already. -/
theorem normalisedJson_signedNote (createdAt : UInt64) (id sig : Bytes) :
    normalisedJson (signedNote createdAt id sig) = .ok (signedNote createdAt id sig) := by
  have hkeys : eventKeys.Pairwise fun a b => (ascii b == ascii a) = false := by decide +kernel
  simp only [eventKeys, List.pairwise_cons, List.mem_cons, List.not_mem_nil, or_false, forall_eq_or_imp,
    forall_eq] at hkeys
  simp [normalisedJson, signedNote, Json.member, Json.find?, List.lookup_cons, hkeys, bind, Except.bind]

theorem json_export_restores_sample :
    ∃ db, PassedReachable samplePipeline db ∧ db.event.rows.length = 2 ∧
      ∃ lines values, cmdExport Archive.storedZstd 65536 Table.empty db.toStore byteOrder 0 maxU64 false false =
          .ok lines ∧
        importValues samplePipeline.verifier.text lines.flatten = values ∧
        (∃ s, Finishes samplePipeline alone Db.init (values.map .json) s) ∧
        ∀ s, Finishes samplePipeline alone Db.init (values.map .json) s →
          s.totalWritten = lines.length ∧ s.totalDups = 0 ∧ s.totalRejected = 0 ∧
          ∀ dicts' p json, s.db.HasText Archive.storedZstd 65536 dicts' p json ↔
            db.HasText Archive.storedZstd 65536 Table.empty p json := by
  obtain ⟨c, c', db, evs, hverify, hverify', hwrite, hlen⟩ := sampleRun_ok
  have hread : samplePipeline.verifier.text.fromString (samplePipeline.verifier.text.toString sampleEvent) =
      .ok sampleEvent := by
    have hne : sampleEvent.print ≠ emptyFilterText := by decide +kernel
    simp only [samplePipeline, textsOf, if_neg hne, List.find?_cons, beq_self_eq_true]
  have hread' : samplePipeline.verifier.text.fromString (samplePipeline.verifier.text.toString laterEvent) =
      .ok laterEvent := by
    have hne : laterEvent.print ≠ emptyFilterText := by decide +kernel
    have hne' : (sampleEvent.print == laterEvent.print) = false := by decide +kernel
    simp only [samplePipeline, textsOf, if_neg hne, List.find?_cons, hne', beq_self_eq_true]
  have hsub : ∀ ev ∈ [toWrite c, toWrite c'],
      ev.status = .pending ∧ PassedBefore samplePipeline (ev.packed, ev.jsonStr) := by
    intro ev hev
    rcases List.mem_cons.mp hev with rfl | hev
    · exact ⟨rfl, 1700000000, true, false, sampleEvent, sampleEvent, fun _ => rfl, hverify,
        normalisedJson_signedNote _ _ _, hread⟩
    · rw [List.mem_singleton.mp hev]
      exact ⟨rfl, 1700000000, true, false, laterEvent, laterEvent, fun _ => rfl, hverify',
        normalisedJson_signedNote _ _ _, hread'⟩
  have hreach : PassedReachable samplePipeline db := .single (.write .insertion {} hsub hwrite)
  exact ⟨db, hreach, hlen, json_export_restores hreach (recoded_self db) (compact_textsOf _) rfl le_rfl false⟩

end Strfry
