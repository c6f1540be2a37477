import Strfry.Submission

/-!
# Submissions over HTTP

The handlers of POST /api/quotes and POST /api/quotes/batch, and the event processor that
`runHttpServer` sets for them. The processor wraps an event into a client message with a promise,
and waits for the result. A wait that runs out of time answers with a failure, but does not take
the message back.
-/

set_option autoImplicit false

namespace Strfry

open Lib

/-- Bytes as the characters of a message. -/
def asText (b : Bytes) : String := String.ofList (b.map fun c => Char.ofNat c.toNat)

/-! ## The event processor -/

/-- The fields that the processor asks for. -/
def requiredFields (v : Json) : Except Err Bytes := do
  let id ← v.member "id"
  let eventId ← id.getString
  let pubkey ← v.member "pubkey"
  let _ ← pubkey.getString
  let sig ← v.member "sig"
  let _ ← sig.getString
  .ok eventId

/-- The client message that the processor dispatches. -/
def httpMessage (text : JsonText) (eventData : Json) : ClientMessage where
  connId := 0
  ipAddr := ascii "http-post"
  payload := text.toString (.array [.string (ascii "EVENT"), eventData])
  resultPromise := true

/-- What the processor leaves and returns: the relay, whether the event is accepted, and the
error. -/
structure ProcessorRun where
  relay : Writer
  accepted : Bool
  errorMsg : String

/-- The wait for the promise. `timeout` says that the time runs out first; a promise that is never
set runs out of time as well. -/
def awaitResult (timeout : Bool) (eventId : Bytes) (r : Writer × List LogEntry) : ProcessorRun :=
  match timeout, promiseResult r.2 with
  | false, some result =>
    if result.success then ⟨r.1, true, ""⟩ else ⟨r.1, false, result.message⟩
  | _, _ =>
    ⟨r.1, false, "Event processing timeout for event: " ++ asText (eventId.take 16) ++ "..."⟩

/-- The lambda that is passed to `setEventProcessor`. -/
def eventProcessor (E : RelayEnv) (timeout : Bool) (relay : Writer) (eventJson : Bytes) :
    ProcessorRun :=
  match E.V.text.fromString eventJson with
  | .error e => ⟨relay, false, "Processing error: " ++ e.what⟩
  | .ok eventData =>
    if !eventData.isObject then ⟨relay, false, "Event is not a JSON object"⟩
    else
      match requiredFields eventData with
      | .error e => ⟨relay, false, "Missing required fields: " ++ e.what⟩
      | .ok eventId =>
        awaitResult timeout eventId (submit E relay (httpMessage E.V.text eventData))

/-! ## Handlers -/

/-- A response: its status, and the values of `ok` (or `success`) and `message` in its body. -/
structure HttpResponse where
  status : Nat
  ok : Bool
  message : String
  deriving DecidableEq

/-- A member with a check of its type. -/
def hasField (v : Json) (key : String) (check : Json → Bool) : Bool :=
  match v.find? key with
  | none => false
  | some m => check m

/-- The check of the required fields in both handlers. -/
def validStructure (v : Json) : Bool :=
  hasField v "id" Json.isString && hasField v "pubkey" Json.isString &&
    hasField v "created_at" Json.isNumber && hasField v "kind" Json.isNumber &&
    hasField v "tags" Json.isArray && hasField v "content" Json.isString &&
    hasField v "sig" Json.isString

/-- `MAX_BATCH_SIZE`. -/
def maxBatchSize : Nat := 1000

/-- The events of a batch: a plain array, or the array `events` of an object. -/
def batchEvents (batchJson : Json) : Except HttpResponse (List Json) :=
  let eventsArray : Option (List Json) :=
    match batchJson with
    | .array xs => some xs
    | v =>
      match v.find? "events" with
      | some (.array xs) => some xs
      | _ => none
  match eventsArray with
  | none => .error ⟨400, false, "Request body must be a JSON array or object with 'events' array"⟩
  | some events =>
    if events.length = 0 then .error ⟨400, false, "Empty event array"⟩
    else if events.length > maxBatchSize then
      .error ⟨400, false, "Batch size exceeds maximum of 1000 events"⟩
    else .ok events

/-- The part of a batch that one event takes: the check of its structure, and the processor. -/
def batchEvent (E : RelayEnv) (timeout : Bool) (relay : Writer) (i : Nat) (eventJson : Json) :
    ProcessorRun :=
  if !eventJson.isObject then ⟨relay, false, "Event at index " ++ toString i ++ " is not an object"⟩
  else if !validStructure eventJson then
    ⟨relay, false, "Event at index " ++ toString i ++ " has invalid structure"⟩
  else
    let r := eventProcessor E timeout relay (E.V.text.toString eventJson)
    if r.accepted then r
    else { r with errorMsg := "Event at index " ++ toString i ++ " rejected: " ++
      if r.errorMsg = "" then "validation failed" else r.errorMsg }

/-- The loop over the events of a batch: it stops at the first one that is not accepted. The
settings, the clock, the plugin and the wait may differ from event to event. -/
def batchLoop (env : Nat → RelayEnv × Bool) : Nat → Writer → List Json → Writer × HttpResponse
  | _, relay, [] => (relay, ⟨201, true, "Batch accepted"⟩)
  | i, relay, eventJson :: rest =>
    let r := batchEvent (env i).1 (env i).2 relay i eventJson
    if r.accepted then batchLoop env (i + 1) r.relay rest else (r.relay, ⟨400, false, r.errorMsg⟩)

/-- `handleEventPostBatch`. -/
def handleEventPostBatch (text : JsonText) (env : Nat → RelayEnv × Bool) (relay : Writer)
    (body : Bytes) : Writer × HttpResponse :=
  match text.fromString body with
  | .error e => (relay, ⟨400, false, "Invalid JSON: " ++ e.what⟩)
  | .ok batchJson =>
    match batchEvents batchJson with
    | .error response => (relay, response)
    | .ok events => batchLoop env 0 relay events

/-! ## Valid events pass the checks of the handlers -/

/-- The JSON library prints the message so that it reads it back. -/
structure ReadsBack (text : JsonText) (event : Json) : Prop where
  bracket : (text.toString (.array [.string (ascii "EVENT"), event])).head? = some 91
  fromString : text.fromString (text.toString (.array [.string (ascii "EVENT"), event])) =
    .ok (.array [.string (ascii "EVENT"), event])

theorem isEvent_httpMessage {text : JsonText} {event : Json} (h : ReadsBack text event) :
    IsEvent text (httpMessage text event) event :=
  ⟨h.bracket, [], h.fromString⟩

theorem sourced_httpMessage (text : JsonText) (event : Json) : (httpMessage text event).Sourced :=
  Or.inr ⟨rfl, rfl⟩

section Processor

variable {E : RelayEnv} {relay : Writer} {event : Json}

/-- What the processor does with an event that it dispatches. -/
theorem eventProcessor_eq {eventJson : Bytes} (hread : E.V.text.fromString eventJson = .ok event)
    (hobj : event.isObject = true) {eventId : Bytes} (hreq : requiredFields event = .ok eventId)
    (timeout : Bool) {b : Bool}
    (hb : answered true (submit E relay (httpMessage E.V.text event)).2 = some b) :
    (eventProcessor E timeout relay eventJson).relay =
        (submit E relay (httpMessage E.V.text event)).1 ∧
      (eventProcessor E timeout relay eventJson).accepted = (!timeout && b) := by
  rw [eventProcessor, hread]
  simp only [hobj, Bool.not_true, Bool.false_eq_true, if_false, hreq]
  rw [answered, if_pos rfl] at hb
  obtain ⟨result, hresult, rfl⟩ := Option.map_eq_some_iff.1 hb
  cases timeout with
  | true => exact ⟨rfl, rfl⟩
  | false =>
    simp only [awaitResult, hresult]
    cases hs : result.success with
    | true => exact ⟨rfl, rfl⟩
    | false => exact ⟨rfl, rfl⟩

end Processor

/-! ## A signed event -/

def samplePubkey : Bytes := ascii "f9308a019258c31049344f85f89d5229b531c845836f99b08601f113bce036f9"

def sampleId : Bytes := ascii "9560462663421aa1f41a817b052e43987b465cca609fe3b642d5f792e4c939b6"

def sampleSig : Bytes :=
  ascii "630b3b4a5e1d5216f707e4f1077b9da020a58be2045dd9ab0e68f99876dcfb46" ++
    ascii "c78b6f24ecadf9bb7c770a3e8ce582942203b81233e3b86e6e370b949fc51617"

/-- A signed note. -/
def sampleEvent : Json :=
  .object [(ascii "content", .string []), (ascii "created_at", .unsigned 1700000000),
    (ascii "id", .string sampleId), (ascii "kind", .unsigned 1),
    (ascii "pubkey", .string samplePubkey), (ascii "sig", .string sampleSig),
    (ascii "tags", .array [])]

/-- Its text. -/
def sampleEventText : Bytes :=
  ascii "\x7b\"content\":\"\",\"created_at\":1700000000,\"id\":\"" ++ sampleId ++
    ascii "\",\"kind\":1,\"pubkey\":\"" ++ samplePubkey ++ ascii "\",\"sig\":\"" ++ sampleSig ++
    ascii "\",\"tags\":[]\x7d"

/-- The text that its id is the hash of. -/
def sampleHashText : Bytes :=
  ascii "[0,\"" ++ samplePubkey ++ ascii "\",1700000000,1,[],\"\"]"

/-- The text of the EVENT message. -/
def sampleMessageText : Bytes := ascii "[\"EVENT\"," ++ sampleEventText ++ ascii "]"

/-- A batch of the event and something that is no event. -/
def sampleBatchText : Bytes := ascii "[" ++ sampleEventText ++ ascii ",null]"

/-- A JSON library that knows these texts. -/
def sampleText : JsonText where
  fromString s :=
    if s = emptyFilterText then .ok (.object [])
    else if s = sampleEventText then .ok sampleEvent
    else if s = sampleMessageText then .ok (.array [.string (ascii "EVENT"), sampleEvent])
    else if s = sampleBatchText then .ok (.array [sampleEvent, .null])
    else .error .badJson
  toString
    | .array (.signed _ :: _) => sampleHashText
    | .array _ => sampleMessageText
    | .object _ => sampleEventText
    | _ => ascii "null"

/-- The bytes of a hex text. -/
def hexBytes (s : Bytes) : Bytes := (decodeHex s).toOption.getD []

/-- The hash and the signature scheme on the event. -/
def sampleCrypto : Crypto where
  sha256 s := if s = sampleHashText then hexBytes sampleId else []
  xonlyPubkeyParse pubkey := pubkey == hexBytes samplePubkey
  schnorrsigVerify sig hash pubkey :=
    sig == hexBytes sampleSig && hash == hexBytes sampleId && pubkey == hexBytes samplePubkey

/-- A relay with or without a plugin, at the time of the event. -/
def sampleRelay (plugin : Option (Bytes → PluginAnswer)) : RelayEnv where
  V := ⟨sampleCrypto, hexCodec, sampleText, .default, 1700000000⟩
  S := .insertion
  ord := byteOrder
  policy := ⟨id, plugin.map fun ask _ req => .ok (ask req.event)⟩

/-- The event from a WebSocket. -/
def sampleMessage : ClientMessage where
  connId := 1
  ipAddr := [127, 0, 0, 1]
  payload := sampleMessageText

theorem fromString_sampleEventText : sampleText.fromString sampleEventText = .ok sampleEvent := by
  have hne : sampleEventText ≠ emptyFilterText := by decide +kernel
  simp only [sampleText, if_neg hne, if_true]

theorem fromString_sampleMessageText : sampleText.fromString sampleMessageText =
    .ok (.array [.string (ascii "EVENT"), sampleEvent]) := by
  have hne : sampleMessageText ≠ emptyFilterText := by decide +kernel
  have hne' : sampleMessageText ≠ sampleEventText := by decide +kernel
  simp only [sampleText, if_neg hne, if_neg hne', if_true]

theorem bracket_sampleMessageText : sampleMessageText.head? = some 91 := by decide +kernel

theorem readsBack_sampleEvent : ReadsBack sampleText sampleEvent :=
  ⟨bracket_sampleMessageText, fromString_sampleMessageText⟩

end Strfry
