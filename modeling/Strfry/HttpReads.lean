import Strfry.DictCompression
import Strfry.HttpQuery
import Strfry.Lib.Interference

/-!
# Reads over HTTP

Four handlers answer with stored events. Each opens a read transaction, looks events up in it and takes
their texts from views. The view of a compressed record lies in the buffer of the `Decompressor`; that of
any other record lies in the memory map, whose pages the writer may use again once the transaction is
closed.

A handler is a program of calls, and the writer commits between any two of them. A `ReadReply` keeps, as a
history variable, for which levId each text in the response was read. `handle_fromSnapshot_iff` says for
which requests every reply has the texts of the transaction's snapshot: `handleGetQuote` closes the
transaction before it copies the view, and the other handlers copy first.
-/

set_option autoImplicit false

namespace Strfry

open Lib

/-! ## The world of a handler -/

/-- What `getEventJson` returns, with the place where the bytes lie. -/
inductive View
  | mapped (bytes : Bytes)
  | buffer (bytes : Bytes)

namespace View

def bytes : View → Bytes
  | mapped bytes => bytes
  | buffer bytes => bytes

/-- The view after the pages of the map that nobody reads any more are used for something else. -/
def overwrite (f : Bytes → Bytes) : View → View
  | mapped bytes => mapped (f bytes)
  | buffer bytes => buffer bytes

end View

/-- A commit: the database afterwards, and what is seen then through a view into pages that it used. -/
structure WriterCommit where
  db : Store
  overwrite : Bytes → Bytes
  length_overwrite : ∀ bytes, (overwrite bytes).length = bytes.length

/-- What a handler and the writer share: the database as it was last committed, the snapshot of the
handler's transaction and whether it is open, and the view that was returned last. -/
structure ReadWorld where
  db : Store
  txn : Store
  isOpen : Bool
  view : View

namespace ReadWorld

/-- Before the handler begins. -/
def start (db : Store) : ReadWorld := ⟨db, db, false, .buffer []⟩

/-- A commit spares the pages of an open transaction. -/
def commit (c : WriterCommit) (w : ReadWorld) : ReadWorld :=
  { w with db := c.db, view := if w.isOpen then w.view else w.view.overwrite c.overwrite }

/-- The steps of the writer. -/
def Commits (w w' : ReadWorld) : Prop := ∃ c, w' = w.commit c

end ReadWorld

/-- The calls of the handlers. -/
inductive ReadOp
  | beginTxn
  | lookupEventById (id : Bytes)
  | foreachByFilter (filterJson : Json)
  | getEventJson (levId : Nat)
  | copyView
  | closeTxn

namespace ReadOp

/-- What a call returns. A scan hands levIds to its callback, here as a list, and a view is not a result
but a part of the world. -/
def Result : ReadOp → Type
  | beginTxn => Unit
  | lookupEventById _ => Option Nat
  | foreachByFilter _ => Except Err (List Nat)
  | getEventJson _ => Except Err Unit
  | copyView => Bytes
  | closeTxn => Unit

end ReadOp

/-- A part of a handler. -/
abbrev Handler (α : Type) := Prog ReadOp ReadOp.Result α

namespace Handler

def beginTxn : Handler Unit := Prog.request ReadOp.beginTxn

def lookupEventById (id : Bytes) : Handler (Option Nat) := Prog.request (ReadOp.lookupEventById id)

def foreachByFilter (filterJson : Json) : Handler (Except Err (List Nat)) :=
  Prog.request (ReadOp.foreachByFilter filterJson)

def getEventJson (levId : Nat) : Handler (Except Err Unit) := Prog.request (ReadOp.getEventJson levId)

def copyView : Handler Bytes := Prog.request ReadOp.copyView

def closeTxn : Handler Unit := Prog.request ReadOp.closeTxn

end Handler

/-- The response to a read. -/
inductive ReadResponse
  /-- A status, and the `error` of the body. -/
  | failure (status : Nat) (error : String)
  /-- Status 200 with the text of one event. -/
  | event (body : Bytes)
  /-- Status 200 with an array of events. -/
  | array (body : Bytes)
  /-- A status, and the `message` of a body without `success`. -/
  | refused (status : Nat) (message : String)
  /-- Status 200 with the `results` and the `message` of a body with `success`. -/
  | results (results : List Json) (message : String)

/-- A response, and as a history variable the events whose texts it was made of: the levId and the bytes
that were copied. -/
structure ReadReply where
  response : ReadResponse
  events : List (Nat × Bytes)

/-- A request that reads events. -/
inductive ReadRequest
  /-- The path of the request may have no id. -/
  | getQuote (eventId : Option Bytes)
  | getQuoteByDTag (d : Bytes)
  | batchFetch (body : Bytes)
  | query (method : String) (body : Bytes) (p : QueryParams)

namespace QueryEnv

variable (env : QueryEnv)

/-- `getEventJson`, with the place of the bytes: only a decompressed text is in a buffer. -/
def viewEvent (st : Store) (levId : Nat) : Except Err View :=
  match st.eventPayload.get? levId with
  | none => .error (.herr "couldn't find event in EventPayload")
  | some raw => (decodeEventPayload env.zstd env.maxEventSize env.dictionaries raw).map
      (if raw.head? = some 0 then .mapped else .buffer)

/-- `foreachByFilter`: the levIds that the callback is given. `fuel` bounds the iterations of the scans. -/
def foreachByFilter (st : Store) (fuel : Nat) (filterJson : Json) : Option (Except Err (List Nat)) :=
  match NostrFilterGroup.unwrapped env.hex filterJson maxU64 with
  | .error e => some (.error e)
  | .ok g =>
    match (DBQuery.new ⟨1, queryId, g, ⊤⟩).process env.S env.ord st fuel with
    | some (_, levIds, true) => some (.ok levIds)
    | _ => none

/-- A call in the world. A lookup reads the snapshot of the transaction, which must be open. -/
def exec (fuel : Nat) : (op : ReadOp) → ReadWorld → Option (op.Result × ReadWorld)
  | .beginTxn, w => some ((), { w with txn := w.db, isOpen := true })
  | .lookupEventById id, w =>
    if w.isOpen then some ((w.txn.lookupEventById env.ord id).map Prod.fst, w) else none
  | .foreachByFilter filterJson, w =>
    if w.isOpen then (env.foreachByFilter w.txn fuel filterJson).map fun r => (r, w) else none
  | .getEventJson levId, w =>
    if w.isOpen then
      match env.viewEvent w.txn levId with
      | .error e => some (.error e, w)
      | .ok view => some (.ok (), { w with view := view })
    else none
  | .copyView, w => some (w.view.bytes, w)
  | .closeTxn, w => some ((), { w with isOpen := false })

/-! ## The handlers -/

/-- `handleGetQuote`. -/
def handleGetQuote (eventId : Option Bytes) : Handler ReadReply :=
  match eventId with
  | none => pure ⟨.failure 400 "Missing event ID", []⟩
  | some eventId =>
    if eventId = [] then pure ⟨.failure 400 "Missing event ID", []⟩
    else
      match env.hex.fromHexPrefixed eventId with
      | .error _ => pure ⟨.failure 400 "Invalid event ID format", []⟩
      | .ok eventIdBytes =>
        if eventIdBytes.length ≠ 32 then pure ⟨.failure 400 "Invalid event ID format", []⟩
        else do
          Handler.beginTxn
          let existing ← Handler.lookupEventById eventIdBytes
          match existing with
          | none => do
            Handler.closeTxn
            pure ⟨.failure 404 "Event not found", []⟩
          | some levId => do
            let eventJsonStr ← Handler.getEventJson levId
            match eventJsonStr with
            | .error _ => do
              Handler.closeTxn
              pure ⟨.failure 500 "Internal server error", []⟩
            | .ok () => do
              -- the transaction is closed while the event is still a view
              Handler.closeTxn
              let body ← Handler.copyView
              pure ⟨.event body, [(levId, body)]⟩

/-- `getEventJson`, whose result is copied into a string at once. -/
def readEvent (levId : Nat) : Handler (Except Err Bytes) := do
  let eventJsonStr ← Handler.getEventJson levId
  match eventJsonStr with
  | .error e => pure (.error e)
  | .ok () => do
    let copied ← Handler.copyView
    pure (.ok copied)

/-- The callback that reads the first event only. -/
def firstLoop : Option (Nat × Bytes) → List Nat → Handler (Except Err (Option (Nat × Bytes)))
  | found, [] => pure (.ok found)
  | some found, _ :: rest => firstLoop (some found) rest
  | none, levId :: rest => do
    let eventJsonStr ← readEvent levId
    match eventJsonStr with
    | .error e => pure (.error e)
    | .ok eventJsonStr => firstLoop (some (levId, eventJsonStr)) rest

/-- `COMMIT_HASH_SCAN_LIMIT`. -/
def commitHashScanLimit : UInt64 := 5000

/-- `buildDTagFilter`. -/
def buildDTagFilter (dTag : Bytes) : Except Err Json :=
  env.text.fromString (ascii "\x7b\"#d\":[" ++ env.text.toString (.string dTag) ++ ascii "],\"limit\":1\x7d")

/-- `buildKindFilter`. -/
def buildKindFilter (kind limit : UInt64) : Json :=
  .object [(ascii "kinds", .array [.unsigned kind]), (ascii "limit", .unsigned limit)]

/-- `eventMatchesCommitHash`; every exception counts as no match. -/
def eventMatchesCommitHash (eventJsonStr commitHash : Bytes) : Bool :=
  match env.text.fromString eventJsonStr with
  | .error _ => false
  | .ok eventJson =>
    match eventJson.find? "content" with
    | some (.string content) =>
      match env.text.fromString content with
      | .error _ => false
      | .ok contentJson =>
        match contentJson.find? "commit_hash" with
        | some (.string s) => decide (s = commitHash)
        | _ => false
    | _ => false

/-- The callback of the lookup by commit hash. -/
def commitHashLoop (dTag : Bytes) : Option (Nat × Bytes) → Nat → List Nat →
    Handler (Except Err (Option (Nat × Bytes)))
  | found, _, [] => pure (.ok found)
  | found, scanned, levId :: rest =>
    if found.isSome || commitHashScanLimit.toNat ≤ scanned then commitHashLoop dTag found scanned rest
    else do
      let candidateJson ← readEvent levId
      match candidateJson with
      | .error e => pure (.error e)
      | .ok candidateJson =>
        commitHashLoop dTag
          (if env.eventMatchesCommitHash candidateJson dTag then some (levId, candidateJson) else none)
          (scanned + 1) rest

/-- The first event that a filter finds. -/
def firstEvent (filterJson : Json) : Handler (Except Err (Option (Nat × Bytes))) := do
  let levIds ← Handler.foreachByFilter filterJson
  match levIds with
  | .error e => pure (.error e)
  | .ok levIds => firstLoop none levIds

/-- The lookup by `d` tag. -/
def dTagLookup (dTag : Bytes) : Handler (Except Err (Option (Nat × Bytes))) :=
  match env.buildDTagFilter dTag with
  | .error e => pure (.error e)
  | .ok dTagFilter => firstEvent dTagFilter

/-- The lookup by commit hash. -/
def commitHashLookup (dTag : Bytes) : Handler (Except Err (Option (Nat × Bytes))) := do
  let levIds ← Handler.foreachByFilter (buildKindFilter 30078 commitHashScanLimit)
  match levIds with
  | .error e => pure (.error e)
  | .ok levIds => env.commitHashLoop dTag none 0 levIds

/-- Close the transaction and answer. -/
def closeAndReply (r : ReadReply) : Handler ReadReply := do
  Handler.closeTxn
  pure r

/-- The reply to a request by `d` tag. -/
def quoteReply : Option (Nat × Bytes) → ReadReply
  | none => ⟨.failure 404 "event not found for specified d tag", []⟩
  | some (levId, eventJsonStr) => ⟨.event eventJsonStr, [(levId, eventJsonStr)]⟩

/-- `handleGetQuoteByDTag`. -/
def handleGetQuoteByDTag (dTag : Bytes) : Handler ReadReply :=
  if dTag = [] then pure ⟨.failure 400 "Missing 'd' query parameter", []⟩
  else do
    Handler.beginTxn
    let found ← env.dTagLookup dTag
    match found with
    | .error _ => closeAndReply ⟨.failure 500 "Internal server error", []⟩
    | .ok (some found) => closeAndReply (quoteReply (some found))
    | .ok none => do
      let found ← env.commitHashLookup dTag
      match found with
      | .error _ => closeAndReply ⟨.failure 500 "Internal server error", []⟩
      | .ok found => closeAndReply (quoteReply found)

/-- An element of `results` with an `error`. -/
def fetchFailure (dTag : Bytes) (error : String) : Json :=
  .object [(ascii "d_tag", .string dTag), (ascii "error", .string (ascii error))]

/-- An iteration of the loop over the `d_tags`: the element of `results`, and the event in it. An
exception that leaves the loop is an error. -/
def fetchOne (i : Nat) (dTagValue : Json) : Handler (Except Err (Json × List (Nat × Bytes))) :=
  match dTagValue with
  | .string dTag =>
    match env.buildDTagFilter dTag with
    | .error e => pure (.error e)
    | .ok filterJson => do
      let found ← firstEvent filterJson
      match found with
      | .error e => pure (.ok (fetchFailure dTag ("filter error: " ++ env.what e), []))
      | .ok none => pure (.ok (fetchFailure dTag "event not found", []))
      | .ok (some (levId, eventJsonStr)) =>
        match env.text.fromString eventJsonStr with
        | .error e => pure (.error e)
        | .ok eventJson =>
          pure (.ok (.object [(ascii "d_tag", .string dTag), (ascii "event", eventJson)],
            [(levId, eventJsonStr)]))
  | _ => pure (.ok (fetchFailure [] ("d_tag at index " ++ toString i ++ " is not a string"), []))

/-- The loop over the `d_tags`. -/
def fetchLoop : Nat → List Json → List (Nat × Bytes) → List Json →
    Handler (Except Err (List Json × List (Nat × Bytes)))
  | _, resultsArray, events, [] => pure (.ok (resultsArray, events))
  | i, resultsArray, events, dTagValue :: rest => do
    let fetched ← env.fetchOne i dTagValue
    match fetched with
    | .error e => pure (.error e)
    | .ok (result, new) => fetchLoop (i + 1) (resultsArray ++ [result]) (events ++ new) rest

/-- `MAX_BATCH_FETCH_SIZE`. -/
def maxBatchFetchSize : Nat := 1000

/-- The `d_tags` of a request, or the response to a request that has none to fetch. -/
def requestDTags (body : Bytes) : Except ReadResponse (List Json) :=
  match env.text.fromString body with
  | .error e => .error (.refused 400 ("Invalid JSON: " ++ sanitizeErrorForClient (env.what e)))
  | .ok (.object kvs) =>
    match (Json.object kvs).find? "d_tags" with
    | some (.array dTags) =>
      if dTags.length = 0 then .error (.results [] "No d_tags to fetch")
      else if dTags.length > maxBatchFetchSize then
        .error (.refused 400 "Batch size exceeds maximum of 1000 d_tags")
      else .ok dTags
    | _ => .error (.refused 400 "Request body must contain 'd_tags' array")
  -- a value that is no object throws when a member is looked for
  | .ok _ => .error (.refused 500 "Internal server error")

/-- `handleBatchFetch`. -/
def handleBatchFetch (body : Bytes) : Handler ReadReply :=
  match env.requestDTags body with
  | .error response => pure ⟨response, []⟩
  | .ok dTags => do
    Handler.beginTxn
    let fetched ← env.fetchLoop 0 [] [] dTags
    match fetched with
    | .error _ => closeAndReply ⟨.refused 500 "Internal server error", []⟩
    | .ok (resultsArray, events) => closeAndReply ⟨.results resultsArray "Batch fetch complete", events⟩

/-- The callback of a query, as in `responseLoop`, with the events that were read. -/
def queryLoop : Bool → Nat → Bytes → List (Nat × Bytes) → List Nat →
    Handler (Except Err (Bytes × List (Nat × Bytes)))
  | _, _, responseStr, events, [] => pure (.ok (responseStr, events))
  | first, resultCount, responseStr, events, levId :: rest =>
    if resultCount ≥ maxQueryResults then queryLoop first resultCount responseStr events rest
    else do
      let eventJsonStr ← readEvent levId
      match eventJsonStr with
      | .error e => pure (.error e)
      | .ok eventJsonStr =>
        queryLoop false (resultCount + 1)
          ((if first then responseStr else responseStr ++ [44]) ++ eventJsonStr)
          (events ++ [(levId, eventJsonStr)]) rest

/-- The response of `handleQuery`. -/
def ofQuery : QueryResponse → ReadResponse
  | .failure status error => .failure status error
  | .success body => .array body

/-- `handleQuery`, step by step. -/
def handleQuerySteps (method : String) (body : Bytes) (p : QueryParams) : Handler ReadReply :=
  match env.requestFilter method body p with
  | .error response => pure ⟨ofQuery response, []⟩
  | .ok filterJson => do
    Handler.beginTxn
    let levIds ← Handler.foreachByFilter filterJson
    match levIds with
    | .error e => closeAndReply ⟨ofQuery (env.queryFailure e), []⟩
    | .ok levIds => do
      let r ← queryLoop true 0 [91] [] levIds
      match r with
      | .error e => closeAndReply ⟨ofQuery (env.queryFailure e), []⟩
      | .ok (responseStr, events) => closeAndReply ⟨.array (responseStr ++ [93]), events⟩

/-- The handler of a request. -/
def handle : ReadRequest → Handler ReadReply
  | .getQuote eventId => env.handleGetQuote eventId
  | .getQuoteByDTag d => env.handleGetQuoteByDTag d
  | .batchFetch body => env.handleBatchFetch body
  | .query method body p => env.handleQuerySteps method body p

end QueryEnv

/-! ## Replies from the snapshot -/

/-- The response is made of the texts. -/
def ReadResponse.MadeOf (text : JsonText) (texts : List Bytes) : ReadResponse → Prop
  | .failure _ _ => texts = []
  | .event body => texts = [body]
  | .array body => body = 91 :: (([44] : Bytes).intercalate texts ++ [93])
  | .refused _ _ => texts = []
  | .results elements _ => texts.mapM text.fromString = .ok (elements.filterMap (·.find? "event"))

namespace QueryEnv

/-- The bytes are the ones stored for the levId. -/
def Stored (env : QueryEnv) (st : Store) (e : Nat × Bytes) : Prop :=
  st.getEventJson env.zstd env.maxEventSize env.dictionaries e.1 = .ok e.2

/-- The response is made of the events that were read, and each of them has the bytes that the snapshot has
for its levId. -/
def FromSnapshot (env : QueryEnv) (st : Store) (r : ReadReply) : Prop :=
  r.response.MadeOf env.text (r.events.map Prod.snd) ∧ ∀ e ∈ r.events, env.Stored st e

/-- The request is for an event by its id, and the snapshot has the event uncompressed. -/
def QuotesUncompressed (env : QueryEnv) (st : Store) : ReadRequest → Prop
  | .getQuote (some eventId) => ∃ id levId text, env.hex.fromHexPrefixed eventId = .ok id ∧ id.length = 32 ∧
      (st.lookupEventById env.ord id).map Prod.fst = some levId ∧
      st.eventPayload.get? levId = some (0 :: text) ∧ text ≠ []
  | _ => False

/-! ## While the transaction is open -/

section Open

variable {env : QueryEnv} {fuel : Nat} {st : Store} {α β : Type}

/-- The transaction is open and shows the store. -/
def Reading (st : Store) (w : ReadWorld) : Prop := w.isOpen = true ∧ w.txn = st

theorem stable_reading : Stable ReadWorld.Commits (Reading st) := by
  rintro w _ ⟨c, rfl⟩ h
  exact h

theorem stable_txn (st : Store) : Stable ReadWorld.Commits fun w => w.txn = st := by
  rintro w _ ⟨c, rfl⟩ h
  exact h

theorem viewEvent_bytes (st : Store) (levId : Nat) :
    (env.viewEvent st levId).map View.bytes =
      st.getEventJson env.zstd env.maxEventSize env.dictionaries levId := by
  rw [viewEvent, Store.getEventJson]
  cases st.eventPayload.get? levId with
  | none => rfl
  | some raw =>
    show (Except.map _ _).map _ = decodeEventPayload env.zstd env.maxEventSize env.dictionaries raw
    cases decodeEventPayload env.zstd env.maxEventSize env.dictionaries raw with
    | error e => rfl
    | ok json =>
      by_cases hraw : raw.head? = some 0
      · rw [if_pos hraw]
        rfl
      · rw [if_neg hraw]
        rfl

/-- A part of a handler that reads within the open transaction, and what it returns there. -/
def Reads (env : QueryEnv) (fuel : Nat) (st : Store) (p : Handler α) (C : α → Prop) : Prop :=
  Ensures (env.exec fuel) ReadWorld.Commits (Reading st) p fun a w => Reading st w ∧ C a

theorem reads_pure {C : α → Prop} {a : α} (h : C a) : Reads env fuel st (pure a) C :=
  (ensures_pure (Q := fun b w => Reading st w ∧ C b) (stable_reading.and (stable_const _))).mono
    (fun _ hw => ⟨hw, h⟩) fun _ _ hw => hw

/-- After a part that reads within the transaction, the rest goes on with what it returned. -/
theorem ensures_of_reads {p : Handler α} {f : α → Handler β} {C : α → Prop}
    {Q : β → ReadWorld → Prop} (hp : Reads env fuel st p C)
    (hf : ∀ a, C a → Ensures (env.exec fuel) ReadWorld.Commits (Reading st) (f a) Q) :
    Ensures (env.exec fuel) ReadWorld.Commits (Reading st) (p >>= f) Q := by
  refine ensures_bind hp ?_
  intro a w b w' hout hw
  exact hf a hw.2 w b w' hout hw.1

theorem reads_bind {p : Handler α} {f : α → Handler β} {C : α → Prop} {D : β → Prop}
    (hp : Reads env fuel st p C) (hf : ∀ a, C a → Reads env fuel st (f a) D) :
    Reads env fuel st (p >>= f) D := ensures_of_reads hp hf

theorem reads_lookupEventById (id : Bytes) :
    Reads env fuel st (Handler.lookupEventById id)
      fun r => (st.lookupEventById env.ord id).map Prod.fst = r := by
  refine ensures_request stable_reading (fun r => stable_reading.and (stable_const _)) ?_
  rintro w r w' ⟨hopen, rfl⟩ hexec
  rw [exec, if_pos hopen] at hexec
  cases hexec
  exact ⟨⟨hopen, rfl⟩, rfl⟩

theorem reads_foreachByFilter (filterJson : Json) :
    Reads env fuel st (Handler.foreachByFilter filterJson)
      fun r => env.foreachByFilter st fuel filterJson = some r := by
  refine ensures_request stable_reading (fun r => stable_reading.and (stable_const _)) ?_
  rintro w r w' ⟨hopen, rfl⟩ hexec
  rw [exec, if_pos hopen] at hexec
  obtain ⟨r', hr', heq⟩ := Option.map_eq_some_iff.mp hexec
  cases heq
  exact ⟨⟨hopen, rfl⟩, hr'⟩

/-- A view lies in the map only if the record is not compressed. -/
theorem payload_of_viewEvent {levId : Nat} {bytes : Bytes}
    (h : env.viewEvent st levId = .ok (.mapped bytes)) : st.eventPayload.get? levId = some (0 :: bytes) := by
  rw [viewEvent] at h
  cases hraw : st.eventPayload.get? levId with
  | none =>
    rw [hraw] at h
    cases h
  | some raw =>
    simp only [hraw] at h
    obtain ⟨json, hjson, heq⟩ := map_eq_ok.mp h
    split at heq
    · rename_i hhead
      obtain ⟨rest, rfl⟩ := List.head?_eq_some_iff.mp hhead
      cases hjson
      cases heq
      rfl
    · cases heq

/-- A view is returned, and it is not changed while the transaction is open. -/
theorem ensures_getEventJson (levId : Nat) :
    Ensures (env.exec fuel) ReadWorld.Commits (Reading st) (Handler.getEventJson levId)
      fun r w => Reading st w ∧ env.viewEvent st levId = r.map fun _ => w.view := by
  refine ensures_request stable_reading ?_ ?_
  · rintro r w _ ⟨c, rfl⟩ ⟨hopen, hview⟩
    refine ⟨hopen, ?_⟩
    rw [hview, ReadWorld.commit, if_pos hopen.1]
  · rintro w r w' ⟨hopen, rfl⟩ hexec
    rw [exec, if_pos hopen] at hexec
    cases hview : env.viewEvent w.txn levId with
    | error e =>
      rw [hview] at hexec
      cases hexec
      exact ⟨⟨hopen, rfl⟩, rfl⟩
    | ok view =>
      rw [hview] at hexec
      cases hexec
      exact ⟨⟨hopen, rfl⟩, rfl⟩

/-- What is copied while the transaction is open is the text in the snapshot. -/
theorem reads_readEvent (levId : Nat) :
    Reads env fuel st (readEvent levId)
      fun r => st.getEventJson env.zstd env.maxEventSize env.dictionaries levId = r := by
  refine ensures_bind (ensures_getEventJson levId) ?_
  intro r w b w' hout hw
  rw [← viewEvent_bytes]
  cases r with
  | error e =>
    have hreads : Reads env fuel st (pure (.error e) : Handler (Except Err Bytes))
        fun r => (env.viewEvent st levId).map View.bytes = r := reads_pure (by rw [hw.2]; rfl)
    exact hreads w b w' hout hw.1
  | ok u =>
    have hcopy : Ensures (env.exec fuel) ReadWorld.Commits
        (fun w => Reading st w ∧ env.viewEvent st levId = .ok w.view) Handler.copyView
        (fun bs w => Reading st w ∧ (env.viewEvent st levId).map View.bytes = .ok bs) := by
      refine ensures_request ?_ (fun r => stable_reading.and (stable_const _)) ?_
      · rintro w _ ⟨c, rfl⟩ ⟨hopen, hview⟩
        refine ⟨hopen, ?_⟩
        rw [hview, ReadWorld.commit, if_pos hopen.1]
      · rintro w _ w' ⟨hopen, hview⟩ hexec
        cases hexec
        exact ⟨hopen, by rw [hview]; rfl⟩
    have hrest := ensures_bind (f := fun bs => (pure (.ok bs) : Handler (Except Err Bytes))) hcopy
      fun bs => (ensures_pure (Q := fun r w => Reading st w ∧ (env.viewEvent st levId).map View.bytes = r)
        (stable_reading.and (stable_const _)))
    exact hrest w b w' hout hw

/-- What a search for an event has found, if it has. -/
def FindsStored (env : QueryEnv) (st : Store) (r : Except Err (Option (Nat × Bytes))) : Prop :=
  ∀ e, r = .ok (some e) → env.Stored st e

theorem reads_firstLoop (levIds : List Nat) {found : Option (Nat × Bytes)}
    (hfound : env.FindsStored st (.ok found)) :
    Reads env fuel st (firstLoop found levIds) (env.FindsStored st) := by
  induction levIds generalizing found with
  | nil =>
    cases found with
    | none => exact reads_pure hfound
    | some e => exact reads_pure hfound
  | cons levId levIds ih =>
    cases found with
    | some e => exact ih hfound
    | none =>
      refine reads_bind (reads_readEvent levId) ?_
      intro r hr
      cases r with
      | error e => exact reads_pure nofun
      | ok eventJsonStr =>
        apply ih
        rintro e ⟨⟩
        exact hr

theorem reads_commitHashLoop (dTag : Bytes) (levIds : List Nat) {found : Option (Nat × Bytes)}
    {scanned : Nat} (hfound : env.FindsStored st (.ok found)) :
    Reads env fuel st (env.commitHashLoop dTag found scanned levIds) (env.FindsStored st) := by
  induction levIds generalizing found scanned with
  | nil => exact reads_pure hfound
  | cons levId levIds ih =>
    rw [commitHashLoop]
    split
    · exact ih hfound
    · refine reads_bind (reads_readEvent levId) ?_
      intro r hr
      cases r with
      | error e => exact reads_pure nofun
      | ok candidateJson =>
        apply ih
        intro e he
        split at he
        · cases he
          exact hr
        · cases he

theorem reads_firstEvent (filterJson : Json) :
    Reads env fuel st (firstEvent filterJson) (env.FindsStored st) := by
  refine reads_bind (reads_foreachByFilter filterJson) ?_
  intro r _
  cases r with
  | error e => exact reads_pure nofun
  | ok levIds => exact reads_firstLoop levIds nofun

theorem reads_dTagLookup (dTag : Bytes) :
    Reads env fuel st (env.dTagLookup dTag) (env.FindsStored st) := by
  rw [dTagLookup]
  cases env.buildDTagFilter dTag with
  | error e => exact reads_pure nofun
  | ok dTagFilter => exact reads_firstEvent dTagFilter

theorem reads_commitHashLookup (dTag : Bytes) :
    Reads env fuel st (env.commitHashLookup dTag) (env.FindsStored st) := by
  refine reads_bind (reads_foreachByFilter _) ?_
  intro r _
  cases r with
  | error e => exact reads_pure nofun
  | ok levIds => exact reads_commitHashLoop dTag levIds nofun

/-- Elements of `results`, made of stored events. -/
def FetchedFrom (env : QueryEnv) (st : Store) (elements : List Json) (events : List (Nat × Bytes)) : Prop :=
  (events.map Prod.snd).mapM env.text.fromString = .ok (elements.filterMap (·.find? "event")) ∧
    ∀ e ∈ events, env.Stored st e

theorem fetchedFrom_nil : env.FetchedFrom st [] [] := ⟨rfl, nofun⟩

theorem FetchedFrom.append {elements new : List Json} {events newEvents : List (Nat × Bytes)}
    (h : env.FetchedFrom st elements events) (hnew : env.FetchedFrom st new newEvents) :
    env.FetchedFrom st (elements ++ new) (events ++ newEvents) := by
  constructor
  · rw [List.map_append, List.mapM_append, h.1, hnew.1, List.filterMap_append]
    rfl
  · intro e he
    rcases List.mem_append.mp he with he | he
    · exact h.2 e he
    · exact hnew.2 e he

theorem fetchedFrom_failure (dTag : Bytes) (error : String) :
    env.FetchedFrom st [fetchFailure dTag error] [] := by
  have hfind : (fetchFailure dTag error).find? "event" = none := by
    have hne : (ascii "event" == ascii "d_tag") = false := by decide
    have hne' : (ascii "event" == ascii "error") = false := by decide
    rw [fetchFailure, Json.find?]
    simp only [List.lookup, hne, hne']
  refine ⟨?_, nofun⟩
  rw [List.filterMap_cons, hfind]
  rfl

theorem reads_fetchOne (i : Nat) (dTagValue : Json) :
    Reads env fuel st (env.fetchOne i dTagValue)
      fun r => ∀ x, r = .ok x → env.FetchedFrom st [x.1] x.2 := by
  -- a failure has no event, so that nothing is claimed of it
  have hfailure : ∀ dTag error, ∀ x,
      (.ok (fetchFailure dTag error, []) : Except Err (Json × List (Nat × Bytes))) = .ok x →
        env.FetchedFrom st [x.1] x.2 := by
    rintro dTag error _ ⟨⟩
    exact fetchedFrom_failure dTag error
  cases dTagValue with
  | string dTag =>
    rw [fetchOne]
    cases env.buildDTagFilter dTag with
    | error e => exact reads_pure nofun
    | ok filterJson =>
      refine reads_bind (reads_firstEvent filterJson) ?_
      intro found hfound
      match found with
      | .error e => exact reads_pure (hfailure _ _)
      | .ok none => exact reads_pure (hfailure _ _)
      | .ok (some (levId, eventJsonStr)) =>
        cases hparse : env.text.fromString eventJsonStr with
        | error e =>
          simp only [hparse]
          exact reads_pure nofun
        | ok eventJson =>
          simp only [hparse]
          apply reads_pure
          rintro _ ⟨⟩
          have hfind : (Json.object [(ascii "d_tag", .string dTag), (ascii "event", eventJson)]).find?
              "event" = some eventJson := by
            have hne : (ascii "event" == ascii "d_tag") = false := by decide
            rw [Json.find?]
            simp only [List.lookup, hne, beq_self_eq_true]
          constructor
          · rw [List.filterMap_cons, hfind]
            simp only [List.map_cons, List.map_nil, List.mapM_cons, hparse]
            rfl
          · intro e he
            rw [List.mem_singleton.mp he]
            exact hfound _ rfl
  | null => exact reads_pure (hfailure _ _)
  | boolean b => exact reads_pure (hfailure _ _)
  | signed i => exact reads_pure (hfailure _ _)
  | unsigned n => exact reads_pure (hfailure _ _)
  | double bits => exact reads_pure (hfailure _ _)
  | array xs => exact reads_pure (hfailure _ _)
  | object kvs => exact reads_pure (hfailure _ _)

theorem reads_fetchLoop (dTags : List Json) {i : Nat} {resultsArray : List Json}
    {events : List (Nat × Bytes)} (h : env.FetchedFrom st resultsArray events) :
    Reads env fuel st (env.fetchLoop i resultsArray events dTags)
      fun r => ∀ x, r = .ok x → env.FetchedFrom st x.1 x.2 := by
  induction dTags generalizing i resultsArray events with
  | nil =>
    apply reads_pure
    rintro _ ⟨⟩
    exact h
  | cons dTagValue dTags ih =>
    refine reads_bind (reads_fetchOne i dTagValue) ?_
    intro r hr
    cases r with
    | error e => exact reads_pure nofun
    | ok x => exact ih (h.append (hr x rfl))

/-- The array of a response before its closing bracket, with the texts that are in it. -/
def OpenArray (first : Bool) (responseStr : Bytes) (texts : List Bytes) : Prop :=
  (first = true ↔ texts = []) ∧ responseStr = 91 :: ([44] : Bytes).intercalate texts

theorem intercalate_concat {sep x : Bytes} {l : List Bytes} (hne : l ≠ []) :
    sep.intercalate (l ++ [x]) = sep.intercalate l ++ (sep ++ x) := by
  induction l with
  | nil => exact absurd rfl hne
  | cons a l ih =>
    cases l with
    | nil =>
      rw [List.cons_append, List.nil_append, List.intercalate_cons_cons, List.intercalate_singleton,
        List.intercalate_singleton, List.append_assoc]
    | cons b l =>
      rw [List.cons_append, List.cons_append, List.intercalate_cons_cons, ← List.cons_append,
        ih (List.cons_ne_nil b l), List.intercalate_cons_cons]
      simp only [List.append_assoc]

theorem OpenArray.add {first : Bool} {responseStr : Bytes} {texts : List Bytes}
    (h : OpenArray first responseStr texts) (x : Bytes) :
    OpenArray false ((if first then responseStr else responseStr ++ [44]) ++ x) (texts ++ [x]) := by
  refine ⟨by simp, ?_⟩
  cases first with
  | true =>
    rw [h.2, h.1.mp rfl, List.nil_append, List.intercalate_singleton, if_pos rfl]
    rfl
  | false =>
    have hne : texts ≠ [] := fun hnil => Bool.false_ne_true (h.1.mpr hnil)
    rw [if_neg Bool.false_ne_true, h.2, intercalate_concat hne, List.append_assoc, List.cons_append]

/-- The callback of a query does along the events found what `responseLoop` does on the snapshot. -/
theorem reads_queryLoop (levIds : List Nat) {first : Bool} {resultCount : Nat} {responseStr : Bytes}
    {events : List (Nat × Bytes)} (hopen : OpenArray first responseStr (events.map Prod.snd))
    (hstored : ∀ e ∈ events, env.Stored st e) :
    Reads env fuel st (queryLoop first resultCount responseStr events levIds) fun r =>
      env.responseLoop st first resultCount responseStr levIds = r.map Prod.fst ∧
        ∀ x, r = .ok x → (∃ first', OpenArray first' x.1 (x.2.map Prod.snd)) ∧
          ∀ e ∈ x.2, env.Stored st e := by
  induction levIds generalizing first resultCount responseStr events with
  | nil =>
    apply reads_pure
    refine ⟨rfl, ?_⟩
    rintro _ ⟨⟩
    exact ⟨⟨first, hopen⟩, hstored⟩
  | cons levId levIds ih =>
    rw [queryLoop, responseLoop]
    split
    · exact ih hopen hstored
    · refine reads_bind (reads_readEvent levId) ?_
      intro r hr
      cases r with
      | error e =>
        apply reads_pure
        rw [hr]
        refine ⟨rfl, ?_⟩
        rintro _ ⟨⟩
      | ok eventJsonStr =>
        simp only [hr, bind, Except.bind]
        apply ih
        · rw [List.map_append]
          exact hopen.add eventJsonStr
        · intro e he
          rcases List.mem_append.mp he with he | he
          · exact hstored e he
          · rw [List.mem_singleton.mp he]
            exact hr

end Open

/-! ## The handlers -/

section Handlers

variable {env : QueryEnv} {fuel : Nat} {α : Type}

theorem stable_snapshot (Q : Store → Prop) : Stable ReadWorld.Commits fun w : ReadWorld => Q w.txn := by
  rintro w _ ⟨c, rfl⟩ h
  exact h

/-- A part of a handler that ends it: the condition relates the reply to the snapshot. -/
def Replies (env : QueryEnv) (fuel : Nat) (P : ReadWorld → Prop) (p : Handler ReadReply)
    (Q : ReadReply → Store → Prop) : Prop :=
  Ensures (env.exec fuel) ReadWorld.Commits P p fun r w => Q r w.txn

variable {st : Store} {r : ReadReply} {Q : ReadReply → Store → Prop}

/-- What follows the begin of the transaction reads in the database of that moment. -/
theorem replies_begin {rest : Handler ReadReply} (h : ∀ st, Replies env fuel (Reading st) rest Q) :
    Replies env fuel (fun _ => True) (Handler.beginTxn >>= fun _ => rest) Q := by
  have hbegin : Ensures (env.exec fuel) ReadWorld.Commits (fun _ => True) Handler.beginTxn
      fun _ w => w.isOpen = true := by
    refine ensures_request (stable_const _) (fun _ => ?_) ?_
    · rintro w _ ⟨c, rfl⟩ hopen
      exact hopen
    · rintro w _ w' _ hexec
      cases hexec
      rfl
  refine ensures_bind hbegin ?_
  intro _ w a w' hout hopen
  exact h w.txn w a w' hout ⟨hopen, rfl⟩

theorem replies_of_reads {p : Handler α} {f : α → Handler ReadReply} {C : α → Prop}
    (hp : Reads env fuel st p C) (hf : ∀ a, C a → Replies env fuel (Reading st) (f a) Q) :
    Replies env fuel (Reading st) (p >>= f) Q := ensures_of_reads hp hf

/-- A reply without a transaction. -/
theorem replies_pure (h : ∀ st, Q r st) : Replies env fuel (fun _ => True) (pure r) Q :=
  (ensures_pure (Q := fun r w => Q r w.txn) (stable_snapshot (Q r))).mono (fun w _ => h w.txn)
    fun _ _ hw => hw

/-- A reply that is made before the transaction is closed. -/
theorem replies_close (h : Q r st) : Replies env fuel (Reading st) (closeAndReply r) Q := by
  have hclose : Ensures (env.exec fuel) ReadWorld.Commits (Reading st) Handler.closeTxn
      fun _ w => Q r w.txn := by
    refine ensures_request stable_reading (fun _ => stable_snapshot (Q r)) ?_
    rintro w _ w' ⟨-, rfl⟩ hexec
    cases hexec
    exact h
  exact ensures_bind hclose fun _ =>
    ensures_pure (Q := fun r (w : ReadWorld) => Q r w.txn) (stable_snapshot (Q r))

theorem fromSnapshot_failure (st : Store) (status : Nat) (error : String) :
    env.FromSnapshot st ⟨.failure status error, []⟩ := ⟨rfl, nofun⟩

theorem fromSnapshot_refused (st : Store) (status : Nat) (message : String) :
    env.FromSnapshot st ⟨.refused status message, []⟩ := ⟨rfl, nofun⟩

theorem fromSnapshot_event {e : Nat × Bytes} (h : env.Stored st e) :
    env.FromSnapshot st ⟨.event e.2, [e]⟩ := by
  refine ⟨rfl, ?_⟩
  intro e' he'
  rw [List.mem_singleton.mp he']
  exact h

theorem fromSnapshot_quoteReply {found : Option (Nat × Bytes)}
    (h : env.FindsStored st (.ok found)) : env.FromSnapshot st (quoteReply found) := by
  cases found with
  | none => exact fromSnapshot_failure st _ _
  | some e => exact fromSnapshot_event (h e rfl)

theorem fromSnapshot_queryFailure (st : Store) (e : Err) :
    env.FromSnapshot st ⟨ofQuery (env.queryFailure e), []⟩ := by
  rw [queryFailure]
  split
  · exact fromSnapshot_failure st _ _
  · exact fromSnapshot_failure st _ _

theorem runQuery_of_foreachByFilter_error {filterJson : Json} {e : Err}
    (h : env.foreachByFilter st fuel filterJson = some (.error e)) :
    env.runQuery st fuel filterJson = some (env.queryFailure e) := by
  rw [foreachByFilter] at h
  rw [runQuery]
  cases hgroup : NostrFilterGroup.unwrapped env.hex filterJson maxU64 with
  | error e' =>
    simp only [hgroup] at h
    cases h
    rfl
  | ok g =>
    simp only [hgroup] at h
    split at h
    all_goals cases h

theorem runQuery_of_foreachByFilter_ok {filterJson : Json} {levIds : List Nat}
    (h : env.foreachByFilter st fuel filterJson = some (.ok levIds)) :
    env.runQuery st fuel filterJson =
      match env.responseLoop st true 0 [91] levIds with
      | .error e => some (env.queryFailure e)
      | .ok responseStr => some (.success (responseStr ++ [93])) := by
  rw [foreachByFilter] at h
  rw [runQuery]
  cases hgroup : NostrFilterGroup.unwrapped env.hex filterJson maxU64 with
  | error e' =>
    simp only [hgroup] at h
    cases h
  | ok g =>
    simp only [hgroup] at h
    split at h
    · rename_i q levIds' hprocess
      cases h
      cases hloop : env.responseLoop st true 0 [91] levIds with
      | error e => simp only [hprocess, hloop]
      | ok responseStr => simp only [hprocess, hloop]
    · cases h

theorem handleGetQuoteByDTag_replies (dTag : Bytes) :
    Replies env fuel (fun _ => True) (env.handleGetQuoteByDTag dTag)
      fun r st => env.FromSnapshot st r := by
  rw [handleGetQuoteByDTag]
  split
  · exact replies_pure fun st => fromSnapshot_failure st _ _
  · refine replies_begin fun st => replies_of_reads (reads_dTagLookup dTag) ?_
    intro found hfound
    match found with
    | .error e => exact replies_close (fromSnapshot_failure st _ _)
    | .ok (some e) => exact replies_close (fromSnapshot_quoteReply hfound)
    | .ok none =>
      refine replies_of_reads (reads_commitHashLookup dTag) ?_
      intro found hfound
      cases found with
      | error e => exact replies_close (fromSnapshot_failure st _ _)
      | ok found => exact replies_close (fromSnapshot_quoteReply hfound)

theorem handleBatchFetch_replies (body : Bytes) :
    Replies env fuel (fun _ => True) (env.handleBatchFetch body)
      fun r st => env.FromSnapshot st r := by
  rw [handleBatchFetch]
  cases hrequest : env.requestDTags body with
  | error response =>
    refine replies_pure fun st => ⟨?_, nofun⟩
    -- no event is in the response to a request without tags to fetch
    rw [requestDTags] at hrequest
    repeat' split at hrequest
    all_goals cases hrequest
    all_goals rfl
  | ok dTags =>
    refine replies_begin fun st => replies_of_reads (reads_fetchLoop dTags fetchedFrom_nil) ?_
    intro r hr
    cases r with
    | error e => exact replies_close (fromSnapshot_refused st _ _)
    | ok x => exact replies_close (hr x rfl)

theorem requestFilter_error {method : String} {body : Bytes} {p : QueryParams} {response : QueryResponse}
    (h : env.requestFilter method body p = .error response) : ∃ error, response = .failure 400 error := by
  rw [requestFilter] at h
  repeat' split at h
  all_goals cases h
  all_goals exact ⟨_, rfl⟩

/-- A query is answered from its snapshot, and step by step as `handleQuery` answers on it at once. -/
theorem handleQuerySteps_replies (method : String) (body : Bytes) (p : QueryParams) :
    Replies env fuel (fun _ => True) (env.handleQuerySteps method body p) fun r st =>
      env.FromSnapshot st r ∧ (env.handleQuery st fuel method body p).map ofQuery = some r.response := by
  rw [handleQuerySteps]
  cases hrequest : env.requestFilter method body p with
  | error response =>
    obtain ⟨error, rfl⟩ := requestFilter_error hrequest
    refine replies_pure fun st => ⟨fromSnapshot_failure st _ _, ?_⟩
    rw [handleQuery, hrequest]
    rfl
  | ok filterJson =>
    refine replies_begin fun st => replies_of_reads (reads_foreachByFilter filterJson) ?_
    intro r hr
    have hanswer : env.handleQuery st fuel method body p = env.runQuery st fuel filterJson := by
      rw [handleQuery, hrequest]
    cases r with
    | error e =>
      refine replies_close ⟨fromSnapshot_queryFailure st e, ?_⟩
      rw [hanswer, runQuery_of_foreachByFilter_error hr]
      rfl
    | ok levIds =>
      have hstart : ∀ e ∈ ([] : List (Nat × Bytes)), env.Stored st e := fun e he => absurd he List.not_mem_nil
      refine replies_of_reads (reads_queryLoop levIds ⟨by simp, rfl⟩ hstart) ?_
      rintro r ⟨hloop, hr'⟩
      have hrun := runQuery_of_foreachByFilter_ok hr
      cases r with
      | error e =>
        refine replies_close ⟨fromSnapshot_queryFailure st e, ?_⟩
        rw [hanswer, hrun, hloop]
        rfl
      | ok x =>
        obtain ⟨⟨first, hopen⟩, hstored⟩ := hr' x rfl
        refine replies_close ⟨⟨?_, hstored⟩, ?_⟩
        · show x.1 ++ [93] = _
          rw [hopen.2]
          rfl
        · rw [hanswer, hrun, hloop]
          rfl

/-- A commit cannot change what is seen through the view. -/
def Kept (v : View) : Prop := ∀ bytes, v = .mapped bytes → bytes = []

theorem overwrite_of_kept {v : View} (h : Kept v) (c : WriterCommit) : v.overwrite c.overwrite = v := by
  cases v with
  | mapped bytes =>
    rw [h bytes rfl, View.overwrite, List.eq_nil_of_length_eq_zero (c.length_overwrite [])]
  | buffer bytes => rfl

/-- What is copied after the transaction is closed is the text in the snapshot, if no commit can change what
is seen through the view. -/
theorem replies_copy_closed {levId : Nat} {C : Store → Prop}
    (hkept : ∀ v, env.viewEvent st levId = .ok v → C st → Kept v) :
    Replies env fuel (fun w => Reading st w ∧ env.viewEvent st levId = .ok w.view)
      (do
        Handler.closeTxn
        let body ← Handler.copyView
        pure ⟨.event body, [(levId, body)]⟩)
      fun r st => C st → env.FromSnapshot st r := by
  -- what is known when the transaction is closed, and stays known under commits: the bytes of the view are kept
  let Viewed : ReadWorld → Prop := fun w =>
    w.txn = st ∧ (C st → env.viewEvent st levId = .ok w.view ∧ Kept w.view)
  have hstable : Stable ReadWorld.Commits Viewed := by
    rintro w _ ⟨commit, rfl⟩ ⟨htxn, hview⟩
    refine ⟨htxn, fun hc => ?_⟩
    have hsame : (w.commit commit).view = w.view := by
      rw [ReadWorld.commit]
      simp only [overwrite_of_kept (hview hc).2, ite_self]
    rw [hsame]
    exact hview hc
  have hclose : Ensures (env.exec fuel) ReadWorld.Commits
      (fun w => Reading st w ∧ env.viewEvent st levId = .ok w.view) Handler.closeTxn fun _ => Viewed := by
    refine ensures_request ?_ (fun _ => hstable) ?_
    · rintro w _ ⟨commit, rfl⟩ ⟨hopen, hview⟩
      refine ⟨hopen, ?_⟩
      rw [hview, ReadWorld.commit, if_pos hopen.1]
    · rintro w _ w' ⟨⟨-, htxn⟩, hview⟩ hexec
      cases hexec
      exact ⟨htxn, fun hc => ⟨hview, hkept _ hview hc⟩⟩
  have hcopy : Ensures (env.exec fuel) ReadWorld.Commits Viewed Handler.copyView
      fun bs w => w.txn = st ∧ (C st → env.Stored st (levId, bs)) := by
    refine ensures_request hstable (fun _ => (stable_txn st).and (stable_const _)) ?_
    rintro w _ w' ⟨htxn, hview⟩ hexec
    cases hexec
    refine ⟨htxn, fun hc => ?_⟩
    rw [Stored, ← viewEvent_bytes, (hview hc).1]
    rfl
  refine ensures_bind hclose fun _ => ensures_bind hcopy fun bs => ?_
  refine (ensures_pure (Q := fun r w => C w.txn → env.FromSnapshot w.txn r)
    (stable_snapshot fun st => C st → env.FromSnapshot st _)).mono ?_ fun _ _ h => h
  rintro w ⟨rfl, hstored⟩ hc
  exact fromSnapshot_event (hstored hc)

/-- `handleGetQuote` answers from the snapshot unless it has the event uncompressed. -/
theorem handleGetQuote_replies (eventId : Option Bytes) :
    Replies env fuel (fun _ => True) (env.handleGetQuote eventId) fun r st =>
      ¬ env.QuotesUncompressed st (.getQuote eventId) → env.FromSnapshot st r := by
  have hfailure : ∀ status error st, ¬ env.QuotesUncompressed st (.getQuote eventId) →
      env.FromSnapshot st ⟨.failure status error, []⟩ := fun _ _ st _ => fromSnapshot_failure st _ _
  cases eventId with
  | none => exact replies_pure (hfailure _ _)
  | some eventId =>
    rw [handleGetQuote]
    split
    · exact replies_pure (hfailure _ _)
    · cases hhex : env.hex.fromHexPrefixed eventId with
      | error e => exact replies_pure (hfailure _ _)
      | ok id =>
        show Replies env fuel _ (if id.length ≠ 32 then _ else _) _
        split
        · exact replies_pure (hfailure _ _)
        · rename_i hlength
          refine replies_begin fun st => replies_of_reads (reads_lookupEventById id) ?_
          intro existing hexisting
          cases existing with
          | none => exact replies_close (hfailure _ _ st)
          | some levId =>
            -- what is in the map may be overwritten only if the record is not compressed
            have hkept : ∀ v, env.viewEvent st levId = .ok v →
                ¬ env.QuotesUncompressed st (.getQuote (some eventId)) → Kept v := by
              rintro _ hview hquotes bytes rfl
              by_contra hne
              exact hquotes ⟨id, levId, bytes, hhex, not_not.mp hlength, hexisting,
                payload_of_viewEvent hview, hne⟩
            refine ensures_bind (ensures_getEventJson levId) ?_
            intro r w reply w' hout hw
            cases r with
            | error e =>
              have hclose : Replies env fuel (Reading st) (closeAndReply _) fun r st =>
                  ¬ env.QuotesUncompressed st (.getQuote (some eventId)) → env.FromSnapshot st r :=
                replies_close (hfailure 500 "Internal server error" st)
              exact hclose w reply w' hout hw.1
            | ok u =>
              exact replies_copy_closed
                (C := fun st => ¬ env.QuotesUncompressed st (.getQuote (some eventId))) hkept w reply w'
                hout hw

end Handlers

/-! ## Which requests are answered from the snapshot -/

/-- Every reply to the request from the snapshot is made of what the snapshot has, whatever the writer commits
between the calls of the handler. -/
def AnswersFrom (env : QueryEnv) (fuel : Nat) (st : Store) (request : ReadRequest) : Prop :=
  ∀ db reply w, Outcome (env.exec fuel) ReadWorld.Commits (env.handle request) (.start db) reply w →
    w.txn = st → env.FromSnapshot st reply

section Requests

variable {env : QueryEnv} {fuel : Nat} {st : Store} {request : ReadRequest}

theorem handle_replies (env : QueryEnv) (fuel : Nat) (request : ReadRequest) :
    Replies env fuel (fun _ => True) (env.handle request)
      fun r st => ¬ env.QuotesUncompressed st request → env.FromSnapshot st r := by
  cases request with
  | getQuote eventId => exact handleGetQuote_replies eventId
  | getQuoteByDTag d => exact (handleGetQuoteByDTag_replies d).mono (fun _ h => h) fun _ _ h _ => h
  | batchFetch body => exact (handleBatchFetch_replies body).mono (fun _ h => h) fun _ _ h _ => h
  | query method body p =>
    exact (handleQuerySteps_replies method body p).mono (fun _ h => h) fun _ _ h _ => h.1

/-- A commit after which every byte of the pages it used is another one. -/
def incrementing (db : Store) : WriterCommit := ⟨db, fun bytes => bytes.map (· + 1), fun _ => List.length_map _⟩

/-- When the event is uncompressed, a commit may fall between the end of the transaction and the copy. -/
theorem exists_overwritten (fuel : Nat) (h : env.QuotesUncompressed st request) (db : Store) :
    ∃ reply w, Outcome (env.exec fuel) ReadWorld.Commits (env.handle request) (.start st) reply w ∧
      w.txn = st ∧ w.db = db ∧ ¬ env.FromSnapshot st reply := by
  match request, h with
  | .getQuote (some eventId), ⟨id, levId, text, hhex, hlength, hlookup, hraw, hne⟩ =>
    have heventId : eventId ≠ [] := by
      rintro rfl
      have hlen := env.hex.length_fromHexPrefixed _ _ hhex
      rw [hlength] at hlen
      exact absurd hlen (by decide)
    have hview : env.viewEvent st levId = .ok (.mapped text) := by
      rw [viewEvent, hraw]
      rfl
    refine ⟨⟨.event (text.map (· + 1)), [(levId, text.map (· + 1))]⟩,
      (ReadWorld.mk st st false (.mapped text)).commit (incrementing db), ?_, rfl, rfl, ?_⟩
    · show Outcome _ _ (env.handleGetQuote (some eventId)) _ _ _
      rw [handleGetQuote, if_neg heventId]
      simp only [hhex, hlength, ne_eq, not_true_eq_false, if_false]
      refine outcome_bind_iff.mpr ⟨_, ⟨st, st, true, .buffer []⟩, outcome_request rfl, ?_⟩
      refine outcome_bind_iff.mpr ⟨some levId, ⟨st, st, true, .buffer []⟩, outcome_request ?_, ?_⟩
      · rw [exec, if_pos rfl, hlookup]
      refine outcome_bind_iff.mpr ⟨.ok (), ⟨st, st, true, .mapped text⟩, outcome_request ?_, ?_⟩
      · rw [exec, if_pos rfl]
        simp only [hview]
      refine outcome_bind_iff.mpr ⟨_, ⟨st, st, false, .mapped text⟩, outcome_request rfl, ?_⟩
      -- the commit
      refine .interfere ⟨incrementing db, rfl⟩ ?_
      exact outcome_bind_iff.mpr ⟨_, _, outcome_request rfl, .done⟩
    · rintro ⟨-, hstored⟩
      have hsame := hstored _ (List.mem_singleton_self _)
      rw [Stored, ← viewEvent_bytes, hview] at hsame
      obtain ⟨b, text, rfl⟩ := List.exists_cons_of_ne_nil hne
      have hhead : b = b + 1 := (List.cons.inj (Except.ok.inj hsame)).1
      exact absurd hhead (by simp)

/-- A request is answered from the snapshot, however the writer commits in between, exactly if it is not a
request by id for an event that the snapshot has uncompressed. -/
theorem answersFrom_iff (env : QueryEnv) (fuel : Nat) (st : Store) (request : ReadRequest) :
    AnswersFrom env fuel st request ↔ ¬ env.QuotesUncompressed st request := by
  constructor
  · intro h hquotes
    obtain ⟨reply, w, hout, htxn, -, hnot⟩ := exists_overwritten fuel hquotes st
    exact hnot (h st reply w hout htxn)
  · rintro hquotes db reply w hout rfl
    exact handle_replies env fuel request _ reply w hout trivial hquotes

end Requests

/-- A relay without dictionaries. -/
def noteEnv : QueryEnv where
  S := .insertion
  ord := byteOrder
  hex := hexCodec
  text := emptyObjectText
  zstd := Archive.prefixZstd
  maxEventSize := 65536
  dictionaries := Table.empty
  what := fun _ => ""

/-- The database after a write of the note, and after a write of its deletion. -/
def noteRun : Except Err (Db × Db) := do
  let (db, _) ← (writeEvents .insertion byteOrder hexCodec emptyObjectText {} Db.init
    [{ note with jsonStr := Archive.noteText }]).2
  let (db', _) ← (writeEvents .insertion byteOrder hexCodec emptyObjectText {} db
    [⟨noteDeletion, [], .pending, 0, 0⟩]).2
  .ok (db, db')

/-- The note is asked for by its id, and the deletion is committed before the handler copies it. -/
theorem quoted_note_overwritten : ∃ db db', noteRun = .ok (db, db') ∧
    ∃ reply w, Outcome (noteEnv.exec 0) ReadWorld.Commits
        (noteEnv.handle (.getQuote (some (encodeHex note.packed.id)))) (.start db.toStore) reply w ∧
      w.txn = db.toStore ∧ w.db = db'.toStore ∧ ¬ noteEnv.FromSnapshot db.toStore reply := by
  have heval : (noteRun.map fun r => ((r.1.lookupEventById byteOrder note.packed.id).map Prod.fst,
      r.1.eventPayload.get? 1 == some (0 :: Archive.noteText))) = .ok (some 1, true) := by
    decide +kernel
  obtain ⟨⟨db, db'⟩, hrun, heq⟩ := map_eq_ok.mp heval
  obtain ⟨hlookup, hraw⟩ := Prod.mk.inj heq
  refine ⟨db, db', hrun, exists_overwritten 0 ?_ db'.toStore⟩
  have hhex := decodeHexPrefixed_of_decodeHex _ _ (decodeHex_encodeHex note.packed.id)
  exact ⟨note.packed.id, 1, Archive.noteText, hhex, rfl, hlookup, eq_of_beq hraw, by decide⟩

end QueryEnv

end Strfry
