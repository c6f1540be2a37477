import Strfry.Ingester
import Strfry.StoreInvariants

/-!
# The writer

`runWriter` takes all messages of its inbox at a time, asks the write policy plugin about each
event, writes the accepted ones in one transaction, and answers for each of them. The plugin is a
program of the operator and a parameter. It is asked with the text of the event, which the source
parses once more; the text was made by `to_string`, so this never fails.
-/

set_option autoImplicit false

namespace Strfry

open Lib

/-! ## The write policy -/

/-- `PluginEventSifterResult`. -/
inductive PluginEventSifterResult
  | accept
  | reject
  | shadowReject
  deriving DecidableEq

/-- The two of `EventSourceType` that the writer uses. -/
inductive EventSourceType
  | ip4
  | ip6
  deriving DecidableEq

/-- What a plugin is asked. -/
structure PluginRequest where
  event : Bytes
  sourceType : EventSourceType
  sourceInfo : Bytes

/-- What it answers. -/
structure PluginAnswer where
  result : PluginEventSifterResult
  okMsg : String

/-- `inet_ntop`, and the plugin, if one is configured. Its answer may depend on the number of the
event in the batch, and it may fail. -/
structure WritePolicy where
  inetNtop : Bytes → Bytes
  plugin : Option (Nat → PluginRequest → Except Err PluginAnswer)

/-- `renderIP`. -/
def renderIP (inetNtop : Bytes → Bytes) (ipBytes : Bytes) : Except Err Bytes :=
  if ipBytes.length = 4 ∨ ipBytes.length = 16 then .ok (inetNtop ipBytes)
  else .error (.herr "invalid size of ipBytes, unable to render IP")

/-- `PluginEventSifter::acceptEvent`, with the source type that `runWriter` calls it with. -/
def WritePolicy.acceptEvent (P : WritePolicy) (k : Nat) (jsonStr ipAddr : Bytes) : PluginAnswer :=
  match P.plugin with
  | none => ⟨.accept, ""⟩
  | some ask =>
    let sourceType := if ipAddr.length = 4 then .ip4 else .ip6
    match renderIP P.inetNtop ipAddr >>= fun info => ask k ⟨jsonStr, sourceType, info⟩ with
    | .error _ => ⟨.reject, "error: internal error"⟩
    | .ok a => a

/-! ## A batch -/

/-- The log of a relay: the replies of its threads and the commits of its writer. -/
inductive LogEntry
  | sent (token : Nat) (reply : Reply)
  | commit
  deriving DecidableEq

/-- The connections that are closed in a batch. -/
def closedConns (msgs : List MsgWriter) : List Nat :=
  msgs.filterMap fun
    | .closeConn connId => some connId
    | .addEvent _ => none

/-- The events of a batch that are not from a closed connection. -/
def openEvents (msgs : List MsgWriter) : List AddEvent :=
  msgs.filterMap fun
    | .addEvent msg => if (closedConns msgs).contains msg.connId then none else some msg
    | .closeConn _ => none

/-- `set_value` on the promise of a message, if it has one, and the OK reply. -/
def AddEvent.report (msg : AddEvent) (success : Bool) (promiseMsg : String) (written : Bool)
    (message : String) : List LogEntry :=
  (if msg.resultPromise then
    [.sent msg.token (.setValue ⟨success, promiseMsg, encodeHex msg.packed.id⟩)] else []) ++
  [.sent msg.token (.okResponse msg.connId (encodeHex msg.packed.id) written message)]

/-- The answer to an event that the plugin refuses. -/
def AddEvent.refusal (msg : AddEvent) (a : PluginAnswer) : List LogEntry :=
  msg.report false (if a.okMsg = "" then "blocked by write policy" else a.okMsg)
    (a.result == .shadowReject) a.okMsg

/-- The loop that prepares the messages: the events to write, each with the position of its
message, and the answers to the refused ones. -/
def prepare (P : WritePolicy) : Nat → List AddEvent → List EventToWrite × List LogEntry
  | _, [] => ([], [])
  | k, msg :: rest =>
    let a := P.acceptEvent k msg.jsonStr msg.ipAddr
    let r := prepare P (k + 1) rest
    if a.result = .accept then
      ({ packed := msg.packed, jsonStr := msg.jsonStr, userData := k } :: r.1, r.2)
    else (r.1, msg.refusal a ++ r.2)

/-- How a status is reported: whether the event counts as written, whether it is a success, and
the message. -/
def EventWriteStatus.verdict : EventWriteStatus → Bool × Bool × String
  | .written => (true, true, "")
  | .duplicate => (true, true, "duplicate: have this event")
  | .replaced => (false, false, "replaced: have newer event")
  | .deleted => (false, false, "deleted: user requested deletion")
  | .pending => (false, false, "")

/-- The answers for a list of events, through the messages that their `userData` lead to. -/
def reportAll (adds : List AddEvent) (verdict : EventToWrite → Bool × Bool × String)
    (evs : List EventToWrite) : List LogEntry :=
  evs.flatMap fun ev =>
    match adds[ev.userData]? with
    | none => []
    | some msg => msg.report (verdict ev).2.1 (verdict ev).2.2 (verdict ev).1 (verdict ev).2.2

/-- The answers after the commit. -/
def writeResults (adds : List AddEvent) (evs : List EventToWrite) : List LogEntry :=
  reportAll adds (fun ev => ev.status.verdict) evs

/-- The answers after an exception. -/
def writeErrors (adds : List AddEvent) (e : Err) (evs : List EventToWrite) : List LogEntry :=
  reportAll adds (fun _ => (false, false, "Write error: " ++ e.what)) evs

section Batch

variable (S : StdSort) (ord : IndexOrder) (hex : HexCodec) (text : JsonText)

/-- The transaction of a batch. `txnFails` is an exception of the database itself. -/
def writeTxn (txnFails : Option Err) (cache : NegentropyFilterCache) (db : Db)
    (evs : List EventToWrite) : NegentropyFilterCache × Except Err (Db × List EventToWrite) :=
  match writeEvents S ord hex text cache db evs, txnFails with
  | (cache', .ok _), some e => (cache', .error e)
  | r, _ => r

@[simp] theorem writeTxn_none (cache : NegentropyFilterCache) (db : Db) (evs : List EventToWrite) :
    writeTxn S ord hex text none cache db evs = writeEvents S ord hex text cache db evs := by
  unfold writeTxn
  split
  · rename_i h
    cases h
  · rfl

theorem writeTxn_eq_ok {txnFails : Option Err} {cache cache' : NegentropyFilterCache} {db db' : Db}
    {evs evs' : List EventToWrite}
    (h : writeTxn S ord hex text txnFails cache db evs = (cache', .ok (db', evs'))) :
    txnFails = none ∧ writeEvents S ord hex text cache db evs = (cache', .ok (db', evs')) := by
  cases txnFails with
  | none => exact ⟨rfl, (writeTxn_none S ord hex text cache db evs).symm.trans h⟩
  | some e =>
    unfold writeTxn at h
    split at h
    · cases h
    · rename_i hne
      exact absurd rfl (hne _ _ e h)

/-- The state of the writer: its cache, and the database. -/
structure Writer where
  cache : NegentropyFilterCache := {}
  db : Db

/-- One round of `runWriter`. -/
def runWriter (P : WritePolicy) (txnFails : Option Err) (w : Writer) (msgs : List MsgWriter) :
    Writer × List LogEntry :=
  let adds := openEvents msgs
  match prepare P 0 adds with
  | ([], log) => (w, log)
  | (evs, log) =>
    match writeTxn S ord hex text txnFails w.cache w.db evs with
    | (cache, .error e) =>
      ({ w with cache := cache }, log ++ writeErrors adds e (S.sort EventToWrite.before evs))
    | (cache, .ok (db, evs')) => (⟨cache, db⟩, log ++ .commit :: writeResults adds evs')

end Batch

end Strfry
