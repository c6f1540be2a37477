import Strfry.Dictionaries
import Strfry.Lib.WorkQueue
import Strfry.Negentropy
import Strfry.Writer

/-!
# The bookkeeping of sync

`cmd_sync` reconciles with another relay, uploads the events that the relay lacks, and asks for those that
it lacks itself. `onMessage` is called for each message of the relay. It keeps a queue of events to upload
and one of events to ask for, counts the uploads in flight, and exits when there is nothing left to do.

The relay may send anything. `SyncState.Sound` is what the bookkeeping is for; `sound_of_solicited` proves it
of every run in which the relay sends an OK only for an upload that it has not acknowledged, and no EOSE of
another subscription while a request is outstanding. Nothing is uploaded or requested twice in any run
(`once_of_run`).

What negentropy makes of a message is a parameter of the call, and so are the plugin and the database. The
fields behind `exited` are history.
-/

set_option autoImplicit false

namespace Strfry

open Lib

/-! ## The state -/

/-- What is sent to the relay. -/
inductive SyncMessage
  | event (id : Bytes) (json : Bytes)
  | req (ids : List Bytes)
  | negMsg (neMsg : Bytes)
  | negClose

/-- The options of `cmd_sync`, and the libraries. -/
structure SyncConfig where
  doUp : Bool
  doDown : Bool
  ord : IndexOrder
  hex : HexCodec
  text : JsonText
  zstd : Zstd
  maxEventSize : Nat
  dictionaries : Table Bytes

/-- A call of `onMessage`: the message, what negentropy makes of its payload (the next message, if there is
one, and the ids that only one side has), what the plugin says to an event, and the database. -/
structure SyncCall where
  msgStr : Bytes
  reconcile : Bytes → Except Err (Option Bytes × List Bytes × List Bytes)
  plugin : Json → PluginEventSifterResult
  db : Store

/-- The variables of `cmd_sync`; `have` with `seenHave`, and `need` with `seenNeed`, is a queue. -/
structure SyncState where
  inFlightUp : UInt64 := 0
  inFlightDown : Bool := false
  haveQueue : WorkQueue Bytes := {}
  needQueue : WorkQueue Bytes := {}
  syncDone : Bool := false
  written : List Json := []
  sent : List SyncMessage := []
  /-- The status of `exit`, when it was called. -/
  exited : Option Nat := none
  /-- The ids that the relay lacks, and that it has, as negentropy reported them. -/
  reportedHave : List Bytes := []
  reportedNeed : List Bytes := []
  /-- The ids that were to be uploaded and are not stored any more. -/
  gone : List Bytes := []
  /-- The uploads for which an OK has come. -/
  acknowledged : List Bytes := []
  /-- The requested ids whose EOSE has come, and the others. -/
  answered : List Bytes := []
  outstanding : List Bytes := []

/-- The id in an upload. -/
def SyncMessage.uploadedId : SyncMessage → Option Bytes
  | event id _ => some id
  | _ => none

/-- The ids in a request. -/
def SyncMessage.requestedIds : SyncMessage → List Bytes
  | req ids => ids
  | _ => []

/-- `highWaterUp`, `lowWaterUp` and `batchSizeDown`. -/
def highWaterUp : UInt64 := 100

def lowWaterUp : UInt64 := 50

def batchSizeDown : Nat := 50

namespace SyncState

/-- The ids that were uploaded. -/
def uploaded (s : SyncState) : List Bytes := s.sent.filterMap SyncMessage.uploadedId

/-- The ids that were requested. -/
def requested (s : SyncState) : List Bytes := s.sent.flatMap SyncMessage.requestedIds

/-! ## The messages of the relay -/

/-- The upload that an OK is for: one with its id that has had none. -/
def acknowledgedBy (s : SyncState) (msg : List Json) : Option Bytes :=
  match jsonAt msg 1 with
  | .ok (.string idHex) =>
    s.uploaded.find? fun id => encodeHex id == idHex && !s.acknowledged.contains id
  | _ => none

/-- The EOSE is of the subscription of the requests. -/
def endsRequest (msg : List Json) : Bool :=
  match jsonAt msg 1 with
  | .ok (.string subId) => decide (subId = ascii "R")
  | _ => false

/-- What negentropy makes of a NEG-MSG. -/
def reconcileMsg (cfg : SyncConfig) (call : SyncCall) (msg : List Json) :
    Except Err (Option Bytes × List Bytes × List Bytes) := do
  let payload ← jsonAt msg 2
  let payload ← payload.getString
  let inputMsg ← cfg.hex.fromHexPrefixed payload
  let r ← call.reconcile inputMsg
  if (r.2.1 ++ r.2.2).all fun id => id.length = 32 then .ok r
  else .error (.herr "invalid length for Bytes32")

/-- A NEG-MSG. Its ids are put into the queues, which are cleared if there is nothing to do about them. -/
def onNegMsg (cfg : SyncConfig) (call : SyncCall) (s : SyncState) (msg : List Json) : SyncState :=
  match reconcileMsg cfg call msg with
  | .error _ => { s with exited := some 1 }
  | .ok (neMsg, currHave, currNeed) =>
    let haveQueue := currHave.foldl WorkQueue.report s.haveQueue
    let needQueue := currNeed.foldl WorkQueue.report s.needQueue
    { s with
      haveQueue := if cfg.doUp then haveQueue else haveQueue.clear
      needQueue := if cfg.doDown then needQueue else needQueue.clear
      reportedHave := s.reportedHave ++ currHave
      reportedNeed := s.reportedNeed ++ currNeed
      syncDone := s.syncDone || neMsg.isNone
      sent := s.sent ++ [neMsg.elim .negClose .negMsg] }

/-- An OK. What is wrong with the message shows only after the counter was changed. -/
def onOk (s : SyncState) (msg : List Json) : SyncState :=
  { s with
    inFlightUp := s.inFlightUp - 1
    acknowledged := s.acknowledged ++ (s.acknowledgedBy msg).toList }

/-- An EVENT, which the plugin may refuse. -/
def onEvent (call : SyncCall) (s : SyncState) (msg : List Json) : SyncState :=
  match jsonAt msg 2 with
  | .error _ => s
  | .ok evJson => if call.plugin evJson = .accept then { s with written := s.written ++ [evJson] } else s

/-- An EOSE, whose subscription is not looked at. -/
def onEose (s : SyncState) (msg : List Json) : SyncState :=
  { s with
    inFlightDown := false
    answered := if endsRequest msg then s.answered ++ s.outstanding else s.answered
    outstanding := if endsRequest msg then [] else s.outstanding }

/-- The first part of `onMessage`, in which exceptions are caught. -/
def dispatch (cfg : SyncConfig) (call : SyncCall) (s : SyncState) : SyncState :=
  match cfg.text.fromString call.msgStr with
  | .ok (.array (.string type :: rest)) =>
    let msg := .string type :: rest
    if type = ascii "NEG-MSG" then s.onNegMsg cfg call msg
    else if type = ascii "OK" then s.onOk msg
    else if type = ascii "EVENT" then s.onEvent call msg
    else if type = ascii "EOSE" then s.onEose msg
    else if type = ascii "NEG-ERR" then { s with exited := some 1 }
    else s
  | _ => s

/-! ## The work to do -/

/-- The loop over `have`. An exception of `getEventJson` ends the process. -/
def uploadLoop (cfg : SyncConfig) (db : Store) : List Bytes → SyncState → Option SyncState
  | [], s => some { s with haveQueue := s.haveQueue.clear }
  | id :: rest, s =>
    if s.inFlightUp < highWaterUp then
      match db.lookupEventById cfg.ord id with
      | none => uploadLoop cfg db rest { s with gone := s.gone ++ [id] }
      | some (levId, _) =>
        match db.getEventJson cfg.zstd cfg.maxEventSize cfg.dictionaries levId with
        | .error _ => none
        | .ok json => uploadLoop cfg db rest
          { s with inFlightUp := s.inFlightUp + 1, sent := s.sent ++ [.event id json] }
    else some { s with haveQueue := { s.haveQueue with pending := id :: rest } }

/-- The uploads. -/
def upload (cfg : SyncConfig) (db : Store) (s : SyncState) : Option SyncState :=
  if cfg.doUp ∧ s.haveQueue.pending ≠ [] ∧ s.inFlightUp ≤ lowWaterUp then
    uploadLoop cfg db s.haveQueue.pending s
  else some s

/-- The next request. -/
def request (cfg : SyncConfig) (s : SyncState) : SyncState :=
  if cfg.doDown ∧ s.needQueue.pending ≠ [] ∧ s.inFlightDown = false then
    let ids := s.needQueue.pending.take batchSizeDown
    { s with
      needQueue := s.needQueue.rest batchSizeDown
      sent := s.sent ++ [.req ids]
      inFlightDown := true
      outstanding := s.outstanding ++ ids }
  else s

/-- The check whether all is done. -/
def finish (s : SyncState) : SyncState :=
  if s.syncDone ∧ s.haveQueue.pending = [] ∧ s.needQueue.pending = [] ∧ s.inFlightUp = 0 ∧
      s.inFlightDown = false then { s with exited := some 0 }
  else s

/-- `onMessage`; without a result when an exception ends the process. -/
def onMessage (cfg : SyncConfig) (call : SyncCall) (s : SyncState) : Option SyncState :=
  let s := s.dispatch cfg call
  if s.exited.isSome then some s
  else (s.upload cfg call.db).map fun s => (s.request cfg).finish

/-! ## What a message does -/

section Dispatch

variable {cfg : SyncConfig} {call : SyncCall} {s s' : SyncState}

/-- The message of a call has the type. -/
def HasType (cfg : SyncConfig) (call : SyncCall) (type : String) (msg : List Json) : Prop :=
  cfg.text.fromString call.msgStr = .ok (.array msg) ∧ msg.head? = some (.string (ascii type))

/-- What the first part of `onMessage` can do. -/
inductive Dispatched (cfg : SyncConfig) (call : SyncCall) (s : SyncState) : SyncState → Prop
  | nothing : Dispatched cfg call s s
  | failed : Dispatched cfg call s { s with exited := some 1 }
  | negMsg {msg : List Json} {neMsg : Option Bytes} {currHave currNeed : List Bytes}
      (hreconcile : reconcileMsg cfg call msg = .ok (neMsg, currHave, currNeed)) :
      Dispatched cfg call s (s.onNegMsg cfg call msg)
  | ok {msg : List Json} (htype : HasType cfg call "OK" msg) : Dispatched cfg call s (s.onOk msg)
  | event (evJson : Json) : Dispatched cfg call s { s with written := s.written ++ [evJson] }
  | eose {msg : List Json} (htype : HasType cfg call "EOSE" msg) : Dispatched cfg call s (s.onEose msg)

theorem dispatched (cfg : SyncConfig) (call : SyncCall) (s : SyncState) :
    Dispatched cfg call s (s.dispatch cfg call) := by
  rw [dispatch]
  split
  · rename_i type rest hparse
    by_cases hneg : type = ascii "NEG-MSG"
    · rw [if_pos hneg]
      cases hreconcile : reconcileMsg cfg call (.string type :: rest) with
      | error e =>
        rw [onNegMsg, hreconcile]
        exact .failed
      | ok r => exact .negMsg hreconcile
    · rw [if_neg hneg]
      by_cases hok : type = ascii "OK"
      · rw [if_pos hok]
        exact .ok ⟨hparse, by rw [hok]; rfl⟩
      · rw [if_neg hok]
        by_cases hevent : type = ascii "EVENT"
        · rw [if_pos hevent, onEvent]
          split
          · exact .nothing
          · split
            · exact .event _
            · exact .nothing
        · rw [if_neg hevent]
          by_cases heose : type = ascii "EOSE"
          · rw [if_pos heose]
            exact .eose ⟨hparse, by rw [heose]; rfl⟩
          · rw [if_neg heose]
            split
            · exact .failed
            · exact .nothing
  · exact .nothing

/-- The first part of `onMessage` never exits with status 0. -/
theorem exited_dispatch (h : s.exited = none) : (s.dispatch cfg call).exited ≠ some 0 := by
  have hnone : s.exited ≠ some 0 := by
    rw [h]
    exact nofun
  have hdispatched := dispatched cfg call s
  generalize s.dispatch cfg call = s' at hdispatched ⊢
  cases hdispatched with
  | nothing => exact hnone
  | failed => exact nofun
  | negMsg hreconcile =>
    rw [onNegMsg, hreconcile]
    exact hnone
  | ok => exact hnone
  | event => exact hnone
  | eose => exact hnone

end Dispatch

/-! ## Nothing is uploaded or requested twice -/

section Once

variable {cfg : SyncConfig} {call : SyncCall} {s s' : SyncState}

/-- The queues account for what was uploaded, was not there any more, and was requested. -/
structure Queued (cfg : SyncConfig) (s : SyncState) : Prop where
  up : s.haveQueue.Accounts (s.gone ++ s.uploaded)
  down : s.needQueue.Accounts s.requested
  upCovers : cfg.doUp = true → s.haveQueue.Covers (s.gone ++ s.uploaded)
  downCovers : cfg.doDown = true → s.needQueue.Covers s.requested
  reportedHave : ∀ id ∈ s.reportedHave, id ∈ s.haveQueue.seen
  reportedNeed : ∀ id ∈ s.reportedNeed, id ∈ s.needQueue.seen
  acknowledged : s.acknowledged.Nodup
  acknowledged_uploaded : ∀ id ∈ s.acknowledged, id ∈ s.uploaded

theorem queued_init (cfg : SyncConfig) : Queued cfg {} where
  up := WorkQueue.accounts_empty
  down := WorkQueue.accounts_empty
  upCovers _ := WorkQueue.covers_empty
  downCovers _ := WorkQueue.covers_empty
  reportedHave := nofun
  reportedNeed := nofun
  acknowledged := List.nodup_nil
  acknowledged_uploaded := nofun

theorem mem_acknowledgedBy {msg : List Json} {id : Bytes} (h : s.acknowledgedBy msg = some id) :
    id ∈ s.uploaded ∧ id ∉ s.acknowledged := by
  rw [acknowledgedBy] at h
  split at h
  · have hfound := List.find?_some h
    rw [Bool.and_eq_true, Bool.not_eq_true', List.contains_eq_mem, decide_eq_false_iff_not] at hfound
    exact ⟨List.mem_of_find?_eq_some h, hfound.2⟩
  · cases h

/-- A message that is no event and no request changes neither list. -/
theorem uploaded_onNegMsg {msg : List Json} {neMsg : Option Bytes} {currHave currNeed : List Bytes}
    (h : reconcileMsg cfg call msg = .ok (neMsg, currHave, currNeed)) :
    (s.onNegMsg cfg call msg).uploaded = s.uploaded ∧ (s.onNegMsg cfg call msg).requested = s.requested := by
  rw [onNegMsg, h]
  simp only [uploaded, requested, List.filterMap_append, List.flatMap_append]
  cases neMsg with
  | none => exact ⟨List.append_nil _, List.append_nil _⟩
  | some m => exact ⟨List.append_nil _, List.append_nil _⟩

theorem Queued.onNegMsg (hq : Queued cfg s) {msg : List Json} {neMsg : Option Bytes}
    {currHave currNeed : List Bytes} (h : reconcileMsg cfg call msg = .ok (neMsg, currHave, currNeed)) :
    Queued cfg (s.onNegMsg cfg call msg) := by
  obtain ⟨huploaded, hrequested⟩ := @uploaded_onNegMsg cfg call s _ _ _ _ h
  -- what is reported is seen, even if the queue is cleared because the direction is off
  have hmem : ∀ {q : WorkQueue Bytes} {reported curr : List Bytes} (c : Bool),
      (∀ id ∈ reported, id ∈ q.seen) → ∀ id ∈ reported ++ curr,
        id ∈ (if c then curr.foldl WorkQueue.report q else (curr.foldl WorkQueue.report q).clear).seen := by
    intro q reported curr c hreported id hid
    have hseen : id ∈ (curr.foldl WorkQueue.report q).seen := by
      rw [WorkQueue.mem_seen_reports]
      rcases List.mem_append.mp hid with hid | hid
      · exact .inr (hreported id hid)
      · exact .inl hid
    cases c with
    | true => exact hseen
    | false => exact hseen
  have haccounts : ∀ {q : WorkQueue Bytes} {taken curr : List Bytes} (c : Bool), q.Accounts taken →
      (if c then curr.foldl WorkQueue.report q else (curr.foldl WorkQueue.report q).clear).Accounts taken := by
    intro q taken curr c hq
    cases c with
    | true => exact hq.reports curr
    | false => exact (hq.reports curr).clear
  refine ⟨?_, ?_, ?_, ?_, ?_, ?_, ?_, ?_⟩
  · rw [huploaded]
    simp only [SyncState.onNegMsg, h]
    exact haccounts cfg.doUp hq.up
  · rw [hrequested]
    simp only [SyncState.onNegMsg, h]
    exact haccounts cfg.doDown hq.down
  · intro hdo
    rw [huploaded]
    simp only [SyncState.onNegMsg, h, hdo, if_true]
    exact (hq.upCovers hdo).reports currHave
  · intro hdo
    rw [hrequested]
    simp only [SyncState.onNegMsg, h, hdo, if_true]
    exact (hq.downCovers hdo).reports currNeed
  · simp only [SyncState.onNegMsg, h]
    exact hmem cfg.doUp hq.reportedHave
  · simp only [SyncState.onNegMsg, h]
    exact hmem cfg.doDown hq.reportedNeed
  · simp only [SyncState.onNegMsg, h]
    exact hq.acknowledged
  · rw [huploaded]
    simp only [SyncState.onNegMsg, h]
    exact hq.acknowledged_uploaded

theorem Queued.onOk (hq : Queued cfg s) (msg : List Json) : Queued cfg (s.onOk msg) := by
  refine { hq with acknowledged := ?_, acknowledged_uploaded := ?_ }
  · rw [SyncState.onOk]
    cases hack : s.acknowledgedBy msg with
    | none =>
      rw [Option.toList_none, List.append_nil]
      exact hq.acknowledged
    | some id =>
      rw [Option.toList_some]
      exact List.nodup_append.mpr ⟨hq.acknowledged, List.nodup_singleton id, by
        rintro a ha b hb rfl
        rw [List.mem_singleton.mp hb] at ha
        exact (mem_acknowledgedBy hack).2 ha⟩
  · rw [SyncState.onOk]
    intro id hid
    rcases List.mem_append.mp hid with hid | hid
    · exact hq.acknowledged_uploaded id hid
    · exact (mem_acknowledgedBy (Option.mem_toList.mp hid)).1

theorem Queued.dispatch (hq : Queued cfg s) (call : SyncCall) : Queued cfg (s.dispatch cfg call) := by
  have hdispatched := dispatched cfg call s
  generalize s.dispatch cfg call = s' at hdispatched ⊢
  cases hdispatched with
  | nothing => exact hq
  | failed => exact { hq with }
  | negMsg hreconcile => exact hq.onNegMsg hreconcile
  | ok => exact hq.onOk _
  | event => exact { hq with }
  | eose => exact { hq with }

/-- The head of a queue is taken, and counted somewhere among what was taken. -/
theorem accounts_tail {seen rest taken taken' : List Bytes} {id : Bytes}
    (h : (WorkQueue.mk seen (id :: rest)).Accounts taken) (hp : (taken ++ [id]).Perm taken') :
    (WorkQueue.mk seen rest).Accounts taken' := (h.take 1).perm hp

theorem covers_tail {seen rest taken taken' : List Bytes} {id : Bytes}
    (h : (WorkQueue.mk seen (id :: rest)).Covers taken) (hp : (taken ++ [id]).Perm taken') :
    (WorkQueue.mk seen rest).Covers taken' := (h.take 1).perm hp

theorem uploaded_send (id json : Bytes) :
    ({ s with sent := s.sent ++ [.event id json] } : SyncState).uploaded = s.uploaded ++ [id] := by
  rw [uploaded, List.filterMap_append]
  rfl

theorem requested_send (id json : Bytes) :
    ({ s with sent := s.sent ++ [.event id json] } : SyncState).requested = s.requested := by
  rw [requested, List.flatMap_append]
  exact List.append_nil _

/-- The state in which the loop over `have` has the ids still before it. -/
def pendingUp (s : SyncState) (ids : List Bytes) : SyncState :=
  { s with haveQueue := { s.haveQueue with pending := ids } }

/-- An id that is not stored any more is given up. -/
theorem Queued.skip {id : Bytes} {rest : List Bytes} (hq : Queued cfg (s.pendingUp (id :: rest))) :
    Queued cfg (({ s with gone := s.gone ++ [id] } : SyncState).pendingUp rest) := by
  have hperm : ((s.gone ++ s.uploaded) ++ [id]).Perm ((s.gone ++ [id]) ++ s.uploaded) := by
    rw [List.append_assoc, List.append_assoc]
    exact List.perm_append_comm.append_left _
  exact { hq with
    up := accounts_tail hq.up hperm
    upCovers := fun hdo => covers_tail (hq.upCovers hdo) hperm }

/-- An event is uploaded. -/
theorem Queued.send {id json : Bytes} {rest : List Bytes} (hq : Queued cfg (s.pendingUp (id :: rest))) :
    Queued cfg (({ s with
      inFlightUp := s.inFlightUp + 1
      sent := s.sent ++ [.event id json] } : SyncState).pendingUp rest) := by
  have huploaded := @uploaded_send s id json
  have hrequested := @requested_send s id json
  have hperm : ((s.gone ++ s.uploaded) ++ [id]).Perm
      (s.gone ++ ({ s with sent := s.sent ++ [.event id json] } : SyncState).uploaded) := by
    rw [huploaded, List.append_assoc]
  refine { hq with
    up := accounts_tail hq.up hperm
    upCovers := fun hdo => covers_tail (hq.upCovers hdo) hperm
    down := ?_
    downCovers := ?_
    acknowledged_uploaded := ?_ }
  · have hdown := hq.down
    rwa [show (s.pendingUp (id :: rest)).requested = s.requested from rfl, ← hrequested] at hdown
  · intro hdo
    have hcovers := hq.downCovers hdo
    rwa [show (s.pendingUp (id :: rest)).requested = s.requested from rfl, ← hrequested] at hcovers
  · intro other hother
    have hmem : other ∈ s.uploaded ++ [id] := List.mem_append_left _ (hq.acknowledged_uploaded other hother)
    rwa [← huploaded] at hmem

theorem Queued.uploadLoop {db : Store} {ids : List Bytes} (hq : Queued cfg (s.pendingUp ids))
    (h : uploadLoop cfg db ids s = some s') : Queued cfg s' := by
  induction ids generalizing s with
  | nil =>
    cases h
    exact hq
  | cons id rest ih =>
    rw [SyncState.uploadLoop] at h
    split at h
    · split at h
      · exact ih hq.skip h
      · split at h
        · cases h
        · exact ih hq.send h
    · cases h
      exact hq

theorem Queued.upload {db : Store} (hq : Queued cfg s) (h : s.upload cfg db = some s') : Queued cfg s' := by
  rw [SyncState.upload] at h
  split at h
  · exact hq.uploadLoop h
  · cases h
    exact hq

theorem Queued.request (hq : Queued cfg s) : Queued cfg (s.request cfg) := by
  rw [SyncState.request]
  split
  · have hrequested : ∀ ids, ({ s with sent := s.sent ++ [.req ids] } : SyncState).requested =
        s.requested ++ ids := by
      intro ids
      rw [requested, List.flatMap_append]
      exact congrArg _ (List.append_nil ids)
    have huploaded : ∀ ids, ({ s with sent := s.sent ++ [.req ids] } : SyncState).uploaded = s.uploaded := by
      intro ids
      rw [uploaded, List.filterMap_append]
      exact List.append_nil _
    refine { hq with
      up := ?_
      down := ?_
      upCovers := ?_
      downCovers := ?_
      acknowledged_uploaded := ?_ }
    · have hup := hq.up
      rwa [← huploaded] at hup
    · have hdown := hq.down.take batchSizeDown
      rwa [← hrequested] at hdown
    · intro hdo
      have hcovers := hq.upCovers hdo
      rwa [← huploaded] at hcovers
    · intro hdo
      have hcovers := (hq.downCovers hdo).take batchSizeDown
      rwa [← hrequested] at hcovers
    · have hack := hq.acknowledged_uploaded
      rwa [← huploaded] at hack
  · exact hq

theorem Queued.finish (hq : Queued cfg s) : Queued cfg s.finish := by
  rw [SyncState.finish]
  split
  · exact { hq with }
  · exact hq

/-- No message makes the queues lose count, whatever it is. -/
theorem Queued.onMessage (hq : Queued cfg s) (h : s.onMessage cfg call = some s') : Queued cfg s' := by
  rw [SyncState.onMessage] at h
  split at h
  · cases h
    exact hq.dispatch call
  · obtain ⟨s₁, hupload, rfl⟩ := Option.map_eq_some_iff.mp h
    exact ((hq.dispatch call).upload hupload).request.finish

end Once

/-! ## What is asked of the relay -/

section Solicited

variable {cfg : SyncConfig} {call : SyncCall} {s s' : SyncState}

/-- An OK is for an upload that has had none, and an EOSE that comes while a request is outstanding is of its
subscription. -/
structure Solicited (cfg : SyncConfig) (call : SyncCall) (s : SyncState) : Prop where
  ok : ∀ msg, HasType cfg call "OK" msg → (s.acknowledgedBy msg).isSome = true
  eose : ∀ msg, HasType cfg call "EOSE" msg → s.inFlightDown = true → endsRequest msg = true

/-- The counter and the flag say what is in flight. -/
structure Counted (s : SyncState) : Prop where
  inFlightUp : s.inFlightUp.toNat + s.acknowledged.length = s.uploaded.length
  highWater : s.inFlightUp.toNat ≤ highWaterUp.toNat
  asked : ∀ id ∈ s.requested, id ∈ s.answered ∨ id ∈ s.outstanding
  idle : s.inFlightDown = false → s.outstanding = []

theorem counted_init : Counted {} where
  inFlightUp := rfl
  highWater := Nat.zero_le _
  asked := nofun
  idle _ := rfl

theorem Counted.onOk (hc : Counted s) (hq : Queued cfg s) {msg : List Json}
    (hack : (s.acknowledgedBy msg).isSome = true) : Counted (s.onOk msg) := by
  obtain ⟨id, hid⟩ := Option.isSome_iff_exists.mp hack
  obtain ⟨huploaded, hnew⟩ := mem_acknowledgedBy hid
  -- not every upload has been acknowledged, so the counter is not zero
  have hlt : s.acknowledged.length < s.uploaded.length := by
    have hsubset : s.acknowledged ⊆ s.uploaded.erase id := by
      intro other hother
      have hne : other ≠ id := by
        rintro rfl
        exact hnew hother
      exact (List.mem_erase_of_ne hne).mpr (hq.acknowledged_uploaded other hother)
    have hle := (hq.acknowledged.subperm hsubset).length_le
    rw [List.length_erase_of_mem huploaded] at hle
    have hpos := List.length_pos_of_mem huploaded
    omega
  have hcount := hc.inFlightUp
  have hone : (1 : UInt64) ≤ s.inFlightUp := by
    rw [UInt64.le_iff_toNat_le]
    show 1 ≤ s.inFlightUp.toNat
    omega
  have htoNat : (s.inFlightUp - 1).toNat = s.inFlightUp.toNat - 1 := UInt64.toNat_sub_of_le _ _ hone
  refine { hc with inFlightUp := ?_, highWater := ?_ }
  · show (s.inFlightUp - 1).toNat + (s.acknowledged ++ (s.acknowledgedBy msg).toList).length = s.uploaded.length
    rw [htoNat, hid, Option.toList_some, List.length_append, List.length_singleton]
    omega
  · show (s.inFlightUp - 1).toNat ≤ highWaterUp.toNat
    rw [htoNat]
    have hhigh := hc.highWater
    omega

theorem Counted.onEose (hc : Counted s) {msg : List Json}
    (hends : s.inFlightDown = true → endsRequest msg = true) : Counted (s.onEose msg) := by
  by_cases hmsg : endsRequest msg = true
  · refine { hc with asked := ?_, idle := ?_ }
    · intro id hid
      rw [SyncState.onEose]
      simp only [hmsg, if_true]
      exact .inl (List.mem_append.mpr (hc.asked id hid))
    · intro _
      rw [SyncState.onEose]
      simp only [hmsg, if_true]
  · -- an EOSE of something else finds no request outstanding
    have hidle : s.inFlightDown = false := by
      cases hflag : s.inFlightDown with
      | false => rfl
      | true => exact absurd (hends hflag) hmsg
    refine { hc with asked := ?_, idle := ?_ }
    · intro id hid
      rw [SyncState.onEose]
      simp only [hmsg]
      exact hc.asked id hid
    · intro _
      rw [SyncState.onEose]
      simp only [hmsg]
      exact hc.idle hidle

theorem Counted.dispatch (hc : Counted s) (hq : Queued cfg s) (hsol : Solicited cfg call s) :
    Counted (s.dispatch cfg call) := by
  have hdispatched := dispatched cfg call s
  generalize s.dispatch cfg call = s' at hdispatched ⊢
  cases hdispatched with
  | nothing => exact hc
  | failed => exact { hc with }
  | negMsg hreconcile =>
    obtain ⟨huploaded, hrequested⟩ := @uploaded_onNegMsg cfg call s _ _ _ _ hreconcile
    refine ⟨?_, ?_, ?_, ?_⟩
    · rw [huploaded]
      simp only [onNegMsg, hreconcile]
      exact hc.inFlightUp
    · simp only [onNegMsg, hreconcile]
      exact hc.highWater
    · rw [hrequested]
      simp only [onNegMsg, hreconcile]
      exact hc.asked
    · simp only [onNegMsg, hreconcile]
      exact hc.idle
  | ok htype => exact hc.onOk hq (hsol.ok _ htype)
  | event => exact { hc with }
  | eose htype => exact hc.onEose (hsol.eose _ htype)

/-- An upload is counted, and stops at the mark. -/
theorem Counted.send (hc : Counted s) (hlt : s.inFlightUp < highWaterUp) (id json : Bytes) :
    Counted { s with inFlightUp := s.inFlightUp + 1, sent := s.sent ++ [.event id json] } := by
  have huploaded := @uploaded_send s id json
  have hrequested := @requested_send s id json
  have hbelow : s.inFlightUp.toNat < 100 := UInt64.lt_iff_toNat_lt.mp hlt
  have htoNat : (s.inFlightUp + 1).toNat = s.inFlightUp.toNat + 1 := by
    rw [UInt64.toNat_add]
    show (s.inFlightUp.toNat + 1) % 2 ^ 64 = _
    omega
  refine { hc with inFlightUp := ?_, highWater := ?_, asked := ?_ }
  · have hcount := congrArg List.length huploaded
    rw [List.length_append, List.length_singleton, ← hc.inFlightUp] at hcount
    show (s.inFlightUp + 1).toNat + s.acknowledged.length = List.length _
    rw [htoNat]
    exact (Nat.add_right_comm _ _ _).trans hcount.symm
  · show (s.inFlightUp + 1).toNat ≤ highWaterUp.toNat
    rw [htoNat]
    exact hbelow
  · have hasked := hc.asked
    rwa [← hrequested] at hasked

theorem Counted.uploadLoop {db : Store} {ids : List Bytes} (hc : Counted s)
    (h : uploadLoop cfg db ids s = some s') : Counted s' := by
  induction ids generalizing s with
  | nil =>
    cases h
    exact { hc with }
  | cons id rest ih =>
    rw [SyncState.uploadLoop] at h
    split at h
    · rename_i hlt
      split at h
      · refine ih ?_ h
        exact { hc with }
      · split at h
        · cases h
        · exact ih (hc.send hlt _ _) h
    · cases h
      exact { hc with }

theorem Counted.upload {db : Store} (hc : Counted s) (h : s.upload cfg db = some s') : Counted s' := by
  rw [SyncState.upload] at h
  split at h
  · exact hc.uploadLoop h
  · cases h
    exact hc

theorem Counted.request (hc : Counted s) : Counted (s.request cfg) := by
  rw [SyncState.request]
  split
  · refine ⟨?_, hc.highWater, ?_, nofun⟩
    · rw [hc.inFlightUp, uploaded, uploaded, List.filterMap_append]
      exact congrArg _ (List.append_nil _).symm
    · intro id hid
      rw [requested, List.flatMap_append] at hid
      rcases List.mem_append.mp hid with hid | hid
      · rcases hc.asked id hid with hanswered | houtstanding
        · exact .inl hanswered
        · exact .inr (List.mem_append_left _ houtstanding)
      · rw [List.flatMap_singleton] at hid
        exact .inr (List.mem_append_right _ hid)
  · exact hc

theorem Counted.finish (hc : Counted s) : Counted s.finish := by
  rw [SyncState.finish]
  split
  · exact { hc with }
  · exact hc

theorem Counted.onMessage (hc : Counted s) (hq : Queued cfg s) (hsol : Solicited cfg call s)
    (h : s.onMessage cfg call = some s') : Counted s' := by
  rw [SyncState.onMessage] at h
  split at h
  · cases h
    exact hc.dispatch hq hsol
  · obtain ⟨s₁, hupload, rfl⟩ := Option.map_eq_some_iff.mp h
    exact ((hc.dispatch hq hsol).upload hupload).request.finish

end Solicited

/-! ## Runs -/

section Runs

variable {cfg : SyncConfig} {call : SyncCall} {s s' : SyncState}

/-- A message is handled while the process runs. -/
inductive SyncStep (cfg : SyncConfig) (allowed : SyncCall → SyncState → Prop) : SyncState → SyncState → Prop
  | message {s s' : SyncState} {call : SyncCall} (hruns : s.exited = none) (hallowed : allowed call s)
      (hcall : s.onMessage cfg call = some s') : SyncStep cfg allowed s s'

/-- All that there was to do is done. -/
structure Complete (cfg : SyncConfig) (s : SyncState) : Prop where
  reconciled : s.syncDone = true
  up : cfg.doUp = true → ∀ id ∈ s.reportedHave, id ∈ s.gone ∨ (id ∈ s.uploaded ∧ id ∈ s.acknowledged)
  down : cfg.doDown = true → ∀ id ∈ s.reportedNeed, id ∈ s.requested ∧ id ∈ s.answered

/-- What the bookkeeping is for: the counter is the number of uploads without an OK, nothing is uploaded or
requested twice, and the process exits with status 0 only when all is done. -/
structure Sound (cfg : SyncConfig) (s : SyncState) : Prop where
  acknowledged : s.acknowledged.length ≤ s.uploaded.length
  inFlightUp : s.inFlightUp.toNat = s.uploaded.length - s.acknowledged.length
  uploadedOnce : s.uploaded.Nodup
  requestedOnce : s.requested.Nodup
  complete : s.exited = some 0 → Complete cfg s

/-- The process has exited with status 0 only if it has found nothing left to do. -/
def ExitsIdle (s : SyncState) : Prop :=
  s.exited = some 0 → s.syncDone = true ∧ s.haveQueue.pending = [] ∧ s.needQueue.pending = [] ∧
    s.inFlightUp = 0 ∧ s.inFlightDown = false

theorem exited_uploadLoop {db : Store} {ids : List Bytes} (h : uploadLoop cfg db ids s = some s') :
    s'.exited = s.exited := by
  induction ids generalizing s with
  | nil =>
    cases h
    rfl
  | cons id rest ih =>
    rw [uploadLoop] at h
    split at h
    · split at h
      · have hrest := ih h
        exact hrest
      · split at h
        · cases h
        · have hrest := ih h
          exact hrest
    · cases h
      rfl

theorem exitsIdle_onMessage (hruns : s.exited = none) (h : s.onMessage cfg call = some s') : ExitsIdle s' := by
  have hdispatch := @exited_dispatch cfg call s hruns
  rw [onMessage] at h
  split at h
  · cases h
    exact fun hexit => absurd hexit hdispatch
  · rename_i hnone
    obtain ⟨s₁, hupload, rfl⟩ := Option.map_eq_some_iff.mp h
    have hexited : (s₁.request cfg).exited ≠ some 0 := by
      have hupload' : s₁.exited = (s.dispatch cfg call).exited := by
        rw [upload] at hupload
        split at hupload
        · exact exited_uploadLoop hupload
        · cases hupload
          rfl
      rw [request]
      split
      · exact hupload' ▸ hdispatch
      · exact hupload' ▸ hdispatch
    intro hexit
    rw [finish] at hexit ⊢
    split
    · rename_i hidle
      exact hidle
    · rename_i hbusy
      rw [if_neg hbusy] at hexit
      exact absurd hexit hexited

/-- Nothing is lost from the queues in a run, and the exit is no surprise. -/
theorem queued_of_run {allowed : SyncCall → SyncState → Prop}
    (h : Relation.ReflTransGen (SyncStep cfg allowed) {} s) : Queued cfg s ∧ ExitsIdle s := by
  induction h with
  | refl => exact ⟨queued_init cfg, nofun⟩
  | tail _ hstep ih =>
    cases hstep with
    | message hruns _ hcall => exact ⟨ih.1.onMessage hcall, exitsIdle_onMessage hruns hcall⟩

/-- Whatever the relay sends, nothing is uploaded or requested twice. -/
theorem once_of_run {allowed : SyncCall → SyncState → Prop}
    (h : Relation.ReflTransGen (SyncStep cfg allowed) {} s) : s.uploaded.Nodup ∧ s.requested.Nodup := by
  obtain ⟨hq, -⟩ := queued_of_run h
  exact ⟨hq.up.nodup_taken.of_append_right, hq.down.nodup_taken⟩

theorem counted_of_run (h : Relation.ReflTransGen (SyncStep cfg (Solicited cfg)) {} s) : Counted s := by
  induction h with
  | refl => exact counted_init
  | tail hrun hstep ih =>
    cases hstep with
    | message _ hsol hcall => exact ih.onMessage (queued_of_run hrun).1 hsol hcall

theorem complete_of_idle (hq : Queued cfg s) (hc : Counted s) (hidle : ExitsIdle s) (hexit : s.exited = some 0) :
    Complete cfg s := by
  obtain ⟨hdone, hhave, hneed, hup, hdown⟩ := hidle hexit
  have hall : s.acknowledged.Perm s.uploaded := by
    -- as many OKs as uploads, and none for anything else
    have hcount := hc.inFlightUp
    rw [hup] at hcount
    apply (hq.acknowledged.subperm hq.acknowledged_uploaded).perm_of_length_le
    rw [← hcount]
    exact (Nat.zero_add _).le
  refine ⟨hdone, ?_, ?_⟩
  · intro hdo id hid
    have htaken := hq.upCovers hdo id (hq.reportedHave id hid)
    rw [hhave, List.nil_append] at htaken
    rcases List.mem_append.mp htaken with hgone | huploaded
    · exact .inl hgone
    · exact .inr ⟨huploaded, hall.mem_iff.mpr huploaded⟩
  · intro hdo id hid
    have htaken := hq.downCovers hdo id (hq.reportedNeed id hid)
    rw [hneed, List.nil_append] at htaken
    refine ⟨htaken, ?_⟩
    rcases hc.asked id htaken with hanswered | houtstanding
    · exact hanswered
    · rw [hc.idle hdown] at houtstanding
      cases houtstanding

/-- The bookkeeping is sound in every state of a run in which every OK and every EOSE is solicited. -/
theorem sound_of_solicited (h : Relation.ReflTransGen (SyncStep cfg (Solicited cfg)) {} s) : Sound cfg s := by
  have hc := counted_of_run h
  obtain ⟨hq, hidle⟩ := queued_of_run h
  obtain ⟨huploaded, hrequested⟩ := once_of_run h
  have hcount := hc.inFlightUp
  exact ⟨by omega, by omega, huploaded, hrequested, complete_of_idle hq hc hidle⟩

end Runs

/-! ## Two runs -/

/-- A NEG-MSG, and an OK for the note. -/
def sampleNegMsg : List Json := [.string (ascii "NEG-MSG"), .string (ascii "N"), .string []]

def sampleOk : List Json :=
  [.string (ascii "OK"), .string (encodeHex note.packed.id), .boolean true, .string []]

def sampleNegMsgText : Bytes := ascii "[\"NEG-MSG\",\"N\",\"\"]"

def sampleOkText : Bytes := ascii "[\"OK\",\"" ++ encodeHex note.packed.id ++ ascii "\",true,\"\"]"

/-- A parser that knows these messages. -/
def sampleText : JsonText where
  fromString s := if s = sampleNegMsgText then .ok (.array sampleNegMsg)
    else if s = sampleOkText then .ok (.array sampleOk) else .error .badJson
  toString := Json.print

def sampleConfig : SyncConfig where
  doUp := true
  doDown := true
  ord := byteOrder
  hex := hexCodec
  text := sampleText
  zstd := ⟨fun _ _ _ src => .ok src, fun _ _ src => .ok src⟩
  maxEventSize := 65536
  dictionaries := Table.empty

/-- A call with the note in the database, when negentropy reports that the relay lacks it. -/
def sampleCall (msgStr : Bytes) : SyncCall where
  msgStr := msgStr
  reconcile _ := .ok (none, [note.packed.id], [])
  plugin _ := .accept
  db := (Store.empty.insertEvent note.packed (ascii "\x7b\x7d")).2

/-- The note is uploaded and acknowledged, and the process exits. -/
theorem sound_of_solicited_note : ∃ s, s.exited = some 0 ∧ s.uploaded = [note.packed.id] ∧
    Sound sampleConfig s := by
  have heval : ((onMessage sampleConfig (sampleCall sampleNegMsgText) {}).bind fun s₁ =>
      (onMessage sampleConfig (sampleCall sampleOkText) s₁).map fun s =>
        (s₁.exited, (s₁.acknowledgedBy sampleOk).isSome, s.exited, s.uploaded)) =
      some (none, true, some 0, [note.packed.id]) := by
    decide +kernel
  obtain ⟨s₁, hfirst, heval⟩ := Option.bind_eq_some_iff.mp heval
  obtain ⟨s, hsecond, heval⟩ := Option.map_eq_some_iff.mp heval
  simp only [Prod.mk.injEq] at heval
  obtain ⟨hruns, hack, hexit, huploaded⟩ := heval
  have hsol₁ : Solicited sampleConfig (sampleCall sampleNegMsgText) {} := by
    constructor
    · rintro msg ⟨hparse, htype⟩
      cases (Json.array.inj (Except.ok.inj hparse))
      exact absurd (Json.string.inj (Option.some.inj htype)) (by decide)
    · rintro msg - ⟨⟩
  have hsol₂ : Solicited sampleConfig (sampleCall sampleOkText) s₁ := by
    constructor
    · rintro msg ⟨hparse, -⟩
      cases (Json.array.inj (Except.ok.inj hparse))
      exact hack
    · rintro msg ⟨hparse, htype⟩
      cases (Json.array.inj (Except.ok.inj hparse))
      exact absurd (Json.string.inj (Option.some.inj htype)) (by decide)
  refine ⟨s, hexit, huploaded, sound_of_solicited ?_⟩
  exact (Relation.ReflTransGen.single (.message rfl hsol₁ hfirst)).tail (.message hruns hsol₂ hsecond)

/-- An OK that nobody has asked for, as the first message: the counter wraps around. -/
theorem unsolicited_ok_wraps : ∃ s,
    Relation.ReflTransGen (SyncStep sampleConfig fun _ _ => True) {} s ∧ s.uploaded = [] ∧
      s.inFlightUp.toNat = 2 ^ 64 - 1 ∧ ¬ Sound sampleConfig s := by
  have heval : ((onMessage sampleConfig (sampleCall sampleOkText) {}).map fun s =>
      (s.uploaded, s.inFlightUp.toNat)) = some ([], 2 ^ 64 - 1) := by
    decide +kernel
  obtain ⟨s, hcall, heval⟩ := Option.map_eq_some_iff.mp heval
  obtain ⟨huploaded, hinFlight⟩ := Prod.mk.inj heval
  refine ⟨s, .single (.message rfl trivial hcall), huploaded, hinFlight, fun hsound => ?_⟩
  have hcount := hsound.inFlightUp
  rw [huploaded, hinFlight] at hcount
  exact absurd hcount (by simp)

end SyncState

end Strfry
