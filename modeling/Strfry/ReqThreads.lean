import Strfry.QueryScheduler
import Strfry.LiveDelivery
import Strfry.Ingester
import Strfry.StoreInvariants

/-!
# The threads behind a subscription

A REQ goes through three thread pools. An ingester thread parses it, a worker thread runs its query
and sends EOSE, and a monitor thread then sends the events that were written in the meantime and
keeps the subscription installed. CLOSE and disconnect take the same way. Every pool dispatches by
the connection, so that one connection always meets the same thread of a pool.

`Relay` is the state of the threads and the database, and `Relay.Step` one step of any of them: a
thread takes the messages of its inbox and opens a transaction, handles one message, or runs a time
slice. What the threads send is kept in a log. An exception that leaves a thread, and undefined
behaviour, is a step that does not exist.

Client messages are numbered in the order in which they come in. The number of a message is kept
beside it on its way, as a history variable.
-/

set_option autoImplicit false

namespace Strfry

open Lib

/-! ## Messages -/

/-- `MsgReqWorker`, with the number of the client message. -/
inductive MsgReqWorker
  | newSub (serial : Nat) (sub : Subscription)
  | removeSub (serial connId : Nat) (subId : SubId)
  | closeConn (serial connId : Nat)

/-- `MsgReqMonitor`, with the number of the client message. -/
inductive MsgReqMonitor
  | newSub (serial : Nat) (sub : Subscription)
  | removeSub (serial connId : Nat) (subId : SubId)
  | closeConn (serial connId : Nat)
  | dbChange

/-- The connection that a message is dispatched by. -/
def MsgIngester.connId : MsgIngester → Nat
  | .clientMessage msg => msg.connId
  | .closeConn connId => connId

/-- The connection that a message is dispatched by. -/
def MsgReqWorker.connId : MsgReqWorker → Nat
  | .newSub _ sub => sub.connId
  | .removeSub _ connId _ => connId
  | .closeConn _ connId => connId

/-- Where in the life of a subscription an event is sent. -/
inductive Phase
  | query
  | catchUp
  | live
  deriving DecidableEq

/-- What a thread sends to a connection. An event comes with its row in the transaction of the
thread. -/
inductive Output
  | event (phase : Phase) (connId : Nat) (subId : SubId) (levId : Nat) (ev : Option PackedEvent)
  | eose (serial connId : Nat) (subId : SubId)
  | noticeError (connId : Nat) (message : String)
  deriving DecidableEq

/-- The libraries and the settings. -/
structure RelayConfig where
  S : StdSort
  ord : IndexOrder
  hex : HexCodec
  text : JsonText
  numIngester : Nat
  numReqWorker : Nat
  numReqMonitor : Nat
  maxSubsPerConnection : Nat
  maxReqFilterSize : Nat
  maxFilterLimit : Nat

/-! ## The ingester -/

section Ingester

variable (cfg : RelayConfig)

/-- `ingesterProcessReq`. -/
def ingesterProcessReq (serial connId : Nat) (arr : List Json) : Except Err MsgReqWorker :=
  if arr.length < 2 + 1 then .error (.herr "arr too small")
  else if arr.length > 2 + cfg.maxReqFilterSize then .error (.herr "arr too big")
  else do
    let subId ← jsonGetString (arr.getD 1 .null) "REQ subscription id was not a string"
    let filterGroup ← NostrFilterGroup.ofReq cfg.hex (.array arr) cfg.maxFilterLimit
    let subId ← SubId.make subId
    .ok (.newSub serial { connId := connId, subId := subId, filterGroup := filterGroup })

/-- `ingesterProcessClose`. -/
def ingesterProcessClose (serial connId : Nat) (arr : List Json) : Except Err MsgReqWorker :=
  if arr.length ≠ 2 then .error (.herr "arr too small/big")
  else do
    let subId ← jsonGetString (arr.getD 1 .null) "CLOSE subscription id was not a string"
    let subId ← SubId.make subId
    .ok (.removeSub serial connId subId)

/-- The handler around a command. -/
def forwardOr (connId : Nat) (label : String) :
    Except Err MsgReqWorker → List Output × Option MsgReqWorker
  | .ok msg => ([], some msg)
  | .error e => ([.noticeError connId (label ++ e.what)], none)

/-- What `runIngester` makes of a message, as far as it concerns subscriptions. The other commands,
and messages that are not commands, are in the model of the ingester. -/
def ingesterForward (serial : Nat) : MsgIngester → List Output × Option MsgReqWorker
  | .closeConn connId => ([], some (.closeConn serial connId))
  | .clientMessage msg =>
    if msg.payload.head? = some 91 then
      match cfg.text.fromString msg.payload with
      | .ok (.array (.string cmd :: second :: rest)) =>
        let arr := .string cmd :: second :: rest
        if cmd = ascii "REQ" then
          forwardOr msg.connId "bad req: " (ingesterProcessReq cfg serial msg.connId arr)
        else if cmd = ascii "CLOSE" then
          forwardOr msg.connId "bad close: " (ingesterProcessClose serial msg.connId arr)
        else ([], none)
      | _ => ([], none)
    else ([], none)

end Ingester

/-! ## The worker -/

/-- What a worker thread has done: its queries afterwards, what it has sent, and the message it has
dispatched to the monitor threads. -/
structure WorkerStep where
  queries : QueryScheduler
  sent : List Output := []
  dispatched : Option (Nat × MsgReqMonitor) := none

section Worker

variable (cfg : RelayConfig) (txn : Store)

/-- The events that `onEvent` sends in a time slice. -/
def sliceEvents (slice : Slice) : List Output :=
  slice.levIds.map fun levId =>
    .event .query slice.sub.connId slice.sub.subId levId (txn.event.get? levId)

/-- `queries.process` with the callbacks `onEvent` and `onComplete` of `runReqWorker`. -/
def workerProcess (n : Nat) (queries : QueryScheduler) : Option WorkerStep :=
  (queries.process cfg.S cfg.ord true txn n).map fun r =>
    match r.2 with
    | none => { queries := r.1 }
    | some slice =>
      if slice.complete then
        { queries := r.1
          sent := sliceEvents txn slice ++ [.eose slice.serial slice.sub.connId slice.sub.subId]
          dispatched := some (slice.sub.connId, .newSub slice.serial slice.sub) }
      else { queries := r.1, sent := sliceEvents txn slice }

/-- A message in `runReqWorker`. `q` is the address of a new query, and the time slice after a NewSub
pauses after `n` iterations at the latest. -/
def workerHandle (q : QueryPtr) (n : Nat) (queries : QueryScheduler) :
    MsgReqWorker → Option WorkerStep
  | .newSub serial sub =>
    let r := queries.addSub cfg.maxSubsPerConnection txn q serial sub
    (workerProcess cfg txn n r.2).map fun step =>
      { step with
        sent := (if r.1 then [] else [.noticeError sub.connId "too many concurrent REQs"]) ++
          step.sent }
  | .removeSub serial connId subId =>
    some
      { queries := queries.removeSub connId subId
        dispatched := some (connId, .removeSub serial connId subId) }
  | .closeConn serial connId =>
    some
      { queries := queries.closeConn connId
        dispatched := some (connId, .closeConn serial connId) }

end Worker

/-! ## The monitor -/

/-- The start key of a walk over the events after `levId`, which wraps around at the largest 64-bit
value. -/
def startAfter : WithTop Nat → Nat
  | ⊤ => 0
  | some levId => levId + 1

/-- What a monitor thread has done: its monitors afterwards, how far it has come, and what it has
sent. -/
structure MonitorStep where
  monitors : ActiveMonitors
  currEventId : WithTop Nat
  sent : List Output := []

section Monitor

variable (cfg : RelayConfig) (txn : Store)

/-- The events that are written after the query of a new subscription started. -/
def catchUp (sub : Subscription) : List Output :=
  ((txn.event.rowsFrom (startAfter sub.latestEventId)).filter fun r =>
    sub.filterGroup.doesMatch r.2).map fun r =>
      .event .catchUp sub.connId sub.subId r.1 (some r.2)

/-- `sendEventToBatch`. -/
def sendEventToBatch (levId : Nat) (ev : PackedEvent) (recipients : RecipientList) : List Output :=
  recipients.map fun r => .event .live r.1 r.2 levId (some ev)

/-- The loop of a DBChange over the events, with `monitors.process` for each of them. -/
def processEvents : List (Nat × PackedEvent) → ActiveMonitors → Option (ActiveMonitors × List Output)
  | [], monitors => some (monitors, [])
  | (levId, ev) :: rest, monitors =>
    match monitors.process levId ev with
    | none => none
    | some (monitors', cb) =>
      let sent :=
        match cb with
        | none => []
        | some (recipients, levId) => sendEventToBatch levId ev recipients
      (processEvents rest monitors').map fun r => (r.1, sent ++ r.2)

/-- A message in `runReqMonitor`. `p` is the address of a new monitor. -/
def monitorHandle (p : MonitorPtr) (monitors : ActiveMonitors) (currEventId : WithTop Nat) :
    MsgReqMonitor → Option MonitorStep
  | .newSub _ sub =>
    let latestEventId := txn.getMostRecentLevId
    match monitors.addSub cfg.maxSubsPerConnection p { sub with latestEventId := latestEventId }
      latestEventId with
    | .error _ => none
    | .ok (accepted, monitors') =>
      some
        { monitors := monitors'
          currEventId := currEventId
          sent := catchUp txn sub ++
            if accepted then [] else [.noticeError sub.connId "too many concurrent REQs"] }
  | .removeSub _ connId subId =>
    match monitors.removeSub connId subId with
    | .error _ => none
    | .ok monitors' => some { monitors := monitors', currEventId := currEventId }
  | .closeConn _ connId =>
    match monitors.closeConn connId with
    | .error _ => none
    | .ok monitors' => some { monitors := monitors', currEventId := currEventId }
  | .dbChange =>
    (processEvents (txn.event.rowsFrom (startAfter currEventId)) monitors).map fun r =>
      { monitors := r.1, currEventId := txn.getMostRecentLevId, sent := r.2 }

end Monitor

/-! ## The relay -/

/-- A worker thread: its inbox, what is left of the messages it has taken from it, and the
transaction while there is one. -/
structure ReqWorker where
  inbox : List MsgReqWorker := []
  newMsgs : List MsgReqWorker := []
  txn : Option Store := none
  queries : QueryScheduler := {}

/-- A monitor thread: its inbox, what is left of the messages it has taken from it, and the
transaction that it has opened for them. -/
structure ReqMonitor where
  inbox : List MsgReqMonitor := []
  newMsgs : List MsgReqMonitor := []
  txn : Store := Store.empty
  monitors : ActiveMonitors := {}
  currEventId : WithTop Nat := ⊤

/-- The database and the threads of the three pools. An ingester thread is its inbox: how many
messages it takes at a time makes no difference to subscriptions. `log`, `submitted` and `highest`,
the largest levId that a stored event has had, are history variables. -/
structure Relay where
  db : Db
  ingesters : Nat → List (Nat × MsgIngester) := fun _ => []
  workers : Nat → ReqWorker := fun _ => {}
  monitors : Nat → ReqMonitor := fun _ => {}
  log : List Output := []
  submitted : List MsgIngester := []
  highest : Nat := db.event.lastKey

namespace Relay

/-- The thread `w` in a new state. -/
def setWorker (s : Relay) (w : Nat) (th : ReqWorker) : Relay :=
  { s with workers := Function.update s.workers w th }

/-- The thread `m` in a new state. -/
def setMonitor (s : Relay) (m : Nat) (th : ReqMonitor) : Relay :=
  { s with monitors := Function.update s.monitors m th }

/-- More messages in the log. -/
def send (s : Relay) (sent : List Output) : Relay := { s with log := s.log ++ sent }

/-- `tpReqWorker.dispatch`. -/
def dispatchWorker (cfg : RelayConfig) (s : Relay) (msg : MsgReqWorker) : Relay :=
  let w := msg.connId % cfg.numReqWorker
  s.setWorker w { s.workers w with inbox := (s.workers w).inbox ++ [msg] }

/-- `tpReqMonitor.dispatch`. -/
def dispatchMonitor (cfg : RelayConfig) (s : Relay) (key : Nat) (msg : MsgReqMonitor) : Relay :=
  let m := key % cfg.numReqMonitor
  s.setMonitor m { s.monitors m with inbox := (s.monitors m).inbox ++ [msg] }

/-- A client message has come in. -/
def received (cfg : RelayConfig) (s : Relay) (msg : MsgIngester) : Relay :=
  { s with
    ingesters := Function.update s.ingesters (msg.connId % cfg.numIngester)
      (s.ingesters (msg.connId % cfg.numIngester) ++ [(s.submitted.length, msg)])
    submitted := s.submitted ++ [msg] }

/-- `dispatchToAll` of a change of the database. -/
def notified (cfg : RelayConfig) (s : Relay) : Relay :=
  { s with
    monitors := fun m =>
      if m < cfg.numReqMonitor then
        { s.monitors m with inbox := (s.monitors m).inbox ++ [.dbChange] }
      else s.monitors m }

/-- The database after a transaction. -/
def committed (s : Relay) (db' : Db) : Relay :=
  { s with db := db', highest := max s.highest db'.event.lastKey }

/-- What an ingester thread has made of a message takes effect. -/
def afterIngester (cfg : RelayConfig) (s : Relay) (i : Nat) (rest : List (Nat × MsgIngester))
    (out : List Output × Option MsgReqWorker) : Relay :=
  let s := { s with ingesters := Function.update s.ingesters i rest }.send out.1
  match out.2 with
  | none => s
  | some msg => s.dispatchWorker cfg msg

/-- What a worker thread has done takes effect. -/
def afterWorker (cfg : RelayConfig) (s : Relay) (w : Nat) (th : ReqWorker) (step : WorkerStep) :
    Relay :=
  let s := (s.setWorker w { th with queries := step.queries }).send step.sent
  match step.dispatched with
  | none => s
  | some (key, msg) => s.dispatchMonitor cfg key msg

/-- What a monitor thread has done takes effect. -/
def afterMonitor (s : Relay) (m : Nat) (th : ReqMonitor) (step : MonitorStep) : Relay :=
  (s.setMonitor m { th with monitors := step.monitors, currEventId := step.currEventId }).send
    step.sent

/-- The steps by name. -/
inductive Action
  | receive (msg : MsgIngester)
  | ingest (i serial : Nat) (msg : MsgIngester)
  | workerPop (w : Nat)
  | workerMsg (w : Nat) (msg : MsgReqWorker)
  | workerProcess (w : Nat)
  | monitorPop (m : Nat)
  | monitorMsg (m : Nat) (msg : MsgReqMonitor)
  | dbChange
  | commit

/-- One step. -/
inductive Step (cfg : RelayConfig) : Relay → Action → Relay → Prop
  /-- The websocket thread passes a message on. A disconnect is the last one of its connection. -/
  | receive {s : Relay} {msg : MsgIngester} (opened : .closeConn msg.connId ∉ s.submitted) :
      Step cfg s (.receive msg) (s.received cfg msg)
  | ingest {s : Relay} {i serial : Nat} {msg : MsgIngester} {rest : List (Nat × MsgIngester)}
      (next : s.ingesters i = (serial, msg) :: rest) :
      Step cfg s (.ingest i serial msg) (s.afterIngester cfg i rest (ingesterForward cfg serial msg))
  /-- `pop_all`, which waits for a message unless a query is running, and `txn_ro`. -/
  | workerPop {s : Relay} {w : Nat} (idle : (s.workers w).txn = none)
      (done : (s.workers w).newMsgs = [])
      (ready : (s.workers w).inbox ≠ [] ∨ (s.workers w).queries.running ≠ []) :
      Step cfg s (.workerPop w)
        (s.setWorker w
          { s.workers w with
            inbox := [], newMsgs := (s.workers w).inbox, txn := some s.db.toStore })
  | workerMsg {s : Relay} {w : Nat} {txn : Store} {msg : MsgReqWorker} {rest : List MsgReqWorker}
      {q : QueryPtr} {n : Nat} {step : WorkerStep} (opened : (s.workers w).txn = some txn)
      (next : (s.workers w).newMsgs = msg :: rest)
      (unused : (s.workers w).queries.queries.lookup q = none)
      (handled : workerHandle cfg txn q n (s.workers w).queries msg = some step) :
      Step cfg s (.workerMsg w msg)
        (s.afterWorker cfg w { s.workers w with newMsgs := rest } step)
  /-- The time slice after the last message, and `txn.abort`. -/
  | workerProcess {s : Relay} {w : Nat} {txn : Store} {n : Nat} {step : WorkerStep}
      (opened : (s.workers w).txn = some txn) (done : (s.workers w).newMsgs = [])
      (handled : Strfry.workerProcess cfg txn n (s.workers w).queries = some step) :
      Step cfg s (.workerProcess w) (s.afterWorker cfg w { s.workers w with txn := none } step)
  /-- `pop_all`, `txn_ro`, and the check of `currEventId`. -/
  | monitorPop {s : Relay} {m : Nat} (done : (s.monitors m).newMsgs = [])
      (ready : (s.monitors m).inbox ≠ []) :
      Step cfg s (.monitorPop m)
        (s.setMonitor m
          { s.monitors m with
            inbox := [], newMsgs := (s.monitors m).inbox, txn := s.db.toStore
            currEventId := min (s.monitors m).currEventId s.db.getMostRecentLevId })
  | monitorMsg {s : Relay} {m : Nat} {msg : MsgReqMonitor} {rest : List MsgReqMonitor}
      {p : MonitorPtr} {step : MonitorStep} (next : (s.monitors m).newMsgs = msg :: rest)
      (unused : (s.monitors m).monitors.monitors.lookup p = none)
      (handled : monitorHandle cfg (s.monitors m).txn p (s.monitors m).monitors
        (s.monitors m).currEventId msg = some step) :
      Step cfg s (.monitorMsg m msg)
        (s.afterMonitor m { s.monitors m with newMsgs := rest } step)
  /-- The file of the database has changed. -/
  | dbChange {s : Relay} : Step cfg s .dbChange (s.notified cfg)
  /-- A transaction of the writer or of another process. -/
  | commit {s : Relay} {db' : Db} (txn : StoreStep cfg.ord cfg.hex cfg.text s.db db') :
      Step cfg s .commit (s.committed db')

/-- A run: a sequence of steps with their names. -/
inductive Run (cfg : RelayConfig) : Relay → List Action → Relay → Prop
  | refl {s : Relay} : Run cfg s [] s
  | tail {s s' s'' : Relay} {acts : List Action} {act : Action} (run : Run cfg s acts s')
      (step : Step cfg s' act s'') : Run cfg s (acts ++ [act]) s''

/-- The states that the relay reaches from its start on a database. -/
def Reachable (cfg : RelayConfig) (s : Relay) : Prop :=
  ∃ db acts, StoreReachable cfg.ord cfg.hex cfg.text db ∧ Run cfg { db := db } acts s

end Relay

end Strfry
