import Strfry.Broadcast
import Strfry.Ingester

/-!
# Connections and their sockets

The websocket thread gives every connection a number, which is never used again, and keeps the connections that
are open in a map. Addresses of sockets are used again. A message for a connection that is closed is dropped when
the thread comes to it; until then it has been waiting in the inbox, and the address of the socket may be that
of another connection by now.

What a connection is sent is therefore a question about the whole run. `ConnView` reads it off the log, and
`connections_kept_apart` says that a socket gets what was addressed to its connection while that was open, in
that order, and that the ingester gets what the socket received and, last, that the connection was closed.
-/

set_option autoImplicit false

namespace Strfry

open Lib

/-- `MsgWebsocket`. -/
inductive MsgWebsocket
  | send (connId : Nat) (payload : Bytes)
  | sendBinary (connId : Nat) (payload : Bytes)
  | sendEventToBatch (list : RecipientList) (evJson : Bytes)
  | gracefulShutdown

/-- `uWS::OpCode` of a payload. -/
inductive OpCode
  | text
  | binary

/-- `Connection` without its counters. `websocket` is an address. -/
structure WebsocketThread.Connection where
  websocket : Nat
  connId : Nat
  ipAddr : Bytes

/-- What the thread does, and what happens to its sockets. -/
inductive WebsocketEntry
  | opened (c : WebsocketThread.Connection)
  | message (websocket : Nat) (payload : Bytes)
  | closed (c : WebsocketThread.Connection)
  | handled (msg : MsgWebsocket)
  | sent (websocket : Nat) (payload : Bytes) (opCode : OpCode)
  | dispatched (msg : MsgIngester)

/-- The thread of `runWebsocket`. `userData` is what `setUserData` has put into the sockets that are open; `log`
is a history variable. -/
structure WebsocketThread where
  nextConnectionId : Nat := 1
  connIdToConnection : List (Nat × WebsocketThread.Connection) := []
  userData : Nat → Option WebsocketThread.Connection := fun _ => none
  gracefulShutdown : Bool := false
  exited : Bool := false
  tempBuf : Bytes := []
  inbox : List MsgWebsocket := []
  log : List WebsocketEntry := []

namespace WebsocketThread

/-- `onConnection`, with the address that the header or the socket gives. -/
def onConnection (s : WebsocketThread) (websocket : Nat) (ipAddr : Bytes) : WebsocketThread :=
  let c : Connection := ⟨websocket, s.nextConnectionId, ipAddr⟩
  { s with
    nextConnectionId := s.nextConnectionId + 1
    connIdToConnection := s.connIdToConnection ++ [(c.connId, c)]
    userData := Function.update s.userData websocket (some c)
    log := s.log ++ [.opened c] }

/-- `onDisconnection`. -/
def onDisconnection (s : WebsocketThread) (websocket : Nat) (c : Connection) : WebsocketThread :=
  let connIdToConnection := s.connIdToConnection.filter fun kv => kv.1 != c.connId
  { s with
    connIdToConnection := connIdToConnection
    userData := Function.update s.userData websocket none
    exited := s.gracefulShutdown && connIdToConnection.isEmpty
    log := s.log ++ [.closed c, .dispatched (.closeConn c.connId)] }

/-- `onMessage2`. -/
def onMessage (s : WebsocketThread) (websocket : Nat) (c : Connection) (payload : Bytes) : WebsocketThread :=
  { s with log := s.log ++ [.message websocket payload,
      .dispatched (.clientMessage { connId := c.connId, ipAddr := c.ipAddr, payload := payload })] }

/-- `doSend`. -/
def doSend (s : WebsocketThread) (connId : Nat) (payload : Bytes) (opCode : OpCode) : WebsocketThread :=
  match s.connIdToConnection.lookup connId with
  | none => s
  | some c => { s with log := s.log ++ [.sent c.websocket payload opCode] }

/-- `doSend` for each recipient. -/
def doSendAll (s : WebsocketThread) (list : List (Nat × Bytes)) : WebsocketThread :=
  list.foldl (fun s item => s.doSend item.1 item.2 .text) s

/-- A message of the inbox. `none` is a write outside of `tempBuf`. -/
def handleMsg (s : WebsocketThread) (msg : MsgWebsocket) : Option WebsocketThread :=
  let s := { s with log := s.log ++ [WebsocketEntry.handled msg] }
  match msg with
  | .send connId payload => some (s.doSend connId payload .text)
  | .sendBinary connId payload => some (s.doSend connId payload .binary)
  | .sendEventToBatch list evJson =>
    (Websocket.sendEventToBatch s.tempBuf list evJson).map fun r => doSendAll { s with tempBuf := r.2 } r.1
  | .gracefulShutdown => some { s with gracefulShutdown := true }

/-- `asyncCb`. -/
def asyncCb (s : WebsocketThread) : Option WebsocketThread :=
  s.inbox.foldlM handleMsg { s with inbox := [] }

/-- A callback of the thread, or a message from another one. A socket is open when it has user data. -/
inductive Step : WebsocketThread → WebsocketThread → Prop
  | push {s : WebsocketThread} (msg : MsgWebsocket) : Step s { s with inbox := s.inbox ++ [msg] }
  | connection {s : WebsocketThread} (websocket : Nat) (ipAddr : Bytes) (hrun : s.exited = false)
      (hnew : s.userData websocket = none) : Step s (s.onConnection websocket ipAddr)
  | disconnection {s : WebsocketThread} {websocket : Nat} {c : Connection} (hrun : s.exited = false)
      (hopen : s.userData websocket = some c) : Step s (s.onDisconnection websocket c)
  | message {s : WebsocketThread} {websocket : Nat} {c : Connection} (payload : Bytes) (hrun : s.exited = false)
      (hopen : s.userData websocket = some c) : Step s (s.onMessage websocket c payload)
  | async {s s' : WebsocketThread} (hrun : s.exited = false) (hok : s.asyncCb = some s') : Step s s'

/-- The states reachable from the start. -/
def Reachable (s : WebsocketThread) : Prop := Relation.ReflTransGen Step {} s

end WebsocketThread

/-! ## What the log says about a connection -/

/-- The payloads of a message that are for the connection. -/
def MsgWebsocket.payloadsFor (connId : Nat) : MsgWebsocket → List (Bytes × OpCode)
  | .send id payload => if id = connId then [(payload, .text)] else []
  | .sendBinary id payload => if id = connId then [(payload, .binary)] else []
  | .sendEventToBatch list evJson =>
    (list.filter fun item => item.1 == connId).map fun item => (Websocket.sendEvent item.2 evJson, .text)
  | .gracefulShutdown => []

/-- The connection that a message to the ingester is about. -/
def MsgIngester.about : MsgIngester → Nat
  | .clientMessage msg => msg.connId
  | .closeConn connId => connId

/-- A connection as the log shows it: the socket while it is open, what was addressed to it and what its socket
was sent while it was, what its socket received, and what the ingester was told. -/
structure ConnView where
  opens : Nat := 0
  websocket : Option Nat := none
  ipAddr : Bytes := []
  isClosed : Bool := false
  addressed : List (Bytes × OpCode) := []
  sent : List (Bytes × OpCode) := []
  received : List Bytes := []
  told : List MsgIngester := []

/-- One more entry of the log. -/
def ConnView.next (connId : Nat) (v : ConnView) : WebsocketEntry → ConnView
  | .opened c =>
    if c.connId = connId then { v with opens := v.opens + 1, websocket := some c.websocket, ipAddr := c.ipAddr }
    else v
  | .closed c => if c.connId = connId then { v with websocket := none, isClosed := true } else v
  | .message websocket payload =>
    if v.websocket = some websocket then { v with received := v.received ++ [payload] } else v
  | .handled msg =>
    if v.websocket.isSome then { v with addressed := v.addressed ++ msg.payloadsFor connId } else v
  | .sent websocket payload opCode =>
    if v.websocket = some websocket then { v with sent := v.sent ++ [(payload, opCode)] } else v
  | .dispatched msg => if msg.about = connId then { v with told := v.told ++ [msg] } else v

/-- The whole log. -/
def connView (connId : Nat) (log : List WebsocketEntry) : ConnView := log.foldl (ConnView.next connId) {}

/-- What the ingester is told of a connection. -/
def ConnView.report (connId : Nat) (v : ConnView) : List MsgIngester :=
  v.received.map (fun payload => .clientMessage { connId := connId, ipAddr := v.ipAddr, payload := payload }) ++
    if v.isClosed then [.closeConn connId] else []

theorem connView_append (connId : Nat) (log new : List WebsocketEntry) :
    connView connId (log ++ new) = new.foldl (ConnView.next connId) (connView connId log) := List.foldl_append

namespace WebsocketThread

variable {s s' : WebsocketThread}

/-- The map and the sockets agree. -/
structure Inv (s : WebsocketThread) : Prop where
  keys : (s.connIdToConnection.map Prod.fst).Nodup
  entry : ∀ kv ∈ s.connIdToConnection, kv.2.connId = kv.1 ∧ kv.1 < s.nextConnectionId ∧
    s.userData kv.2.websocket = some kv.2
  userData : ∀ websocket c, s.userData websocket = some c → c.websocket = websocket ∧
    (c.connId, c) ∈ s.connIdToConnection

/-- The log agrees with them. -/
structure Shows (s : WebsocketThread) (connId : Nat) (v : ConnView) : Prop where
  fresh : s.nextConnectionId ≤ connId → v.opens = 0 ∧ v.isClosed = false ∧ v.received = []
  once : v.opens ≤ 1
  websocket : v.websocket = (s.connIdToConnection.lookup connId).map Connection.websocket
  ipAddr : ∀ c, s.connIdToConnection.lookup connId = some c → v.ipAddr = c.ipAddr ∧ v.isClosed = false
  told : v.told = v.report connId

theorem mem_of_lookup {connId : Nat} {c : Connection} (h : s.connIdToConnection.lookup connId = some c) :
    (connId, c) ∈ s.connIdToConnection := by
  obtain ⟨l₁, l₂, heq, -⟩ := List.lookup_eq_some_iff.mp h
  rw [heq]
  exact List.mem_append_right _ List.mem_cons_self

theorem Inv.lookup_of_mem (h : Inv s) {connId : Nat} {c : Connection} (hmem : (connId, c) ∈ s.connIdToConnection) :
    s.connIdToConnection.lookup connId = some c := by
  obtain ⟨l₁, l₂, heq⟩ := List.append_of_mem hmem
  refine List.lookup_eq_some_iff.mpr ⟨l₁, l₂, heq, fun kv hkv => ?_⟩
  have hkeys := h.keys
  rw [heq, List.map_append, List.map_cons] at hkeys
  have hne := (List.nodup_append.mp hkeys).2.2 _ (List.mem_map_of_mem hkv) _ List.mem_cons_self
  rw [bne_iff_ne]
  exact hne.symm

/-- Two connections that are open have different sockets. -/
theorem Inv.eq_of_websocket (h : Inv s) {connId connId' : Nat} {c c' : Connection}
    (hc : s.connIdToConnection.lookup connId = some c) (hc' : s.connIdToConnection.lookup connId' = some c')
    (heq : c.websocket = c'.websocket) : connId = connId' := by
  obtain ⟨hid, -, hdata⟩ := h.entry _ (mem_of_lookup hc)
  obtain ⟨hid', -, hdata'⟩ := h.entry _ (mem_of_lookup hc')
  simp only at hid hid' hdata hdata'
  rw [heq, hdata'] at hdata
  rw [← hid, ← hid', Option.some.inj hdata]

/-! ### Sending -/

/-- Sending appends to the log, and changes nothing else. -/
theorem doSend_eq (s : WebsocketThread) (connId : Nat) (payload : Bytes) (opCode : OpCode) :
    ∃ new, s.doSend connId payload opCode = { s with log := s.log ++ new } := by
  rw [doSend]
  split
  · exact ⟨[], by rw [List.append_nil]⟩
  · exact ⟨_, rfl⟩

/-- A payload goes to the socket of its connection, if that is open. -/
theorem connView_doSend (h : Inv s) {connId id : Nat} {payload : Bytes} {opCode : OpCode}
    (hv : (connView connId s.log).websocket = (s.connIdToConnection.lookup connId).map Connection.websocket) :
    connView connId (s.doSend id payload opCode).log =
      { connView connId s.log with
        sent := (connView connId s.log).sent ++
          if id = connId ∧ (connView connId s.log).websocket.isSome then [(payload, opCode)] else [] } := by
  rw [doSend]
  cases hid : s.connIdToConnection.lookup id with
  | none =>
    have hno : ¬ (id = connId ∧ (connView connId s.log).websocket.isSome) := by
      rintro ⟨rfl, hsome⟩
      rw [hv, hid] at hsome
      cases hsome
    rw [if_neg hno, List.append_nil]
  | some c =>
    simp only [connView_append, List.foldl_cons, List.foldl_nil, ConnView.next]
    by_cases heq : id = connId
    · subst heq
      rw [hid, Option.map_some] at hv
      rw [if_pos hv, if_pos ⟨rfl, by rw [hv]; rfl⟩]
    · have hno : ¬ (id = connId ∧ (connView connId s.log).websocket.isSome) := fun hand => heq hand.1
      have hother : (connView connId s.log).websocket ≠ some c.websocket := by
        intro hsame
        rw [hv] at hsame
        obtain ⟨c', hc', hws⟩ := Option.map_eq_some_iff.mp hsame
        exact heq (h.eq_of_websocket hid hc' hws.symm)
      rw [if_neg hother, if_neg hno, List.append_nil]

theorem doSendAll_eq (s : WebsocketThread) (list : List (Nat × Bytes)) :
    ∃ new, s.doSendAll list = { s with log := s.log ++ new } := by
  induction list generalizing s with
  | nil => exact ⟨[], by rw [List.append_nil]; rfl⟩
  | cons item list ih =>
    obtain ⟨new, hnew⟩ := s.doSend_eq item.1 item.2 .text
    obtain ⟨rest, hrest⟩ := ih (s.doSend item.1 item.2 .text)
    have hfirst : s.doSendAll (item :: list) = (s.doSend item.1 item.2 .text).doSendAll list := rfl
    exact ⟨new ++ rest, by rw [hfirst, hrest, hnew, List.append_assoc]⟩

theorem connView_doSendAll {connId : Nat} (list : List (Nat × Bytes)) (h : Inv s)
    (hv : (connView connId s.log).websocket = (s.connIdToConnection.lookup connId).map Connection.websocket) :
    connView connId (s.doSendAll list).log =
      { connView connId s.log with
        sent := (connView connId s.log).sent ++ if (connView connId s.log).websocket.isSome then
          (list.filter fun item => item.1 == connId).map fun item => (item.2, OpCode.text) else [] } := by
  induction list generalizing s with
  | nil => simp [doSendAll]
  | cons item list ih =>
    obtain ⟨new, hnew⟩ := s.doSend_eq item.1 item.2 .text
    have hview := @connView_doSend s h connId item.1 item.2 .text hv
    have hfirst : s.doSendAll (item :: list) = (s.doSend item.1 item.2 .text).doSendAll list := rfl
    have hinv : Inv (s.doSend item.1 item.2 .text) := by
      rw [hnew]
      exact ⟨h.keys, h.entry, h.userData⟩
    have hmap : (s.doSend item.1 item.2 .text).connIdToConnection = s.connIdToConnection := by rw [hnew]
    rw [hfirst, ih hinv (by rw [hview, hmap]; exact hv), hview]
    cases hopen : (connView connId s.log).websocket.isSome with
    | false => simp
    | true =>
      by_cases heq : item.1 = connId
      · simp [heq, List.append_assoc]
      · simp [heq]

/-- While the connection is open, a message that is handled is addressed to it. -/
theorem connView_handled (connId : Nat) (log : List WebsocketEntry) (msg : MsgWebsocket) :
    connView connId (log ++ [.handled msg]) = { connView connId log with
      addressed := (connView connId log).addressed ++
        if (connView connId log).websocket.isSome then msg.payloadsFor connId else [] } := by
  simp only [connView_append, List.foldl_cons, List.foldl_nil, ConnView.next]
  cases (connView connId log).websocket.isSome with
  | true => rfl
  | false => simp

/-- A message of the inbox: what it has for a connection that is open is addressed to it, and sent. -/
theorem handleMsg_spec (h : Inv s) (msg : MsgWebsocket) :
    ∃ (tempBuf : Bytes) (graceful : Bool) (new : List WebsocketEntry),
      s.handleMsg msg = some { s with tempBuf := tempBuf, gracefulShutdown := graceful, log := s.log ++ new } ∧
      ∀ connId, (connView connId s.log).websocket = (s.connIdToConnection.lookup connId).map Connection.websocket →
        ∃ payloads, connView connId (s.log ++ new) = { connView connId s.log with
          addressed := (connView connId s.log).addressed ++ payloads
          sent := (connView connId s.log).sent ++ payloads } := by
  have hinv : Inv { s with log := s.log ++ [.handled msg] } := ⟨h.keys, h.entry, h.userData⟩
  -- a message for one connection is addressed to it, and sent if it is open
  have hone : ∀ (connId id : Nat) (payload : Bytes) (opCode : OpCode),
      msg.payloadsFor connId = (if id = connId then [(payload, opCode)] else []) →
      (connView connId s.log).websocket = (s.connIdToConnection.lookup connId).map Connection.websocket →
      ∃ payloads, connView connId (doSend { s with log := s.log ++ [.handled msg] } id payload opCode).log =
        { connView connId s.log with
          addressed := (connView connId s.log).addressed ++ payloads
          sent := (connView connId s.log).sent ++ payloads } := by
    intro connId id payload opCode hfor hv
    have hstart := connView_handled connId s.log msg
    refine ⟨if (connView connId s.log).websocket.isSome then msg.payloadsFor connId else [], ?_⟩
    rw [connView_doSend hinv (by rw [hstart]; exact hv)]
    simp only [hstart, hfor]
    by_cases heq : id = connId
    · simp [heq]
    · simp [heq]
  cases msg with
  | send id payload =>
    obtain ⟨new, hnew⟩ := doSend_eq { s with log := s.log ++ [.handled (.send id payload)] } id payload .text
    refine ⟨s.tempBuf, s.gracefulShutdown, .handled (.send id payload) :: new, ?_, fun connId hv => ?_⟩
    · rw [handleMsg, hnew, List.append_assoc]
      rfl
    · have hview := hone connId id payload .text rfl hv
      rw [hnew, List.append_assoc] at hview
      exact hview
  | sendBinary id payload =>
    obtain ⟨new, hnew⟩ :=
      doSend_eq { s with log := s.log ++ [.handled (.sendBinary id payload)] } id payload .binary
    refine ⟨s.tempBuf, s.gracefulShutdown, .handled (.sendBinary id payload) :: new, ?_, fun connId hv => ?_⟩
    · rw [handleMsg, hnew, List.append_assoc]
      rfl
    · have hview := hone connId id payload .binary rfl hv
      rw [hnew, List.append_assoc] at hview
      exact hview
  | sendEventToBatch list evJson =>
    obtain ⟨tempBuf, hbatch⟩ := Websocket.sendEventToBatch_eq s.tempBuf list evJson
    have hinv' : Inv { s with tempBuf := tempBuf, log := s.log ++ [.handled (.sendEventToBatch list evJson)] } :=
      ⟨h.keys, h.entry, h.userData⟩
    obtain ⟨new, hnew⟩ := doSendAll_eq
      { s with tempBuf := tempBuf, log := s.log ++ [.handled (.sendEventToBatch list evJson)] }
      (list.map fun item => (item.1, Websocket.sendEvent item.2 evJson))
    refine ⟨tempBuf, s.gracefulShutdown, .handled (.sendEventToBatch list evJson) :: new, ?_, fun connId hv => ?_⟩
    · simp only [handleMsg, hbatch, Option.map_some]
      rw [hnew, List.append_assoc]
      rfl
    · have hstart := connView_handled connId s.log (.sendEventToBatch list evJson)
      have hview := @connView_doSendAll _ connId (list.map fun item => (item.1, Websocket.sendEvent item.2 evJson))
        hinv' (by rw [hstart]; exact hv)
      rw [hnew, List.append_assoc] at hview
      refine ⟨if (connView connId s.log).websocket.isSome then
        (MsgWebsocket.sendEventToBatch list evJson).payloadsFor connId else [], hview.trans ?_⟩
      -- of the recipients the view keeps those with its id
      simp only [hstart]
      congr 2
      cases (connView connId s.log).websocket.isSome with
      | false => rfl
      | true => simp [MsgWebsocket.payloadsFor, List.filter_map, Function.comp_def]
  | gracefulShutdown =>
    refine ⟨s.tempBuf, true, [.handled .gracefulShutdown], rfl, fun connId _ => ⟨[], ?_⟩⟩
    rw [connView_handled]
    simp [MsgWebsocket.payloadsFor]

/-! ### Runs -/

/-- What holds between the callbacks. -/
structure RunInv (s : WebsocketThread) : Prop where
  inv : Inv s
  shows : ∀ connId, Shows s connId (connView connId s.log)
  sent : ∀ connId, (connView connId s.log).sent = (connView connId s.log).addressed

theorem runInv_init : RunInv {} := by
  refine ⟨⟨List.nodup_nil, ?_, ?_⟩, fun connId => ?_, fun _ => rfl⟩
  · rintro kv ⟨⟩
  · rintro websocket c ⟨⟩
  · refine ⟨fun _ => ⟨rfl, rfl, rfl⟩, Nat.zero_le _, rfl, ?_, rfl⟩
    rintro c ⟨⟩

theorem RunInv.handleMsg (h : RunInv s) (msg : MsgWebsocket) : ∃ s', s.handleMsg msg = some s' ∧ RunInv s' := by
  obtain ⟨tempBuf, graceful, new, hok, hviews⟩ := handleMsg_spec h.inv msg
  refine ⟨_, hok, ⟨h.inv.keys, h.inv.entry, h.inv.userData⟩, fun connId => ?_, fun connId => ?_⟩
  · obtain ⟨payloads, hview⟩ := hviews connId (h.shows connId).websocket
    obtain ⟨hfresh, honce, hwebsocket, hip, htold⟩ := h.shows connId
    simp only [hview]
    exact ⟨hfresh, honce, hwebsocket, hip, htold⟩
  · obtain ⟨payloads, hview⟩ := hviews connId (h.shows connId).websocket
    simp only [hview, h.sent connId]

/-- The whole inbox. -/
theorem RunInv.handleAll (h : RunInv s) (msgs : List MsgWebsocket) :
    ∃ s', msgs.foldlM WebsocketThread.handleMsg s = some s' ∧ RunInv s' := by
  induction msgs generalizing s with
  | nil => exact ⟨s, rfl, h⟩
  | cons msg msgs ih =>
    obtain ⟨s₁, hok, h₁⟩ := h.handleMsg msg
    obtain ⟨s', hrest, h'⟩ := ih h₁
    refine ⟨s', ?_, h'⟩
    rw [List.foldlM_cons, hok]
    exact hrest

theorem RunInv.asyncCb (h : RunInv s) : ∃ s', s.asyncCb = some s' ∧ RunInv s' := by
  have hempty : RunInv { s with inbox := [] } := by
    refine ⟨⟨h.inv.keys, h.inv.entry, h.inv.userData⟩, fun connId => ?_, h.sent⟩
    obtain ⟨hfresh, honce, hwebsocket, hip, htold⟩ := h.shows connId
    exact ⟨hfresh, honce, hwebsocket, hip, htold⟩
  exact hempty.handleAll s.inbox

/-- A number that has not been given out is not in the map. -/
theorem Inv.lookup_fresh (h : Inv s) {connId : Nat} (hle : s.nextConnectionId ≤ connId) :
    s.connIdToConnection.lookup connId = none := by
  rw [Option.eq_none_iff_forall_ne_some]
  intro c hc
  have hlt := (h.entry _ (mem_of_lookup hc)).2.1
  simp only at hlt
  omega

theorem RunInv.onConnection (h : RunInv s) {websocket : Nat} (hnew : s.userData websocket = none)
    (ipAddr : Bytes) : RunInv (s.onConnection websocket ipAddr) := by
  -- no connection that is open has this socket
  have hold : ∀ kv ∈ s.connIdToConnection, kv.2.websocket ≠ websocket := by
    intro kv hkv heq
    have hdata := (h.inv.entry kv hkv).2.2
    rw [heq, hnew] at hdata
    cases hdata
  refine ⟨⟨?_, ?_, ?_⟩, fun connId => ?_, fun connId => ?_⟩
  · simp only [WebsocketThread.onConnection, List.map_append, List.map_cons, List.map_nil]
    refine List.nodup_append.mpr ⟨h.inv.keys, List.nodup_singleton _, ?_⟩
    intro a ha b hb
    obtain ⟨kv, hkv, rfl⟩ := List.mem_map.mp ha
    rw [List.mem_singleton.mp hb]
    exact ne_of_lt (h.inv.entry kv hkv).2.1
  · intro kv hkv
    rcases List.mem_append.mp hkv with hkv | hkv
    · obtain ⟨hid, hlt, hdata⟩ := h.inv.entry kv hkv
      exact ⟨hid, Nat.lt_succ_of_lt hlt, (Function.update_of_ne (hold kv hkv) _ _).trans hdata⟩
    · rw [List.mem_singleton.mp hkv]
      exact ⟨rfl, Nat.lt_succ_self _, Function.update_self _ _ _⟩
  · intro ws c hc
    simp only [WebsocketThread.onConnection] at hc ⊢
    by_cases heq : ws = websocket
    · subst heq
      rw [Function.update_self] at hc
      cases hc
      exact ⟨rfl, List.mem_append_right _ (List.mem_singleton_self _)⟩
    · rw [Function.update_of_ne heq] at hc
      obtain ⟨hws, hmem⟩ := h.inv.userData ws c hc
      exact ⟨hws, List.mem_append_left _ hmem⟩
  · obtain ⟨hfresh, honce, hwebsocket, hip, htold⟩ := h.shows connId
    simp only [WebsocketThread.onConnection, connView_append, List.foldl_cons, List.foldl_nil, ConnView.next]
    by_cases heq : s.nextConnectionId = connId
    · subst heq
      obtain ⟨hopens, hclosed, hreceived⟩ := hfresh le_rfl
      -- the id is new, so that nothing has been reported of it
      have hnone := h.inv.lookup_fresh (le_refl s.nextConnectionId)
      have hlookup : (s.connIdToConnection ++ [(s.nextConnectionId,
          (⟨websocket, s.nextConnectionId, ipAddr⟩ : Connection))]).lookup s.nextConnectionId =
          some ⟨websocket, s.nextConnectionId, ipAddr⟩ := by
        rw [List.lookup_append, hnone, Option.none_or, List.lookup_cons, beq_self_eq_true]
      rw [if_pos rfl]
      refine ⟨fun hle => absurd hle (Nat.not_succ_le_self _), by simp only [hopens]; omega, ?_, ?_, ?_⟩
      · rw [hlookup]
        rfl
      · intro c hc
        rw [hlookup] at hc
        cases hc
        exact ⟨rfl, hclosed⟩
      · simp only [htold, ConnView.report, hreceived, hclosed]
        rfl
    · have hother : (s.connIdToConnection ++ [(s.nextConnectionId,
          (⟨websocket, s.nextConnectionId, ipAddr⟩ : Connection))]).lookup connId =
          s.connIdToConnection.lookup connId := by
        have hne : (connId == s.nextConnectionId) = false := beq_false_of_ne (Ne.symm heq)
        rw [List.lookup_append, List.lookup_cons, hne]
        simp
      rw [if_neg heq]
      refine ⟨fun hle => hfresh (Nat.le_of_succ_le hle), honce, ?_, ?_, htold⟩
      · rw [hother]
        exact hwebsocket
      · rw [hother]
        exact hip
  · simp only [WebsocketThread.onConnection, connView_append, List.foldl_cons, List.foldl_nil, ConnView.next]
    split
    · exact h.sent connId
    · exact h.sent connId

theorem lookup_filter_ne (l : List (Nat × Connection)) (id connId : Nat) :
    (l.filter fun kv => kv.1 != id).lookup connId = if connId = id then none else l.lookup connId := by
  induction l with
  | nil => simp
  | cons kv l ih =>
    by_cases hid : kv.1 = id
    · rw [List.filter_cons_of_neg (by simp [hid]), ih, List.lookup_cons]
      by_cases heq : connId = id
      · rw [if_pos heq, if_pos heq]
      · have hne : (connId == kv.1) = false := beq_false_of_ne (by rw [hid]; exact heq)
        rw [if_neg heq, if_neg heq, hne]
    · rw [List.filter_cons_of_pos (by simp [hid]), List.lookup_cons, List.lookup_cons, ih]
      by_cases heq : connId = id
      · have hne : (connId == kv.1) = false := beq_false_of_ne (by rw [heq]; exact fun h => hid h.symm)
        rw [if_pos heq, if_pos heq, hne]
      · rw [if_neg heq, if_neg heq]

theorem RunInv.onDisconnection (h : RunInv s) {websocket : Nat} {c : Connection}
    (hopen : s.userData websocket = some c) : RunInv (s.onDisconnection websocket c) := by
  obtain ⟨hws, hmem⟩ := h.inv.userData websocket c hopen
  have hlookup := h.inv.lookup_of_mem hmem
  refine ⟨⟨?_, ?_, ?_⟩, fun connId => ?_, fun connId => ?_⟩
  · exact h.inv.keys.sublist (List.filter_sublist.map Prod.fst)
  · intro kv hkv
    obtain ⟨hkv, hne⟩ := List.mem_filter.mp hkv
    obtain ⟨hid, hlt, hdata⟩ := h.inv.entry kv hkv
    refine ⟨hid, hlt, (Function.update_of_ne ?_ _ _).trans hdata⟩
    -- two entries with the same socket would have the same id
    rintro heq
    rw [heq, hopen] at hdata
    cases hdata
    rw [← hid, bne_self_eq_false] at hne
    cases hne
  · intro ws c' hc'
    simp only [WebsocketThread.onDisconnection] at hc' ⊢
    by_cases heq : ws = websocket
    · subst heq
      rw [Function.update_self] at hc'
      cases hc'
    · rw [Function.update_of_ne heq] at hc'
      obtain ⟨hws', hmem'⟩ := h.inv.userData ws c' hc'
      refine ⟨hws', List.mem_filter.mpr ⟨hmem', ?_⟩⟩
      rw [bne_iff_ne]
      intro hsame
      -- another socket has another connection, which stays
      have hlookup' := h.inv.lookup_of_mem hmem'
      simp only at hsame
      rw [hsame, hlookup] at hlookup'
      cases hlookup'
      exact heq (hws'.symm.trans hws)
  · obtain ⟨hfresh, honce, hwebsocket, hip, htold⟩ := h.shows connId
    simp only [WebsocketThread.onDisconnection, connView_append, List.foldl_cons, List.foldl_nil, ConnView.next,
      MsgIngester.about]
    by_cases heq : c.connId = connId
    · subst heq
      have hclosed := (hip c hlookup).2
      simp only [↓reduceIte]
      refine ⟨fun hle => ?_, honce, ?_, ?_, ?_⟩
      · rw [h.inv.lookup_fresh hle] at hlookup
        cases hlookup
      · simp only [lookup_filter_ne, if_pos]
        rfl
      · intro c' hc'
        simp only [lookup_filter_ne, if_pos] at hc'
        cases hc'
      · simp [htold, ConnView.report, hclosed]
    · simp only [if_neg heq]
      have hother : (s.connIdToConnection.filter fun kv => kv.1 != c.connId).lookup connId =
          s.connIdToConnection.lookup connId := by
        rw [lookup_filter_ne, if_neg (Ne.symm heq)]
      refine ⟨hfresh, honce, ?_, ?_, htold⟩
      · rw [hother]
        exact hwebsocket
      · rw [hother]
        exact hip
  · simp only [WebsocketThread.onDisconnection, connView_append, List.foldl_cons, List.foldl_nil, ConnView.next,
      MsgIngester.about]
    by_cases heq : c.connId = connId
    · simp only [heq, ↓reduceIte]
      exact h.sent connId
    · simp only [if_neg heq]
      exact h.sent connId

theorem RunInv.onMessage (h : RunInv s) {websocket : Nat} {c : Connection}
    (hopen : s.userData websocket = some c) (payload : Bytes) : RunInv (s.onMessage websocket c payload) := by
  obtain ⟨hws, hmem⟩ := h.inv.userData websocket c hopen
  have hlookup := h.inv.lookup_of_mem hmem
  have howner : ∀ connId, (connView connId s.log).websocket = some websocket ↔ c.connId = connId := by
    intro connId
    rw [(h.shows connId).websocket, Option.map_eq_some_iff]
    constructor
    · rintro ⟨c', hc', heq⟩
      exact h.inv.eq_of_websocket hlookup hc' (hws.trans heq.symm)
    · rintro rfl
      exact ⟨c, hlookup, hws⟩
  refine ⟨⟨h.inv.keys, h.inv.entry, h.inv.userData⟩, fun connId => ?_, fun connId => ?_⟩
  · obtain ⟨hfresh, honce, hwebsocket, hip, htold⟩ := h.shows connId
    simp only [WebsocketThread.onMessage, connView_append, List.foldl_cons, List.foldl_nil, ConnView.next,
      MsgIngester.about, howner connId]
    by_cases heq : c.connId = connId
    · subst heq
      obtain ⟨haddress, hclosed⟩ := hip c hlookup
      simp only [↓reduceIte]
      refine ⟨fun hle => ?_, honce, hwebsocket, hip, ?_⟩
      · rw [h.inv.lookup_fresh hle] at hlookup
        cases hlookup
      · simp [htold, ConnView.report, hclosed, haddress]
    · simp only [if_neg heq]
      exact ⟨hfresh, honce, hwebsocket, hip, htold⟩
  · simp only [WebsocketThread.onMessage, connView_append, List.foldl_cons, List.foldl_nil, ConnView.next,
      MsgIngester.about, howner connId]
    by_cases heq : c.connId = connId
    · simp only [heq, ↓reduceIte]
      exact h.sent connId
    · simp only [if_neg heq]
      exact h.sent connId

/-- The step lemma. -/
theorem Step.runInv (hstep : Step s s') (h : RunInv s) : RunInv s' := by
  cases hstep with
  | push msg =>
    refine ⟨⟨h.inv.keys, h.inv.entry, h.inv.userData⟩, fun connId => ?_, h.sent⟩
    obtain ⟨hfresh, honce, hwebsocket, hip, htold⟩ := h.shows connId
    exact ⟨hfresh, honce, hwebsocket, hip, htold⟩
  | connection websocket ipAddr _ hnew => exact h.onConnection hnew ipAddr
  | disconnection _ hopen => exact h.onDisconnection hopen
  | message payload _ hopen => exact h.onMessage hopen payload
  | async _ hok =>
    obtain ⟨s₁, hok₁, h₁⟩ := h.asyncCb
    cases hok.symm.trans hok₁
    exact h₁

theorem Reachable.runInv (h : Reachable s) : RunInv s := by
  induction h with
  | refl => exact runInv_init
  | tail _ hstep ih => exact hstep.runInv ih

/-- In every reachable state, for every number: it is that of one connection at most; while that is open its
socket is sent what is addressed to it, all of it, in that order, and nothing else, whatever the addresses of the
sockets; the ingester is told what its socket received, in that order, and then, once, that it is closed. The
callback that empties the inbox never writes outside of its buffer. -/
theorem connections_kept_apart (h : Reachable s) (connId : Nat) :
    (connView connId s.log).opens ≤ 1 ∧
    (connView connId s.log).sent = (connView connId s.log).addressed ∧
    (connView connId s.log).told = (connView connId s.log).report connId ∧
    (connView connId s.log).websocket = (s.connIdToConnection.lookup connId).map Connection.websocket ∧
    ∃ s', s.asyncCb = some s' := by
  have hinv := h.runInv
  obtain ⟨s', hok, -⟩ := hinv.asyncCb
  have hshows := hinv.shows connId
  exact ⟨hshows.once, hinv.sent connId, hshows.told, hshows.websocket, s', hok⟩

/-- A socket is closed, and its address used again, while a message for the first connection is waiting: the
second connection is sent its own message only. -/
theorem connections_kept_apart_reused : ∃ s, Reachable s ∧ (connView 1 s.log).received = [[99]] ∧
    (connView 1 s.log).sent.map Prod.fst = [] ∧ (connView 2 s.log).sent.map Prod.fst = [[98]] ∧
    ∀ connId, (connView connId s.log).opens ≤ 1 ∧
      (connView connId s.log).sent = (connView connId s.log).addressed ∧
      (connView connId s.log).told = (connView connId s.log).report connId ∧
      (connView connId s.log).websocket = (s.connIdToConnection.lookup connId).map Connection.websocket ∧
      ∃ s', s.asyncCb = some s' := by
  have hopened : Reachable _ := .tail .refl (.connection 7 [1, 2, 3, 4] rfl rfl)
  have hmessage := hopened.tail (@Step.message _ 7 ⟨7, 1, [1, 2, 3, 4]⟩ [99] rfl rfl)
  have hwaiting := hmessage.tail (.push (.send 1 [97]))
  have hclosed := hwaiting.tail (@Step.disconnection _ 7 ⟨7, 1, [1, 2, 3, 4]⟩ rfl rfl)
  have hreused := hclosed.tail (.connection 7 [5, 6, 7, 8] rfl rfl)
  have hsecond := hreused.tail (.push (.send 2 [98]))
  have hsent := hsecond.tail (.async rfl rfl)
  exact ⟨_, hsent, rfl, rfl, rfl, fun connId => connections_kept_apart hsent connId⟩

end WebsocketThread

end Strfry
