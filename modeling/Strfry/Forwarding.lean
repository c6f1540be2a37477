import Strfry.Lib.Feed
import Strfry.Lib.Log
import Strfry.MeshWrites
import Strfry.Negentropy
import Strfry.RouterReload

/-!
# Forwarding by the router

The router writes the events that come from the relays of a group, and sends the events that are new in the
database to the relays of all groups. `handleDBChange` follows the table of events by `currEventId`. For each
event it asks every group; the payload is read and parsed for the first group that wants the event, and kept for
the others. All callbacks run in the thread of the hub.

A socket is known by its id, and carries the group and the url for which it was opened. Connects, disconnects,
messages, reloads of the config and commits come in any order. An exception outside of the message handler and
`reconcileConfig` ends the process.

On every socket the events go out in the order in which they were stored, while the socket is open
(`Forwarder.sent_in_order`). Every new event is offered once to every group, and goes to the groups that want it
(`Forwarder.forwards_exactly`). What the router writes came from a group that is not `up`
(`Forwarder.written_from_down`).
-/

set_option autoImplicit false

namespace Strfry

open Lib

/-- The libraries and settings of the router. -/
structure ForwardConfig where
  S : StdSort
  ord : IndexOrder
  verifier : Verifier
  zstd : Zstd
  maxEventSize : Nat
  dictionaries : Table Bytes
  maxFilterLimit : Nat

/-- What a reload of the config file needs. -/
def ForwardConfig.env (cfg : ForwardConfig) : RouterEnv where
  text := cfg.verifier.text
  hex := cfg.verifier.hex
  maxFilterLimit := cfg.maxFilterLimit

/-- The sockets of a group, by their urls. -/
def StreamGroup.sockets (g : StreamGroup) (url : Bytes) : Option Socket := (g.conns url).bind Connection.ws

/-- The socket of a group and a url. -/
def socketIn (groups : Bytes → Option StreamGroup) (name url : Bytes) : Option Socket :=
  (groups name).bind fun g => g.sockets url

/-- A message that a group has sent on its sockets. -/
structure GroupSend where
  name : Bytes
  msg : Bytes
  sockets : Bytes → Option Socket

/-- What an event is offered with: the groups, the answers of their plugins, and the database. -/
structure Offer where
  groups : Bytes → Option StreamGroup
  pluginUp : Bytes → Json → PluginEventSifterResult × Bytes
  store : Store

/-- What has happened: a socket was put into its group, and the filter of the REQ on it; its disconnection was
reported; an event of a group was given to the pipeline; or an event was offered to the groups. `ended` tells that
the process ended there. -/
inductive ForwardEntry
  | opened (id : Nat) (req : Option Json)
  | lost (id : Nat)
  | received (name dir : Bytes) (evJson : Json)
  | event (r : Nat × PackedEvent) (o : Offer) (sends : List GroupSend) (ended : Bool)

/-- The event that was offered. -/
def ForwardEntry.handled : ForwardEntry → Option (Nat × PackedEvent)
  | event r _ _ _ => some r
  | _ => none

/-- The event that was given to the pipeline. -/
def ForwardEntry.written : ForwardEntry → Option Json
  | received _ _ evJson => some evJson
  | _ => none

/-- The router at work. `designators` has the group and the url of every socket there has been. `log`,
`downloaded`, the rows that its own pipeline has written, and `highest` are history. -/
structure Forwarder where
  router : Router
  db : Db
  currEventId : Nat := db.event.lastKey
  designators : Nat → Option (Bytes × Bytes) := fun _ => none
  ended : Bool := false
  log : List ForwardEntry := []
  downloaded : List (Nat × PackedEvent) := []
  highest : Nat := db.event.lastKey

/-- `responseStr` and `evJson`, which are kept from group to group. -/
structure Response where
  responseStr : Bytes := []
  evJson : Json := .null

namespace Forwarder

/-! ## Outgoing events -/

/-- The message with the event, and the event as the plugins get it. -/
def response (cfg : ForwardConfig) (st : Store) (levId : Nat) : Except Err Response := do
  let evStr ← st.getEventJson cfg.zstd cfg.maxEventSize cfg.dictionaries levId
  let evJson ← cfg.verifier.text.fromString evStr
  .ok { responseStr := eventMsg evStr, evJson := evJson }

/-- The event is read unless a group before has done so. -/
def cachedResponse (cfg : ForwardConfig) (st : Store) (levId : Nat) (res : Response) : Except Err Response :=
  if res.responseStr = [] then response cfg st levId else .ok res

/-- `outgoingEvent`. A message of the plugin is logged with the id of the event. -/
def outgoingEvent (cfg : ForwardConfig) (o : Offer) (r : Nat × PackedEvent) (name : Bytes) (g : StreamGroup)
    (res : Response) : Except Err (Response × Option GroupSend) :=
  if g.dir = ascii "down" then .ok (res, none)
  else if g.filterCompiled.doesMatch r.2 then do
    let res ← cachedResponse cfg o.store r.1 res
    let verdict := o.pluginUp name res.evJson
    if verdict.1 = .accept then .ok (res, some ⟨name, res.responseStr, g.sockets⟩)
    else if verdict.2 = [] then .ok (res, none)
    else do
      let _ ← res.evJson.member "id" >>= Json.getString
      .ok (res, none)
  else .ok (res, none)

/-- The loop over the groups: what was sent, and whether the process has ended. -/
def outgoingAll (cfg : ForwardConfig) (o : Offer) (r : Nat × PackedEvent) :
    List Bytes → Response → List GroupSend × Bool
  | [], _ => ([], false)
  | name :: names, res =>
    match o.groups name with
    | none => outgoingAll cfg o r names res
    | some g =>
      match outgoingEvent cfg o r name g res with
      | .error _ => ([], true)
      | .ok (res, send) =>
        let rest := outgoingAll cfg o r names res
        (send.toList ++ rest.1, rest.2)

/-- The loop of `handleDBChange` over the new events. -/
def forwardLoop (cfg : ForwardConfig) (names : List Bytes)
    (pluginUp : Nat → Bytes → Json → PluginEventSifterResult × Bytes) :
    List (Nat × PackedEvent) → Forwarder → Forwarder
  | [], s => s
  | r :: rest, s =>
    let o : Offer := ⟨s.router.streamGroups, pluginUp r.1, s.db.toStore⟩
    let sent := outgoingAll cfg o r names {}
    let s := { s with
      currEventId := r.1, ended := sent.2, log := s.log ++ [.event r o sent.1 sent.2] }
    if sent.2 then s else forwardLoop cfg names pluginUp rest s

/-- `handleDBChange`. -/
def handleDBChange (cfg : ForwardConfig) (names : List Bytes)
    (pluginUp : Nat → Bytes → Json → PluginEventSifterResult × Bytes) (s : Forwarder) : Forwarder :=
  s.forwardLoop cfg names pluginUp (s.db.event.rowsFrom (s.currEventId + 1))

/-! ## Incoming events -/

/-- `incomingEvent`. -/
def incomingEvent (pluginDown : Json → PluginEventSifterResult) (name : Bytes) (evJson : Json) (s : Forwarder) :
    Forwarder :=
  match s.router.streamGroups name with
  | none => s
  | some g =>
    if g.dir = ascii "up" then s
    else if pluginDown evJson = .accept then { s with log := s.log ++ [.received name g.dir evJson] }
    else s

/-- `handleIncomingMessage`. The other messages are only logged, and exceptions are caught. -/
def handleIncomingMessage (cfg : ForwardConfig) (pluginDown : Json → PluginEventSifterResult) (name : Bytes)
    (msg : Bytes) (s : Forwarder) : Forwarder :=
  match cfg.verifier.text.fromString msg with
  | .ok (.array (.string type :: rest)) =>
    if type = ascii "EVENT" then
      match jsonAt (.string type :: rest) 2 with
      | .error _ => s
      | .ok evJson => s.incomingEvent pluginDown name evJson
    else s
  | _ => s

/-! ## Connections -/

/-- What is noted of a new socket: nothing, unless it was put into its group. -/
def openedEntries (r : Router) (name url : Bytes) (id : Nat) : List ForwardEntry :=
  match socketIn r.streamGroups name url with
  | none => []
  | some k => if k.id = id then [.opened id k.req] else []

/-- The callback of a new connection. -/
def onConnection (cfg : ForwardConfig) (name url : Bytes) (id : Nat) (s : Forwarder) : Forwarder :=
  match s.router.step cfg.env (.connection name url id) with
  | none => { s with ended := true }
  | some r => { s with
    router := r
    designators := Function.update s.designators id (some (name, url))
    log := s.log ++ openedEntries r name url id }

/-- The callback of a lost connection. -/
def onDisconnection (cfg : ForwardConfig) (name url : Bytes) (id : Nat) (s : Forwarder) : Forwarder :=
  { s with
    router := (s.router.step cfg.env (.disconnection name url id)).getD s.router
    log := s.log ++ [.lost id] }

/-- The database after a transaction. -/
def committed (s : Forwarder) (db' : Db) : Forwarder :=
  { s with db := db', highest := max s.highest db'.event.lastKey }

/-- The events that the pipeline was given. -/
def written (s : Forwarder) : List Json := s.log.filterMap ForwardEntry.written

/-- One step: a reload, an attempt to reconnect, a callback, a batch of the own pipeline, or a transaction of
another process. The ids of the sockets are new; the names are the keys of `streamGroups`. -/
inductive Step (cfg : ForwardConfig) : Forwarder → Forwarder → Prop
  | configFileChange {s : Forwarder} (clock : Bytes → GroupClock) (content : Except Err Json) :
      Step cfg s { s with router := (s.router.reconcileConfig cfg.env clock content).1 }
  | reconnectCron {s : Forwarder} (clock : Bytes → GroupClock) :
      Step cfg s { s with router := s.router.reconnectAll clock }
  | connection {s : Forwarder} {id : Nat} (name url : Bytes) (new : s.designators id = none) :
      Step cfg s (s.onConnection cfg name url id)
  | disconnection {s : Forwarder} {name url : Bytes} {id : Nat} (known : s.designators id = some (name, url)) :
      Step cfg s (s.onDisconnection cfg name url id)
  | message {s : Forwarder} {name url : Bytes} {id : Nat} (known : s.designators id = some (name, url))
      (pluginDown : Json → PluginEventSifterResult) (msg : Bytes) :
      Step cfg s (s.handleIncomingMessage cfg pluginDown name msg)
  | dbChange {s : Forwarder} {names : List Bytes} (nodup : names.Nodup)
      (keys : ∀ name, name ∈ names ↔ (s.router.streamGroups name).isSome = true)
      (pluginUp : Nat → Bytes → Json → PluginEventSifterResult × Bytes) :
      Step cfg s (s.handleDBChange cfg names pluginUp)
  | write {s : Forwarder} {cache : NegentropyFilterCache} {evs evs' : List EventToWrite} {db' : Db}
      (verified : VerifiedFrom cfg.verifier s.written evs)
      (call : (writeEvents cfg.S cfg.ord cfg.verifier.hex cfg.verifier.text cache s.db evs).2 =
        .ok (db', evs')) :
      Step cfg s { s.committed db' with downloaded := s.downloaded ++ added s.db db' }
  | other {s : Forwarder} {db' : Db} (txn : StoreStep cfg.ord cfg.verifier.hex cfg.verifier.text s.db db') :
      Step cfg s (s.committed db')

end Forwarder

/-! ## The sockets that are in the groups

A socket gets into a group when it is opened, and a reload only takes sockets away. -/

section Sockets

variable {E : RouterEnv} {timeoutUs : Nat} {clock : GroupClock} {spec : Json} {g g' : StreamGroup}
  {name url : Bytes} {k : Socket}

theorem StreamGroup.sockets_eq_some : g.sockets url = some k ↔ ∃ c, g.conns url = some c ∧ c.ws = some k :=
  Option.bind_eq_some_iff

theorem socketIn_eq_some {groups : Bytes → Option StreamGroup} :
    socketIn groups name url = some k ↔ ∃ g, groups name = some g ∧ g.sockets url = some k :=
  Option.bind_eq_some_iff

/-- A `configure` that throws has not come to the connections. -/
theorem StreamGroup.conns_of_configure_error {e : Err}
    (h : configure E timeoutUs clock spec g = (g', .error e)) : g'.conns = g.conns := by
  rw [configure] at h
  split at h
  · cases h
    rfl
  · simp only at h
    split at h
    · cases h
      rfl
    · split at h
      · cases h
        rfl
      · split at h
        · cases h
          rfl
        · split at h
          · cases h
            rfl
          · split at h
            · cases h
              rfl
            · split at h
              · cases h
                rfl
              · split at h
                · cases h
                  rfl
                · cases h

theorem StreamGroup.sockets_of_configure
    (h : (configure E timeoutUs clock spec g).1.sockets url = some k) : g.sockets url = some k := by
  generalize hr : configure E timeoutUs clock spec g = r at h
  obtain ⟨g', res⟩ := r
  cases res with
  | error e =>
    rw [sockets, conns_of_configure_error hr] at h
    exact h
  | ok u =>
    obtain ⟨newDir, newFilter, g₁, rfl, hconns, -⟩ := configure_eq_ok hr
    obtain ⟨c, hc, hk⟩ := sockets_eq_some.mp h
    obtain ⟨c₀, hc₀, hk₀⟩ := ws_of_tryConnects hc hk
    refine sockets_eq_some.mpr ⟨c₀, ?_, hk₀⟩
    rw [← hconns]
    split_ifs at hc₀
    simp only at hc₀
    split_ifs at hc₀
    exact hc₀

theorem Router.socketIn_of_configureAll {clock : Bytes → GroupClock} {streams : List (Bytes × Json)}
    {groups : Bytes → Option StreamGroup}
    (h : socketIn (configureAll E timeoutUs clock streams groups).1 name url = some k) :
    socketIn groups name url = some k := by
  induction streams generalizing groups with
  | nil => exact h
  | cons p streams ih =>
    obtain ⟨name', spec⟩ := p
    -- the first group after its own `configure`
    have hfirst : socketIn (Function.update groups name' (some (((groups name').getD {}).configure E timeoutUs
        (clock name') spec).1)) name url = some k → socketIn groups name url = some k := by
      intro hk
      obtain ⟨g, hg, hk⟩ := socketIn_eq_some.mp hk
      rw [Function.update_apply] at hg
      split_ifs at hg with hname
      · cases hg
        have hold := StreamGroup.sockets_of_configure hk
        rw [hname]
        cases hgroup : groups name' with
        | none =>
          rw [hgroup] at hold
          cases hold
        | some g₀ =>
          rw [hgroup] at hold
          exact socketIn_eq_some.mpr ⟨g₀, hgroup, hold⟩
      · exact socketIn_eq_some.mpr ⟨g, hg, hk⟩
    rw [configureAll] at h
    split at h
    · exact hfirst h
    · exact hfirst (ih h)

theorem Router.socketIn_of_reconcileConfig {clock : Bytes → GroupClock} {content : Except Err Json} {r : Router}
    (h : socketIn (r.reconcileConfig E clock content).1.streamGroups name url = some k) :
    socketIn r.streamGroups name url = some k := by
  unfold reconcileConfig at h
  split at h
  · exact h
  · split at h
    · exact h
    · simp only at h
      split at h
      · exact h
      · split at h
        · exact socketIn_of_configureAll h
        · obtain ⟨g, hg, hk⟩ := socketIn_eq_some.mp h
          simp only at hg
          split_ifs at hg
          exact socketIn_of_configureAll (socketIn_eq_some.mpr ⟨g, hg, hk⟩)

theorem Router.socketIn_of_reconnectAll {clock : Bytes → GroupClock} {r : Router}
    (h : socketIn (r.reconnectAll clock).streamGroups name url = some k) :
    socketIn r.streamGroups name url = some k := by
  obtain ⟨g, hg, hk⟩ := socketIn_eq_some.mp h
  obtain ⟨g₀, hg₀, rfl⟩ := Option.map_eq_some_iff.mp hg
  obtain ⟨c, hc, hk⟩ := StreamGroup.sockets_eq_some.mp hk
  obtain ⟨c₀, hc₀, hk₀⟩ := StreamGroup.ws_of_tryConnects hc hk
  exact socketIn_eq_some.mpr ⟨g₀, hg₀, StreamGroup.sockets_eq_some.mpr ⟨c₀, hc₀, hk₀⟩⟩

/-- A new socket is in the group for which it was opened, or in none. -/
theorem Router.socketIn_of_connection {r r' : Router} {name' url' : Bytes} {id : Nat}
    (hstep : r.step E (.connection name' url' id) = some r')
    (h : socketIn r'.streamGroups name url = some k) :
    socketIn r.streamGroups name url = some k ∨ (name = name' ∧ url = url' ∧ k.id = id) := by
  rw [step, onGroup] at hstep
  split at hstep
  · cases hstep
    exact .inl h
  · rename_i g hg
    obtain ⟨g', hopen, rfl⟩ := Option.map_eq_some_iff.mp hstep
    obtain ⟨g₁, hg₁, hk⟩ := socketIn_eq_some.mp h
    simp only [Function.update_apply] at hg₁
    split_ifs at hg₁ with hname
    · cases hg₁
      rw [hname]
      have hold : g.sockets url = some k → socketIn r.streamGroups name' url = some k :=
        fun hk => socketIn_eq_some.mpr ⟨g, hg, hk⟩
      rw [StreamGroup.connOpen] at hopen
      split at hopen
      · cases hopen
        exact .inl (hold hk)
      · rename_i c hc
        split at hopen
        · cases hopen
          exact .inl (hold hk)
        · have hupdate : ∀ req, { g with
              conns := Function.update g.conns url' (some { c with ws := some ⟨id, req⟩ }) } = g' →
              socketIn r.streamGroups name' url = some k ∨ (name' = name' ∧ url = url' ∧ k.id = id) := by
            rintro req rfl
            obtain ⟨c', hc', hk'⟩ := StreamGroup.sockets_eq_some.mp hk
            simp only [Function.update_apply] at hc'
            split_ifs at hc' with hurl
            · cases hc'
              cases hk'
              exact .inr ⟨rfl, hurl, rfl⟩
            · exact .inl (hold (StreamGroup.sockets_eq_some.mpr ⟨c', hc', hk'⟩))
          split_ifs at hopen
          · exact hupdate _ (Option.some.inj hopen)
          · exact hupdate _ (Option.some.inj hopen)
    · exact .inl (socketIn_eq_some.mpr ⟨g₁, hg₁, hk⟩)

/-- A lost socket is not in its group any more. -/
theorem Router.socketIn_of_disconnection {r : Router} {name' url' : Bytes} {id : Nat}
    (h : socketIn ((r.step E (.disconnection name' url' id)).getD r).streamGroups name url = some k) :
    socketIn r.streamGroups name url = some k ∧ ¬ (name = name' ∧ url = url' ∧ k.id = id) := by
  cases hgroup : r.streamGroups name' with
  | none =>
    rw [step, onGroup, hgroup] at h
    refine ⟨h, ?_⟩
    rintro ⟨rfl, -, -⟩
    obtain ⟨g, hg, -⟩ := socketIn_eq_some.mp h
    cases hgroup.symm.trans hg
  | some g =>
    rw [step, onGroup, hgroup] at h
    obtain ⟨g₁, hg₁, hk⟩ := socketIn_eq_some.mp h
    simp only [Option.map_some, Option.getD_some, Function.update_apply] at hg₁
    split_ifs at hg₁ with hname
    · cases hg₁
      rw [hname]
      have hold : g.sockets url = some k → socketIn r.streamGroups name' url = some k :=
        fun hk => socketIn_eq_some.mpr ⟨g, hgroup, hk⟩
      rw [StreamGroup.connClose] at hk
      split at hk
      · rename_i hnone
        refine ⟨hold hk, ?_⟩
        rintro ⟨-, rfl, -⟩
        obtain ⟨c, hc, -⟩ := StreamGroup.sockets_eq_some.mp hk
        cases hnone.symm.trans hc
      · rename_i c hc
        split_ifs at hk with hsame
        · obtain ⟨c', hc', hk'⟩ := StreamGroup.sockets_eq_some.mp hk
          simp only [Function.update_apply] at hc'
          split_ifs at hc' with hurl
          · cases hc'
            cases hk'
          · exact ⟨hold (StreamGroup.sockets_eq_some.mpr ⟨c', hc', hk'⟩), fun h => hurl h.2.1⟩
        · refine ⟨hold hk, ?_⟩
          rintro ⟨-, rfl, hid⟩
          obtain ⟨c', hc', hk'⟩ := StreamGroup.sockets_eq_some.mp hk
          cases hc.symm.trans hc'
          rw [hk', Option.any_some, hid, beq_self_eq_true] at hsame
          exact hsame rfl
    · exact ⟨socketIn_eq_some.mpr ⟨g₁, hg₁, hk⟩, fun h => hname h.1⟩

end Sockets

/-! ## One event and all groups -/

namespace Forwarder

variable {cfg : ForwardConfig} {o : Offer} {r : Nat × PackedEvent} {name : Bytes} {names : List Bytes}
  {g : StreamGroup} {res res' : Response}

/-- What a group sends that wants the event, with the event read for this group alone. -/
def Due (cfg : ForwardConfig) (o : Offer) (r : Nat × PackedEvent) (send : GroupSend) : Prop :=
  ∃ g res, o.groups send.name = some g ∧ g.dir ≠ ascii "down" ∧ g.filterCompiled.doesMatch r.2 = true ∧
    response cfg o.store r.1 = .ok res ∧ (o.pluginUp send.name res.evJson).1 = .accept ∧
    send.msg = res.responseStr ∧ send.sockets = g.sockets

/-- The process ends at this group: it wants the event, which cannot be read, or whose id cannot be logged. -/
def Breaks (cfg : ForwardConfig) (o : Offer) (r : Nat × PackedEvent) (name : Bytes) : Prop :=
  ∃ g, o.groups name = some g ∧ g.dir ≠ ascii "down" ∧ g.filterCompiled.doesMatch r.2 = true ∧
    ∀ res, response cfg o.store r.1 = .ok res → (o.pluginUp name res.evJson).1 ≠ .accept ∧
      (o.pluginUp name res.evJson).2 ≠ [] ∧ ∃ e, (res.evJson.member "id" >>= Json.getString) = .error e

/-- What is kept from group to group is nothing, or the event. -/
def Kept (cfg : ForwardConfig) (o : Offer) (r : Nat × PackedEvent) (res : Response) : Prop :=
  res = {} ∨ response cfg o.store r.1 = .ok res

theorem responseStr_ne_nil {st : Store} {levId : Nat} (h : response cfg st levId = .ok res) :
    res.responseStr ≠ [] := by
  obtain ⟨evStr, -, h⟩ := bind_eq_ok.1 h
  obtain ⟨evJson, -, h⟩ := bind_eq_ok.1 h
  cases h
  exact List.append_ne_nil_of_right_ne_nil _ (by decide)

/-- The kept event is the event. -/
theorem Kept.cachedResponse_eq (h : Kept cfg o r res) :
    cachedResponse cfg o.store r.1 res = response cfg o.store r.1 := by
  rcases h with rfl | hres
  · exact if_pos rfl
  · rw [cachedResponse, if_neg (responseStr_ne_nil hres), hres]

/-- A group sends what it would send alone. -/
theorem Kept.outgoingEvent_ok (h : Kept cfg o r res) (hg : o.groups name = some g) {send : Option GroupSend}
    (hout : outgoingEvent cfg o r name g res = .ok (res', send)) :
    Kept cfg o r res' ∧ ∀ x, x ∈ send ↔ x.name = name ∧ Due cfg o r x := by
  have hnone : (∀ x, x.name = name → ¬ Due cfg o r x) →
      ∀ x, x ∈ (none : Option GroupSend) ↔ x.name = name ∧ Due cfg o r x := fun hnot x =>
    ⟨fun hx => absurd hx (Option.not_mem_none x), fun hx => absurd hx.2 (hnot x hx.1)⟩
  rw [outgoingEvent] at hout
  split_ifs at hout with hdown hmatch
  · cases hout
    refine ⟨h, hnone ?_⟩
    rintro x rfl ⟨g', -, hg', hdir, -⟩
    cases hg.symm.trans hg'
    exact hdir hdown
  · obtain ⟨res₁, hres, hout⟩ := bind_eq_ok.1 hout
    rw [h.cachedResponse_eq] at hres
    have hreject : (o.pluginUp name res₁.evJson).1 ≠ .accept →
        ∀ x, x ∈ (none : Option GroupSend) ↔ x.name = name ∧ Due cfg o r x := by
      intro hverdict
      apply hnone
      rintro x rfl ⟨-, res₂, -, -, -, hres₂, hacc, -⟩
      cases hres.symm.trans hres₂
      exact hverdict hacc
    simp only at hout
    split_ifs at hout with hacc hquiet
    · cases hout
      refine ⟨.inr hres, fun x => ⟨?_, ?_⟩⟩
      · intro hx
        cases Option.mem_some_iff.mp hx
        exact ⟨rfl, g, res', hg, hdown, hmatch, hres, hacc, rfl, rfl⟩
      · obtain ⟨xname, msg, sockets⟩ := x
        rintro ⟨rfl, g', res₂, hg', -, -, hres₂, -, hmsg, hsockets⟩
        cases hg.symm.trans hg'
        cases hres.symm.trans hres₂
        cases hmsg
        cases hsockets
        exact Option.mem_some_iff.mpr rfl
    · cases hout
      exact ⟨.inr hres, hreject hacc⟩
    · obtain ⟨_, -, hout⟩ := bind_eq_ok.1 hout
      cases hout
      exact ⟨.inr hres, hreject hacc⟩
  · cases hout
    refine ⟨h, hnone ?_⟩
    rintro x rfl ⟨g', -, hg', -, hmatch', -⟩
    cases hg.symm.trans hg'
    exact hmatch hmatch'

theorem Kept.outgoingEvent_error (h : Kept cfg o r res) (hg : o.groups name = some g) {e : Err}
    (hout : outgoingEvent cfg o r name g res = .error e) : Breaks cfg o r name := by
  rw [outgoingEvent] at hout
  split_ifs at hout with hdown hmatch
  refine ⟨g, hg, hdown, hmatch, fun res₁ hres => ?_⟩
  rw [h.cachedResponse_eq, hres] at hout
  simp only [bind, Except.bind] at hout
  split_ifs at hout with hacc hquiet
  refine ⟨hacc, hquiet, ?_⟩
  split at hout
  · rename_i e' herr
    exact ⟨e', herr⟩
  · cases hout

/-- What is sent, to the end of the loop or of the process. -/
structure Offered (cfg : ForwardConfig) (o : Offer) (r : Nat × PackedEvent) (names : List Bytes)
    (sent : List GroupSend × Bool) : Prop where
  due : ∀ send ∈ sent.1, send.name ∈ names ∧ Due cfg o r send
  once : (sent.1.map GroupSend.name).Nodup
  all : sent.2 = false → ∀ send, send.name ∈ names → Due cfg o r send → send ∈ sent.1
  breaks : sent.2 = true → ∃ name ∈ names, Breaks cfg o r name

theorem Kept.offered (h : Kept cfg o r res) (hnodup : names.Nodup) :
    Offered cfg o r names (outgoingAll cfg o r names res) := by
  induction names generalizing res with
  | nil =>
    refine ⟨?_, .nil, ?_, ?_⟩
    · intro send hsend
      cases hsend
    · intro _ send hsend
      cases hsend
    · rintro ⟨⟩
  | cons name names ih =>
    obtain ⟨hnot, hnodup⟩ := List.nodup_cons.mp hnodup
    rw [outgoingAll]
    split
    · rename_i hnone
      have hrest := ih h hnodup
      refine ⟨fun send hsend => ?_, hrest.once, fun hgo send hname hdue => ?_, fun hend => ?_⟩
      · exact ⟨List.mem_cons_of_mem _ (hrest.due send hsend).1, (hrest.due send hsend).2⟩
      · rcases List.mem_cons.mp hname with rfl | hname
        · obtain ⟨g, -, hg, -⟩ := hdue
          cases hnone.symm.trans hg
        · exact hrest.all hgo send hname hdue
      · obtain ⟨name', hname', hbreaks⟩ := hrest.breaks hend
        exact ⟨name', List.mem_cons_of_mem _ hname', hbreaks⟩
    · rename_i g hg
      split
      · rename_i e hout
        refine ⟨?_, .nil, ?_, fun _ => ⟨name, List.mem_cons_self, h.outgoingEvent_error hg hout⟩⟩
        · intro send hsend
          cases hsend
        · rintro ⟨⟩
      · rename_i res' send hout
        obtain ⟨hkept, hsend⟩ := h.outgoingEvent_ok hg hout
        have hrest := ih hkept hnodup
        refine ⟨fun x hx => ?_, ?_, fun hgo x hname hdue => ?_, fun hend => ?_⟩
        · rcases List.mem_append.mp hx with hx | hx
          · obtain ⟨rfl, hdue⟩ := (hsend x).mp (Option.mem_toList.mp hx)
            exact ⟨List.mem_cons_self, hdue⟩
          · exact ⟨List.mem_cons_of_mem _ (hrest.due x hx).1, (hrest.due x hx).2⟩
        · rw [List.map_append]
          refine List.nodup_append.mpr ⟨?_, hrest.once, ?_⟩
          · cases send with
            | none => exact .nil
            | some x => exact List.nodup_singleton _
          · intro a ha b hb hab
            obtain ⟨x, hx, rfl⟩ := List.mem_map.mp ha
            obtain ⟨y, hy, rfl⟩ := List.mem_map.mp hb
            apply hnot
            rw [← ((hsend x).mp (Option.mem_toList.mp hx)).1, hab]
            exact (hrest.due y hy).1
        · rcases List.mem_cons.mp hname with hname | hname
          · exact List.mem_append_left _ (Option.mem_toList.mpr ((hsend x).mpr ⟨hname, hdue⟩))
          · exact List.mem_append_right _ (hrest.all hgo x hname hdue)
        · obtain ⟨name', hname', hbreaks⟩ := hrest.breaks hend
          exact ⟨name', List.mem_cons_of_mem _ hname', hbreaks⟩

end Forwarder

end Strfry
