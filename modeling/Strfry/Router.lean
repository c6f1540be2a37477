import Strfry.Filters

/-!
# The router

`Router` keeps a group of connections for every stream of its config file. `reconcileConfig` reads the file
and configures the groups one after the other; `configure` assigns the fields of a group one after the
other, and what was assigned before an exception stays. The definitions here return the state together with
the exception, so that such states are visible.

A `std::map` is the function of its lookups. A value of the config file has the type `Json`; the file is
given by what `loadRawTaoConfig` makes of it. A socket carries the filter that its REQ was sent with, which
is history. The readings of the clock are given with each step, for every group and position in `urls`.
-/

set_option autoImplicit false

namespace Strfry

open Lib

/-- A websocket, and the filter of the REQ that was sent on it. -/
structure Socket where
  id : Nat
  req : Option Json

/-- `StreamGroup::Connection`. -/
structure Connection where
  ws : Option Socket := none
  started : Nat := 0

/-- `Router::StreamGroup`. -/
structure StreamGroup where
  dir : Bytes := []
  filterStr : Bytes := []
  pluginDownCmd : Bytes := []
  pluginUpCmd : Bytes := []
  urls : List Bytes := []
  conns : Bytes → Option Connection := fun _ => none
  filter : Json := .null
  filterCompiled : NostrFilterGroup := ⟨[], NostrFilterGroup.noFilters_wf⟩

/-- `Router`: its settings and groups. -/
structure Router where
  connectionTimeoutUs : Nat := 0
  streamGroups : Bytes → Option StreamGroup := fun _ => none

/-- The libraries, and `relay__maxFilterLimit`. -/
structure RouterEnv where
  text : JsonText
  hex : HexCodec
  maxFilterLimit : Nat

/-- The clock as a group reads it: before and after a connection attempt, by position in `urls`. -/
abbrev GroupClock := Nat → Nat × Nat

/-- `get_object`. -/
def Json.getObject : Json → Except Err (List (Bytes × Json))
  | .object kvs => .ok kvs
  | _ => .error .badJson

namespace StreamGroup

variable (E : RouterEnv)

/-- The field `dir`. -/
def readDir (spec : Json) : Except Err Bytes :=
  match spec.find? "dir" with
  | none => .error (.herr "no dir field")
  | some v => v.getString

/-- The field `filter`, by way of its text. -/
def readFilter (spec : Json) : Except Err Json :=
  match spec.find? "filter" with
  | none => .ok (.object [])
  | some v => E.text.fromString (E.text.toString v)

/-- The command of a plugin, empty if there is none. -/
def readPlugin (spec : Json) (field : String) : Except Err Bytes :=
  match spec.find? field with
  | none => .ok []
  | some v => v.getString

/-- The loop over `urls`: what has been pushed when it ends or throws. -/
def readUrls : List Json → List Bytes × Except Err Unit
  | [] => ([], .ok ())
  | v :: vs =>
    match v.getString with
    | .error e => ([], .error e)
    | .ok url =>
      let r := readUrls vs
      (url :: r.1, r.2)

/-- A connection may be attempted. -/
def due (timeoutUs now : Nat) (c : Connection) : Bool :=
  c.ws.isNone && decide ((c.started + timeoutUs * 2) % 2 ^ 64 < now)

/-- `tryConnects` for the urls from the position `i` on. -/
def tryConnects (timeoutUs : Nat) (clock : GroupClock) :
    Nat → List Bytes → (Bytes → Option Connection) → (Bytes → Option Connection)
  | _, [], conns => conns
  | i, url :: urls, conns =>
    let c := (conns url).getD {}
    let c := if due timeoutUs (clock i).1 c then { c with started := (clock i).2 } else c
    tryConnects timeoutUs clock (i + 1) urls (Function.update conns url (some c))

/-- The end of `configure`: connections to other urls are closed, and all of them if the direction or the
filter has changed. -/
def reconnect (timeoutUs : Nat) (clock : GroupClock) (needsReconnect : Bool) (g : StreamGroup) :
    StreamGroup :=
  let conns := fun url => if url ∈ g.urls then g.conns url else none
  let conns := if needsReconnect then fun _ => none else conns
  { g with conns := tryConnects timeoutUs clock 0 g.urls conns }

/-- `StreamGroup::configure`. -/
def configure (timeoutUs : Nat) (clock : GroupClock) (spec : Json) (g : StreamGroup) :
    StreamGroup × Except Err Unit :=
  match readDir spec with
  | .error e => (g, .error e)
  | .ok newDir =>
    let needsReconnect := newDir != g.dir
    let g := { g with dir := newDir }
    match readFilter E spec with
    | .error e => (g, .error e)
    | .ok newFilter =>
      let newFilterStr := E.text.toString newFilter
      let needsReconnect := needsReconnect || newFilterStr != g.filterStr
      let g := { g with filterStr := newFilterStr }
      match NostrFilterGroup.unwrapped E.hex newFilter E.maxFilterLimit with
      | .error e => (g, .error e)
      | .ok filterCompiled =>
        let g := { g with filterCompiled := filterCompiled, filter := newFilter }
        let g := { g with pluginDownCmd := [], pluginUpCmd := [] }
        match readPlugin spec "pluginDown" with
        | .error e => (g, .error e)
        | .ok pluginDownCmd =>
          let g := { g with pluginDownCmd := pluginDownCmd }
          match readPlugin spec "pluginUp" with
          | .error e => (g, .error e)
          | .ok pluginUpCmd =>
            let g := { g with pluginUpCmd := pluginUpCmd }
            match spec.find? "urls" with
            | none => (g, .error (.herr "no urls field"))
            | some v =>
              let g := { g with urls := [] }
              match v.getArray with
              | .error e => (g, .error e)
              | .ok vs =>
                let g := { g with urls := (readUrls vs).1 }
                match (readUrls vs).2 with
                | .error e => (g, .error e)
                | .ok () => (reconnect timeoutUs clock needsReconnect g, .ok ())

/-- The directions in which a group asks for events. -/
def asks (g : StreamGroup) : Bool := g.dir == ascii "down" || g.dir == ascii "both"

/-- `connOpen`. A filter that is no object takes no `limit`, and the exception ends the process. -/
def connOpen (g : StreamGroup) (url : Bytes) (id : Nat) : Option StreamGroup :=
  match g.conns url with
  | none => some g
  | some c =>
    match c.ws with
    | some _ => some g
    | none =>
      let opened := fun req =>
        { g with conns := Function.update g.conns url (some { c with ws := some ⟨id, req⟩ }) }
      if g.asks then
        if g.filter.isObject then some (opened (some g.filter)) else none
      else some (opened none)

/-- `connClose`. -/
def connClose (g : StreamGroup) (url : Bytes) (id : Nat) : StreamGroup :=
  match g.conns url with
  | none => g
  | some c =>
    if c.ws.any fun k => k.id == id then { g with conns := Function.update g.conns url (some {}) } else g

end StreamGroup

namespace Router

variable (E : RouterEnv)

/-- The new connection timeout. -/
def readTimeout (config : Json) : Except Err Nat := do
  let kvs ← config.getObject
  match kvs.lookup (ascii "connectionTimeout") with
  | none => .ok 20000000
  | some v =>
    let seconds ← v.getUnsigned
    .ok (seconds.toNat * 1000000 % 2 ^ 64)

/-- The loop over the streams. -/
def configureAll (timeoutUs : Nat) (clock : Bytes → GroupClock) :
    List (Bytes × Json) → (Bytes → Option StreamGroup) →
      (Bytes → Option StreamGroup) × Except Err Unit
  | [], groups => (groups, .ok ())
  | (name, spec) :: rest, groups =>
    let r := ((groups name).getD {}).configure E timeoutUs (clock name) spec
    let groups := Function.update groups name (some r.1)
    match r.2 with
    | .error e => (groups, .error e)
    | .ok () => configureAll timeoutUs clock rest groups

/-- `reconcileConfig` on the content of the file. -/
def reconcileConfig (clock : Bytes → GroupClock) (content : Except Err Json) (r : Router) :
    Router × Except Err Unit :=
  match content with
  | .error e => (r, .error e)
  | .ok config =>
    match readTimeout config with
    | .error e => (r, .error e)
    | .ok newTimeoutUs =>
      let r := { r with connectionTimeoutUs := newTimeoutUs }
      match config.member "streams" >>= Json.getObject with
      | .error e => (r, .error e)
      | .ok streams =>
        let c := configureAll E newTimeoutUs clock streams r.streamGroups
        let r := { r with streamGroups := c.1 }
        match c.2 with
        | .error e => (r, .error e)
        | .ok () =>
          let needed := fun name => streams.any fun p => p.1 == name
          let kept := fun name => if needed name then r.streamGroups name else none
          ({ r with streamGroups := kept }, .ok ())

/-- What the router reacts to. -/
inductive Action
  | configFileChange (clock : Bytes → GroupClock) (content : Except Err Json)
  | connection (name url : Bytes) (id : Nat)
  | disconnection (name url : Bytes) (id : Nat)
  | reconnectCron (clock : Bytes → GroupClock)

/-- A change to one group, if there is such a group. -/
def onGroup (r : Router) (name : Bytes) (f : StreamGroup → Option StreamGroup) : Option Router :=
  match r.streamGroups name with
  | none => some r
  | some g => (f g).map fun g' => { r with streamGroups := Function.update r.streamGroups name (some g') }

/-- `tryConnects` in every group. -/
def reconnectAll (r : Router) (clock : Bytes → GroupClock) : Router :=
  let again := fun name (g : StreamGroup) =>
    { g with conns := StreamGroup.tryConnects r.connectionTimeoutUs (clock name) 0 g.urls g.conns }
  { r with streamGroups := fun name => (r.streamGroups name).map (again name) }

/-- The reaction, unless the process ends. -/
def step (r : Router) : Action → Option Router
  | .configFileChange clock content => some (r.reconcileConfig E clock content).1
  | .connection name url id => r.onGroup name fun g => g.connOpen url id
  | .disconnection name url id => r.onGroup name fun g => some (g.connClose url id)
  | .reconnectCron clock => some (r.reconnectAll clock)

end Router

end Strfry
