import Strfry.DBQuery
import Strfry.Lib.Map

/-!
# Live subscriptions

`ActiveMonitors` holds the subscriptions that wait for new events. A filter is entered into one of
five lookup tables under the keys of its first applicable field, and `process` looks an event up
under each of its own keys.

A `Monitor` is a node of the hash map of its connection. Here the nodes are kept in `monitors`
under their addresses, and the tables hold these addresses; a pointer that leads nowhere is `none`.
The address of a new node is up to the allocator, so it is an argument of `addSub`. Hash maps are
association lists: only their lookups matter below, not the order in which they are walked.
-/

set_option autoImplicit false

namespace Strfry

open Lib

/-- `Monitor *`. -/
abbrev MonitorPtr := Nat

/-- `NostrFilter *`: an element of the filter vector of a monitor. -/
structure FilterPtr where
  mon : MonitorPtr
  index : Nat
  deriving DecidableEq

/-- `MonitorItem`. -/
structure MonitorItem where
  mon : MonitorPtr
  latestEventId : Nat
  deriving DecidableEq

/-- `MonitorSet`. -/
abbrev MonitorSet := Map FilterPtr MonitorItem

/-- The nodes of all `ConnMonitor`s. -/
abbrev Monitors := Map MonitorPtr Subscription

/-- A lookup table with a key in it. -/
inductive LookupKey
  | id (id : Bytes)
  | author (pubkey : Bytes)
  | tag (tagSpec : Bytes)
  | kind (kind : Nat)
  | other
  deriving DecidableEq

/-- `getTagSpec`. -/
def getTagSpec (k : UInt8) (val : Bytes) : Bytes := k :: val

/-- The table and the keys that `installLookups` and `uninstallLookups` use for a filter. -/
def NostrFilter.lookupKeys (f : NostrFilter) : List LookupKey :=
  match f.ids with
  | some ids => ids.elems.map .id
  | none =>
    match f.authors with
    | some authors => authors.elems.map .author
    | none =>
      if f.tags.length ≠ 0 then
        f.tags.flatMap fun t => t.2.elems.map fun v => .tag (getTagSpec t.1 v)
      else
        match f.kinds with
        | some kinds => kinds.items.map .kind
        | none => [.other]

/-- The keys under which `process` looks an event up, in the order of the source. -/
def PackedEvent.lookupKeys (ev : PackedEvent) : List LookupKey :=
  .id ev.id :: .author ev.pubkey ::
    (ev.tags.map (fun t => .tag (getTagSpec t.1 t.2)) ++ [.kind ev.kind, .other])

/-! ## Lookup tables -/

/-- The five lookup tables. -/
structure LookupTables where
  allIds : Map Bytes MonitorSet := ∅
  allAuthors : Map Bytes MonitorSet := ∅
  allTags : Map Bytes MonitorSet := ∅
  allKinds : Map Nat MonitorSet := ∅
  allOthers : MonitorSet := ∅

namespace LookupTables

/-- The monitor set under a key. -/
def get? (t : LookupTables) : LookupKey → Option MonitorSet
  | .id b => t.allIds.lookup b
  | .author b => t.allAuthors.lookup b
  | .tag b => t.allTags.lookup b
  | .kind n => t.allKinds.lookup n
  | .other => some t.allOthers

/-- Assignment to the monitor set under a key. -/
def put (t : LookupTables) (k : LookupKey) (ms : MonitorSet) : LookupTables :=
  match k with
  | .id b => { t with allIds := t.allIds.insert b ms }
  | .author b => { t with allAuthors := t.allAuthors.insert b ms }
  | .tag b => { t with allTags := t.allTags.insert b ms }
  | .kind n => { t with allKinds := t.allKinds.insert n ms }
  | .other => { t with allOthers := ms }

/-- The key leaves its table; the set of the other filters always stays. -/
def drop (t : LookupTables) : LookupKey → LookupTables
  | .id b => { t with allIds := t.allIds.erase b }
  | .author b => { t with allAuthors := t.allAuthors.erase b }
  | .tag b => { t with allTags := t.allTags.erase b }
  | .kind n => { t with allKinds := t.allKinds.erase n }
  | .other => t

/-- `try_emplace` of the key, and of the filter in its monitor set. -/
def emplace (t : LookupTables) (item : MonitorItem) (e : FilterPtr × LookupKey) : LookupTables :=
  t.put e.2 (((t.get? e.2).getD ∅).tryEmplace e.1 item)

/-- The filter leaves the monitor set of a key, and the key its table when the set is empty. -/
def erase (t : LookupTables) (e : FilterPtr × LookupKey) : Except Err LookupTables :=
  match t.get? e.2 with
  | none => .error .outOfRange
  | some monSet =>
    if e.2 ≠ .other ∧ (monSet.erase e.1).keys = [] then .ok (t.drop e.2)
    else .ok (t.put e.2 (monSet.erase e.1))

/-- The loops of `installLookups` and `uninstallLookups`: every filter with each of its keys. -/
def entriesOf (m : MonitorPtr) (g : NostrFilterGroup) : List (FilterPtr × LookupKey) :=
  g.filters.zipIdx.flatMap fun f => f.1.lookupKeys.map fun k => (⟨m, f.2⟩, k)

/-- `installLookups`. -/
def installLookups (t : LookupTables) (m : MonitorPtr) (g : NostrFilterGroup)
    (currEventId : Nat) : LookupTables :=
  (entriesOf m g).foldl (emplace · ⟨m, currEventId⟩) t

/-- `uninstallLookups`. -/
def uninstallLookups (t : LookupTables) (m : MonitorPtr) (g : NostrFilterGroup) :
    Except Err LookupTables :=
  (entriesOf m g).foldlM erase t

end LookupTables

/-! ## The monitors -/

/-- `ActiveMonitors`. -/
structure ActiveMonitors where
  conns : Map Nat (Map SubId MonitorPtr) := ∅
  monitors : Monitors := ∅
  tables : LookupTables := {}

/-- `RecipientList`. -/
abbrev RecipientList := List (Nat × SubId)

/-- What `process` changes outside the tables: the monitors, and the recipients found so far. -/
structure Delivery where
  monitors : Monitors
  recipients : RecipientList := []

/-- The filter that a pointer leads to. -/
def FilterPtr.deref (f : FilterPtr) (monitors : Monitors) : Option NostrFilter :=
  (monitors.lookup f.mon).bind fun sub => sub.filterGroup.filters[f.index]?

namespace ActiveMonitors

/-- `findMonitor`. -/
def findMonitor (s : ActiveMonitors) (connId : Nat) (subId : SubId) :
    Option (MonitorPtr × Subscription) :=
  (s.conns.find₂ connId subId).bind fun m => (s.monitors.lookup m).map fun sub => (m, sub)

/-- `removeSub`. -/
def removeSub (s : ActiveMonitors) (connId : Nat) (subId : SubId) : Except Err ActiveMonitors :=
  match s.findMonitor connId subId with
  | none => .ok s
  | some (m, sub) => do
    let tables ← s.tables.uninstallLookups m sub.filterGroup
    .ok
      { conns := s.conns.eraseIn connId subId
        monitors := s.monitors.erase m
        tables := tables }

/-- The loop of `closeConn` over the monitors of the connection. -/
def uninstallAll (monitors : Monitors) : List MonitorPtr → LookupTables → Except Err LookupTables
  | [], t => .ok t
  | m :: ms, t =>
    match monitors.lookup m with
    | none => .error .outOfRange
    | some sub =>
      match t.uninstallLookups m sub.filterGroup with
      | .error e => .error e
      | .ok t' => uninstallAll monitors ms t'

/-- `closeConn`. -/
def closeConn (s : ActiveMonitors) (connId : Nat) : Except Err ActiveMonitors :=
  match s.conns.lookup connId with
  | none => .ok s
  | some connMonitors => do
    let ms := connMonitors.entries.map Sigma.snd
    let tables ← uninstallAll s.monitors ms s.tables
    .ok
      { conns := s.conns.erase connId
        monitors := ms.foldl (fun monitors m => monitors.erase m) s.monitors
        tables := tables }

/-- The subscription that a new one with the same id replaces is removed. -/
def removeExisting (s : ActiveMonitors) (connId : Nat) (subId : SubId) :
    Except Err ActiveMonitors :=
  if (s.findMonitor connId subId).isSome then s.removeSub connId subId else .ok s

/-- `addSub`, with the address `m` of the new monitor. -/
def addSub (maxSubsPerConnection : Nat) (s : ActiveMonitors) (m : MonitorPtr) (sub : Subscription)
    (currEventId : Nat) : Except Err (Bool × ActiveMonitors) :=
  if sub.latestEventId ≠ currEventId then .error (.herr "sub not up to date")
  else do
    let s ← s.removeExisting sub.connId sub.subId
    let conns := s.conns.tryEmplace sub.connId ∅
    if Map.size ((conns.lookup sub.connId).getD ∅) ≥ maxSubsPerConnection then
      .ok (false, { s with conns := conns })
    else
      .ok (true,
        { conns := conns.emplaceIn sub.connId sub.subId m
          monitors := s.monitors.insert m sub
          tables := s.tables.installLookups m sub.filterGroup currEventId })

/-! ## Delivery of an event -/

/-- An iteration of `processMonitorSet`. -/
def processItem (levId : Nat) (ev : PackedEvent) (f : FilterPtr) (item : MonitorItem)
    (d : Delivery) : Option (MonitorItem × Delivery) :=
  if levId ≤ item.latestEventId then some (item, d)
  else
    match d.monitors.lookup item.mon with
    | none => none
    | some sub =>
      if (levId : WithTop Nat) ≤ sub.latestEventId then some (item, d)
      else
        match f.deref d.monitors with
        | none => none
        | some filter =>
          if filter.doesMatch ev then
            some ({ item with latestEventId := levId },
              { monitors := d.monitors.insert item.mon { sub with latestEventId := levId }
                recipients := d.recipients ++ [(sub.connId, sub.subId)] })
          else some ({ item with latestEventId := levId }, d)

/-- The loop of `processMonitorSet` over the filters of the set. -/
def processItems (levId : Nat) (ev : PackedEvent) :
    List FilterPtr → MonitorSet → Delivery → Option (MonitorSet × Delivery)
  | [], ms, d => some (ms, d)
  | f :: fs, ms, d =>
    match ms.lookup f with
    | none => none
    | some item =>
      match processItem levId ev f item d with
      | none => none
      | some (item', d') => processItems levId ev fs (ms.insert f item') d'

/-- `processMonitorSet`. -/
def processMonitorSet (levId : Nat) (ev : PackedEvent) (ms : MonitorSet) (d : Delivery) :
    Option (MonitorSet × Delivery) :=
  processItems levId ev ms.keys ms d

/-- The loop of `processMonitorsExact` over the keys it visits. -/
def processWalk {K : Type} [DecidableEq K] (levId : Nat) (ev : PackedEvent) :
    List K → Map K MonitorSet → Delivery → Option (Map K MonitorSet × Delivery)
  | [], table, d => some (table, d)
  | k :: ks, table, d =>
    match table.lookup k with
    | none => none
    | some ms =>
      match processMonitorSet levId ev ms d with
      | none => none
      | some (ms', d') => processWalk levId ev ks (table.insert k ms') d'

/-- `processMonitorsExact`: down from the upper bound of the key, as long as the key matches. -/
def processMonitorsExact {K : Type} [LinearOrder K] [DecidableEq K] (levId : Nat)
    (ev : PackedEvent) (table : Map K MonitorSet) (key : K) (d : Delivery) :
    Option (Map K MonitorSet × Delivery) :=
  processWalk levId ev ((table.downFrom key).takeWhile (· == key)) table d

/-- One lookup of `process`. -/
def processKey (levId : Nat) (ev : PackedEvent) (k : LookupKey) (t : LookupTables) (d : Delivery) :
    Option (LookupTables × Delivery) :=
  match k with
  | .id b => (processMonitorsExact levId ev t.allIds b d).map fun r => ({ t with allIds := r.1 }, r.2)
  | .author b =>
    (processMonitorsExact levId ev t.allAuthors b d).map fun r => ({ t with allAuthors := r.1 }, r.2)
  | .tag b =>
    (processMonitorsExact levId ev t.allTags b d).map fun r => ({ t with allTags := r.1 }, r.2)
  | .kind n =>
    (processMonitorsExact levId ev t.allKinds n d).map fun r => ({ t with allKinds := r.1 }, r.2)
  | .other =>
    (processMonitorSet levId ev t.allOthers d).map fun r => ({ t with allOthers := r.1 }, r.2)

/-- The lookups of `process`, one after the other. -/
def processKeys (levId : Nat) (ev : PackedEvent) :
    List LookupKey → LookupTables → Delivery → Option (LookupTables × Delivery)
  | [], t, d => some (t, d)
  | k :: ks, t, d =>
    match processKey levId ev k t d with
    | none => none
    | some (t', d') => processKeys levId ev ks t' d'

/-- `process`: the monitors afterwards, and the arguments of the call of `cb` if it is called. -/
def process (s : ActiveMonitors) (levId : Nat) (ev : PackedEvent) :
    Option (ActiveMonitors × Option (RecipientList × Nat)) :=
  (processKeys levId ev ev.lookupKeys s.tables { monitors := s.monitors }).map fun r =>
    ({ s with tables := r.1, monitors := r.2.monitors },
      if r.2.recipients.length ≠ 0 then some (r.2.recipients, levId) else none)

end ActiveMonitors

end Strfry
