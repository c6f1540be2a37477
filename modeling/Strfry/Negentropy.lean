import Strfry.QueryScheduler
import Strfry.NegentropyCache

/-!
# The negentropy thread

`runNegentropy` serves NEG messages. A filter whose text is that of a tree is served from the tree
(`StatelessView`); for any other filter a query collects the matching events into memory
(`MemoryView`), which takes as many time slices as the scheduler needs. Messages come from
`ingesterProcessNegentropy`.

The negentropy library is a parameter (`NegentropyLib`): it reconciles a set of items with a
message, and seals a vector of items. A sealed vector is its set of items. The subrange of a
tree is the one its bounds say: from `since` up to, but without, `until + 1`.
-/

set_option autoImplicit false

namespace Strfry

open Lib

/-- `Negentropy::reconcile` and `storage::Vector::seal`. Items that are all different can be
sealed. -/
structure NegentropyLib where
  reconcile : Tree → Bytes → Except Err Bytes
  sealVector : List (Nat × Bytes) → Except Err Tree
  sealVector_nodup : ∀ items : List (Nat × Bytes), items.Nodup → sealVector items = .ok items.toFinset

/-- The settings that the negentropy thread reads. -/
structure NegentropyConfig where
  maxSubsPerConnection : Nat
  maxSyncEvents : Nat

/-- What the thread sends to a connection. -/
inductive NegReply
  | negErr (connId : Nat) (subId : SubId) (reason : String) (limit : Option Nat)
  | negMsg (connId : Nat) (subId : SubId) (payload : Bytes)
  | notice (connId : Nat) (text : String)

/-! ## Views -/

/-- `NegentropyViews::MemoryView`; `storageVector` is there once it is sealed. `serial` is a
history variable: the number of the NEG-OPEN that the view was made for. -/
structure MemoryView where
  initialMsg : Bytes
  storageVector : Option Tree := none
  levIds : List Nat := []
  serial : Nat

/-- `NegentropyViews::StatelessView`. -/
structure StatelessView where
  sub : Subscription
  treeId : Nat

/-- `NegentropyViews::UserView`. -/
inductive UserView
  | memory (view : MemoryView)
  | stateless (view : StatelessView)

/-- `NegentropyViews`. -/
abbrev NegentropyViews := Map Nat (Map SubId UserView)

namespace NegentropyViews

/-- `findView`. -/
def findView (views : NegentropyViews) (connId : Nat) (subId : SubId) : Option UserView :=
  Map.find₂ views connId subId

/-- `removeView`. -/
def removeView (views : NegentropyViews) (connId : Nat) (subId : SubId) : NegentropyViews :=
  match views.findView connId subId with
  | none => views
  | some _ => Map.eraseIn views connId subId

/-- `closeConn`. -/
def closeConn (views : NegentropyViews) (connId : Nat) : NegentropyViews :=
  match views.lookup connId with
  | none => views
  | some _ => views.erase connId

/-- The common body of `addMemoryView` and `addStatelessView`. -/
def addView (maxSubsPerConnection : Nat) (views : NegentropyViews) (connId : Nat) (subId : SubId)
    (view : UserView) : Bool × NegentropyViews :=
  let views : NegentropyViews :=
    if (views.findView connId subId).isSome then views.removeView connId subId else views
  let conns : NegentropyViews := Map.tryEmplace views connId ∅
  if Map.size ((conns.lookup connId).getD ∅) ≥ maxSubsPerConnection then (false, conns)
  else (true, Map.emplaceIn conns connId subId view)

/-- `addMemoryView`. -/
def addMemoryView (maxSubsPerConnection : Nat) (views : NegentropyViews) (connId : Nat)
    (subId : SubId) (initialMsg : Bytes) (serial : Nat) : Bool × NegentropyViews :=
  views.addView maxSubsPerConnection connId subId (.memory { initialMsg, serial })

/-- `addStatelessView`. -/
def addStatelessView (maxSubsPerConnection : Nat) (views : NegentropyViews) (connId : Nat)
    (subId : SubId) (sub : Subscription) (treeId : Nat) : Bool × NegentropyViews :=
  views.addView maxSubsPerConnection connId subId (.stateless ⟨sub, treeId⟩)

end NegentropyViews

/-! ## Messages -/

/-- `MsgNegentropy`. -/
inductive MsgNegentropy
  | negOpen (sub : Subscription) (filterStr negPayload : Bytes)
  | negMsg (connId : Nat) (subId : SubId) (negPayload : Bytes)
  | negClose (connId : Nat) (subId : SubId)
  | closeConn (connId : Nat)

/-- An element of a JSON array; `at` throws when it is not there. -/
def jsonAt (arr : List Json) (i : Nat) : Except Err Json :=
  match arr[i]? with
  | none => .error .outOfRange
  | some v => .ok v

/-- The key by which a tree is selected: the text of the filter without its time bounds. -/
def treeFilterStr (text : JsonText) (filterJson : Json) : Bytes :=
  text.toString ((filterJson.erase "since").erase "until")

/-- The NEG-OPEN branch of `ingesterProcessNegentropy`. -/
def ingesterNegOpen (hex : HexCodec) (text : JsonText) (maxSyncEvents : Nat) (connId : Nat)
    (subscriptionStr : Bytes) (arr : List Json) : Except Err MsgNegentropy :=
  if arr.length < 4 then .error (.herr "negentropy query missing elements")
  else do
    let filterJson ← jsonAt arr 2
    let filter ← NostrFilterGroup.unwrapped hex filterJson ((maxSyncEvents + 1) % 2 ^ 64)
    let subId ← SubId.make subscriptionStr
    let payload ← jsonAt arr 3
    let payloadStr ← jsonGetString payload "negentropy payload not a string"
    let negPayload ← hex.fromHexPrefixed payloadStr
    .ok (.negOpen ⟨connId, subId, filter, ⊤⟩ (treeFilterStr text filterJson) negPayload)

/-- `ingesterProcessNegentropy`, with the command that the ingester has read from the array. -/
def ingesterProcessNegentropy (hex : HexCodec) (text : JsonText) (maxSyncEvents : Nat)
    (connId : Nat) (cmd : Bytes) (arr : List Json) : Except Err MsgNegentropy := do
  let v ← jsonAt arr 1
  let subscriptionStr ← jsonGetString v "NEG-OPEN subscription id was not a string"
  if cmd = ascii "NEG-OPEN" then ingesterNegOpen hex text maxSyncEvents connId subscriptionStr arr
  else if cmd = ascii "NEG-MSG" then do
    let payload ← jsonAt arr 2
    let payloadStr ← jsonGetString payload "negentropy payload not a string"
    let negPayload ← hex.fromHexPrefixed payloadStr
    let subId ← SubId.make subscriptionStr
    .ok (.negMsg connId subId negPayload)
  else if cmd = ascii "NEG-CLOSE" then do
    let subId ← SubId.make subscriptionStr
    .ok (.negClose connId subId)
  else .error (.herr "unknown command")

/-! ## The thread -/

/-- The state of `runNegentropy`. `opened`, the number of NEG-OPENs so far, and `staleWrite`, set
when a view is written to after its removal, are history variables. -/
structure NegentropyThread where
  queries : QueryScheduler := {}
  views : NegentropyViews := (∅ : Map Nat (Map SubId UserView))
  opened : Nat := 0
  staleWrite : Bool := false

/-- The pairs in a subrange of a tree that a filter selects by its time bounds. -/
def subRange (tree : Tree) (f : NostrFilter) : Tree :=
  tree.filter fun item => f.since ≤ item.1 ∧
    item.1 < if f.until_ = maxU64 then maxU64 else f.until_ + 1

/-- The loop over the `NegentropyFilter` rows: the first one with the text. -/
def selectTree (rows : Table Bytes) (filterStr : Bytes) : Option Nat :=
  (rows.rows.find? fun r => r.2 == filterStr).map Prod.fst

namespace NegentropyThread

section Handlers

variable (lib : NegentropyLib) (cfg : NegentropyConfig)

/-- `handleReconcile`. -/
def handleReconcile (views : NegentropyViews) (connId : Nat) (subId : SubId) (storage : Tree)
    (msg : Bytes) : NegentropyViews × List NegReply :=
  match lib.reconcile storage msg with
  | .error _ => (views.removeView connId subId, [.negErr connId subId "PROTOCOL-ERROR" none])
  | .ok resp => (views, [.negMsg connId subId resp])

/-- The callback `onEventBatch`. -/
def onEventBatch (views : NegentropyViews) (sub : Subscription) (levIds : List Nat) :
    Except Err NegentropyViews :=
  match views.findView sub.connId sub.subId with
  | none => .ok views
  | some (.stateless _) => .error (.herr "bad variant, expected memory view")
  | some (.memory view) =>
    .ok (Map.assignIn views sub.connId sub.subId
      (.memory { view with levIds := view.levIds ++ levIds }))

/-- The items of a view: the pairs of its events that are still stored. -/
def viewItems (st : Store) (levIds : List Nat) : List (Nat × Bytes) :=
  (levIds.insertionSort (· ≤ ·)).filterMap fun levId =>
    (st.event.get? levId).map fun packed => (packed.createdAt, packed.id)

/-- The callback `onComplete`. After `handleReconcile` the view is written to once more; when it
was removed there, this is an access to memory that has been freed. -/
def onComplete (st : Store) (t : NegentropyThread) (sub : Subscription) :
    Except Err (NegentropyThread × List NegReply) :=
  match t.views.findView sub.connId sub.subId with
  | none => .ok (t, [])
  | some (.stateless _) => .error (.herr "bad variant, expected memory view")
  | some (.memory view) =>
    if view.levIds.length > cfg.maxSyncEvents then
      .ok ({ t with views := t.views.removeView sub.connId sub.subId },
        [.negErr sub.connId sub.subId "blocked: too many query results" (some cfg.maxSyncEvents)])
    else
      match view.storageVector with
      | some _ => .error (.herr "already sealed")
      | none =>
        match lib.sealVector (viewItems st view.levIds) with
        | .error e => .error e
        | .ok storage =>
          let views : NegentropyViews := Map.assignIn t.views sub.connId sub.subId
            (.memory { view with storageVector := some storage, levIds := [] })
          let r := handleReconcile lib views sub.connId sub.subId storage view.initialMsg
          match r.1.findView sub.connId sub.subId with
          | none => .ok ({ t with views := r.1, staleWrite := true }, r.2)
          | some _ =>
            .ok ({ t with
              views := Map.assignIn r.1 sub.connId sub.subId
                (.memory { view with storageVector := some storage, levIds := [], initialMsg := [] }) },
              r.2)

/-- `queries.process` with the callbacks of the thread. `none` is undefined behaviour. -/
def slice (S : StdSort) (ord : IndexOrder) (st : Store) (n : Nat) (t : NegentropyThread) :
    Option (Except Err (NegentropyThread × List NegReply)) :=
  match t.queries.process S ord false st n with
  | none => none
  | some (queries, none) => some (.ok ({ t with queries := queries }, []))
  | some (queries, some sl) =>
    match onEventBatch t.views sl.sub sl.levIds with
    | .error e => some (.error e)
    | .ok views =>
      let t := { t with queries := queries, views := views }
      if sl.complete then some (onComplete lib cfg st t sl.sub) else some (.ok (t, []))

/-- A NEG-OPEN that is served from a tree. -/
def openTree (db : Db) (t : NegentropyThread) (sub : Subscription) (negPayload : Bytes)
    (treeId : Nat) : Except Err (NegentropyThread × List NegReply) :=
  match sub.filterGroup.filters[0]? with
  | none => .error .outOfRange
  | some f =>
    let r := handleReconcile lib t.views sub.connId sub.subId (subRange (db.trees treeId) f)
      negPayload
    let added := r.1.addStatelessView cfg.maxSubsPerConnection sub.connId sub.subId sub treeId
    if added.1 then .ok ({ t with views := added.2, opened := t.opened + 1 }, r.2)
    else
      .ok ({ t with
        queries := t.queries.removeSub sub.connId sub.subId
        views := added.2
        opened := t.opened + 1 },
        r.2 ++ [.notice sub.connId "too many concurrent NEG requests"])

/-- A NEG-OPEN that is served from memory, up to the call of `process`. -/
def openMemory (st : Store) (q : QueryPtr) (t : NegentropyThread) (sub : Subscription)
    (negPayload : Bytes) : NegentropyThread × List NegReply :=
  let a := t.queries.addSub cfg.maxSubsPerConnection st q t.opened sub
  let notice₁ := if a.1 then [] else [NegReply.notice sub.connId "too many concurrent REQs"]
  let added := t.views.addMemoryView cfg.maxSubsPerConnection sub.connId sub.subId negPayload t.opened
  if added.1 then ({ t with queries := a.2, views := added.2, opened := t.opened + 1 }, notice₁)
  else
    ({ t with
      queries := a.2.removeSub sub.connId sub.subId
      views := added.2
      opened := t.opened + 1 },
      notice₁ ++ [.notice sub.connId "too many concurrent NEG requests"])

/-- The NegOpen branch. -/
def negOpen (S : StdSort) (ord : IndexOrder) (db : Db) (q : QueryPtr) (n : Nat)
    (t : NegentropyThread) (sub : Subscription) (filterStr negPayload : Bytes) :
    Option (Except Err (NegentropyThread × List NegReply)) :=
  match selectTree db.negentropyFilter filterStr with
  | some treeId => some (openTree lib cfg db t sub negPayload treeId)
  | none =>
    let r := openMemory cfg db.toStore q t sub negPayload
    (slice lib cfg S ord db.toStore n r.1).map fun e => e.map fun r' => (r'.1, r.2 ++ r'.2)

/-- The NegMsg branch. -/
def negMsg (db : Db) (t : NegentropyThread) (connId : Nat) (subId : SubId) (negPayload : Bytes) :
    Except Err (NegentropyThread × List NegReply) :=
  match t.views.findView connId subId with
  | none => .ok (t, [.negErr connId subId "closed: unknown subscription handle" none])
  | some (.memory view) =>
    match view.storageVector with
    | none =>
      .ok (t, [.notice connId "negentropy error: got NEG-MSG before NEG-OPEN complete"])
    | some storage =>
      let r := handleReconcile lib t.views connId subId storage negPayload
      .ok ({ t with views := r.1 }, r.2)
  | some (.stateless view) =>
    match view.sub.filterGroup.filters[0]? with
    | none => .error .outOfRange
    | some f =>
      let r := handleReconcile lib t.views connId subId (subRange (db.trees view.treeId) f) negPayload
      .ok ({ t with views := r.1 }, r.2)

end Handlers

/-- The NegClose branch. -/
def negClose (t : NegentropyThread) (connId : Nat) (subId : SubId) : NegentropyThread :=
  { t with
    queries := t.queries.removeSub connId subId
    views := t.views.removeView connId subId }

/-- The CloseConn branch. -/
def closeConn (t : NegentropyThread) (connId : Nat) : NegentropyThread :=
  { t with
    queries := t.queries.closeConn connId
    views := t.views.closeConn connId }

end NegentropyThread

end Strfry
