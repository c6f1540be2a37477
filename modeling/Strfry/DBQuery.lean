import Strfry.Filters
import Strfry.Store
import Strfry.Lib.Sort

/-!
# Database queries

A `DBScan` answers one filter. It picks an index, opens a cursor for each string it looks for, and
merges what the cursors find into a queue in descending order of `created_at` and levId. A cursor
collects a bounded number of entries at a time; `outstanding` counts those of its entries that are
still in the queue, and it collects more when the count reaches zero.

A `DBQuery` runs the scans of a filter group one after the other. It may pause at the head of
every iteration; `process` takes the number of iterations until it does. What the pause depends on
(the clock and the work counter) is not modelled, and neither are the metrics for the log.

The database library is not modelled: its `generic_foreachFull` in reverse
visits `descFrom` of the index, and the 64-bit maximum as a start value is `⊤`.
-/

set_option autoImplicit false

namespace Strfry

open Lib

/-! ## Candidate events -/

/-- `DBScan::CandidateEvent`: the scan index in the upper 24 bits, `created` in the lower 40. -/
structure CandidateEvent where
  packed : Nat
  levId : Nat
  deriving DecidableEq

namespace CandidateEvent

/-- The constructor; the shift drops the bits above the 64th. -/
def make (levId created scanIndex : Nat) : CandidateEvent :=
  ⟨((scanIndex <<< 40) % 2 ^ 64) ||| created, levId⟩

def created (c : CandidateEvent) : Nat := c.packed &&& 0xFFFFFFFFFF

def scanIndex (c : CandidateEvent) : Nat := c.packed >>> 40

/-- The comparison `cmp`: newest first, then by descending levId. -/
def cmp (a b : CandidateEvent) : Bool :=
  if a.created = b.created then b.levId < a.levId else b.created < a.created

end CandidateEvent

/-! ## Cursors -/

/-- `DBScan::ScanCursor`: where to resume (`none` when it is not active), the string its `keyMatch`
looks for, and the number of its entries in the queue. -/
structure ScanCursor where
  resume : Option (Entry Bytes)
  search : Bytes
  outstanding : Nat := 0

namespace ScanCursor

/-- A cursor at its start: behind every entry with the string part `search`. -/
def start (search : Bytes) : ScanCursor where
  resume := some ⟨search, maxU64, ⊤⟩
  search := search

/-- The `keyMatch` of the cursors over each index. -/
def keyMatch (indexDbi : QueryIndex) (search k : Bytes) : Bool :=
  match indexDbi with
  | .id | .pubkey | .pubkeyKind => search.isPrefixOf k
  | .tag => k.length == search.length + 8 && search.isPrefixOf k
  | .kind => ofLeBytes (k.take 8) == ofLeBytes search
  | .createdAt => true

end ScanCursor

/-- What one `generic_foreachFull` of `collect` leaves: the candidates added, the limit and the
resume position. -/
structure Visit where
  output : List CandidateEvent
  limit : Nat
  resume : Option (Entry Bytes)

/-- The callback of `collect`, over the entries that are visited. -/
def visitEntries (f : NostrFilter) (indexDbi : QueryIndex) (search : Bytes) (scanIndex : Nat) :
    List (Entry Bytes) → Nat → Visit
  | [], limit => ⟨[], limit, none⟩
  | e :: es, limit =>
    if limit = 0 then ⟨[], 0, some e⟩
    else if !ScanCursor.keyMatch indexDbi search (e.key ++ le64 e.num) then ⟨[], limit, none⟩
    else if f.since ≠ 0 ∧ e.num < f.since then ⟨[], limit, some ⟨e.key, 0, (0 : Nat)⟩⟩
    else if f.until_ ≠ 0 ∧ f.until_ < e.num then ⟨[], limit, some ⟨e.key, f.until_, ⊤⟩⟩
    else
      let r := visitEntries f indexDbi search scanIndex es (limit - 1)
      ⟨.make e.row e.num scanIndex :: r.output, r.limit, r.resume⟩

/-- The entries of an index that a cursor visits from a position. -/
def foreachFull (ord : IndexOrder) (st : Store) (indexDbi : QueryIndex) (pos : Entry Bytes) :
    List (Entry Bytes) :=
  @descFrom _ (@Entry.instLinearOrder _ (ord indexDbi)) (st.index indexDbi) pos

/-- The loop of `collect`: the candidates, and where to resume. `none` when the fuel runs out. -/
def collectLoop (ord : IndexOrder) (st : Store) (f : NostrFilter) (indexDbi : QueryIndex)
    (search : Bytes) (scanIndex : Nat) :
    Nat → Option (Entry Bytes) → Nat → Option (List CandidateEvent × Option (Entry Bytes))
  | _, none, _ => some ([], none)
  | _, some pos, 0 => some ([], some pos)
  | 0, some _, _ + 1 => none
  | fuel + 1, some pos, limit + 1 =>
    let r := visitEntries f indexDbi search scanIndex (foreachFull ord st indexDbi pos) (limit + 1)
    (collectLoop ord st f indexDbi search scanIndex fuel r.resume r.limit).map fun t =>
      (r.output ++ t.1, t.2)

/-- Rounds of the loop of `collect`: a jump to `until`, a jump below `since`, and a last one. -/
def collectRounds : Nat := 3

/-- `ScanCursor::collect`. -/
def ScanCursor.collect (ord : IndexOrder) (st : Store) (f : NostrFilter) (indexDbi : QueryIndex)
    (scanIndex limit : Nat) (c : ScanCursor) : Option (List CandidateEvent × ScanCursor) :=
  (collectLoop ord st f indexDbi c.search scanIndex collectRounds c.resume limit).map fun r =>
    (r.1, { c with resume := r.2, outstanding := (c.outstanding + r.1.length) % 2 ^ 64 })

/-! ## Scans -/

/-- `DBScan`. -/
structure DBScan where
  f : NostrFilter
  indexOnly : Bool
  indexDbi : QueryIndex
  cursors : List ScanCursor
  eventQueue : List CandidateEvent := []
  nextInitIndex : Nat := 0

/-- The tag with the fewest values, the first one met of several. -/
def smallestTag : List (UInt8 × FilterSetBytes) → Nat → Option (UInt8 × FilterSetBytes) →
    Option (UInt8 × FilterSetBytes)
  | [], _, best => best
  | t :: ts, numTags, best =>
    if t.2.size < numTags then smallestTag ts t.2.size (some t) else smallestTag ts numTags best

namespace DBScan

/-- The index that the constructor picks, whether it alone decides a match, and the strings of
the cursors. -/
def plan (f : NostrFilter) : QueryIndex × Bool × List Bytes :=
  match f.ids with
  | some ids => (.id, f.indexOnlyScans, ids.elems)
  | none =>
    match smallestTag f.tags maxU64 none with
    | some t => (.tag, f.indexOnlyScans, t.2.elems.map fun v => t.1 :: v)
    | none =>
      match f.authors, f.kinds with
      | some authors, some kinds =>
        if (authors.size * kinds.size) % 2 ^ 64 < 1000 then
          (.pubkeyKind, f.indexOnlyScans,
            authors.elems.flatMap fun a => kinds.items.map fun k => a ++ le64 k)
        else (.pubkey, false, authors.elems)
      | some authors, none => (.pubkey, f.indexOnlyScans, authors.elems)
      | none, some kinds => (.kind, f.indexOnlyScans, kinds.items.map le64)
      | none, none => (.createdAt, f.indexOnlyScans, [[]])

/-- The constructor of `DBScan`. -/
def make (f : NostrFilter) : DBScan where
  f := f
  indexOnly := (plan f).2.1
  indexDbi := (plan f).1
  cursors := (plan f).2.2.map ScanCursor.start

/-- `initialScanDepth`. -/
def initialScanDepth (s : DBScan) : Nat := max 5 (min 50 (s.f.limit / s.cursors.length))

/-- `refillScanDepth`. -/
def refillScanDepth (s : DBScan) : Nat := 10 * s.initialScanDepth

/-- Outcome of an iteration of `scan`: it returns true, goes on, or has undefined behaviour (a
cursor that does not exist, or a loop in `collect` that does not end). -/
inductive Iter (σ : Type)
  | done (state : σ)
  | next (s : DBScan) (state : σ)
  | stuck

/-- One cursor is collected from, for `limit` entries. -/
def collectAt (ord : IndexOrder) (st : Store) (s : DBScan) (i limit : Nat) :
    Option (List CandidateEvent × DBScan) :=
  match s.cursors[i]? with
  | none => none
  | some c =>
    (c.collect ord st s.f s.indexDbi i limit).map fun r =>
      (r.1, { s with cursors := s.cursors.set i r.2 })

/-- An iteration while cursors are still to be initialised. -/
def initStep (S : StdSort) (ord : IndexOrder) (st : Store) (s : DBScan) : Option DBScan :=
  (s.collectAt ord st s.nextInitIndex s.initialScanDepth).map fun r =>
    let queue := s.eventQueue ++ r.1
    { r.2 with
      nextInitIndex := s.nextInitIndex + 1
      eventQueue :=
        if s.nextInitIndex + 1 = s.cursors.length then S.sort CandidateEvent.cmp queue else queue }

/-- Whether a candidate is passed on. -/
def doSend (st : Store) (s : DBScan) (ev : CandidateEvent) : Bool :=
  if s.indexOnly then s.f.doesMatchTimes ev.created
  else
    match st.event.get? ev.levId with
    | some packed => s.f.doesMatch packed
    | none => false

/-- The end of an iteration: one entry less outstanding, and a refill when none is left. -/
def settle (ord : IndexOrder) (st : Store) (s : DBScan) (i : Nat) : Option DBScan :=
  match s.cursors[i]? with
  | none => none
  | some c =>
    let outstanding := (c.outstanding + (2 ^ 64 - 1)) % 2 ^ 64
    let s' := { s with cursors := s.cursors.set i { c with outstanding := outstanding } }
    if outstanding = 0 then
      (s'.collectAt ord st i s'.refillScanDepth).map fun r =>
        { r.2 with eventQueue := stdMerge CandidateEvent.cmp s'.eventQueue r.1 }
    else some s'

/-- An iteration of the loop of `scan` in which `doPause` is false. `handleEvent` returns whether
the scan is to stop. -/
def iter {σ : Type} (S : StdSort) (ord : IndexOrder) (st : Store) (handleEvent : σ → Nat → Bool × σ)
    (s : DBScan) (state : σ) : Iter σ :=
  if s.nextInitIndex < s.cursors.length then
    match s.initStep S ord st with
    | some s' => .next s' state
    | none => .stuck
  else
    match s.eventQueue with
    | [] => .done state
    | ev :: rest =>
      let r := if s.doSend st ev then handleEvent state ev.levId else (false, state)
      if r.1 then .done r.2
      else
        match { s with eventQueue := rest }.settle ord st ev.scanIndex with
        | some s' => .next s' r.2
        | none => .stuck

end DBScan

/-! ## Queries -/

/-- `SubId`: the characters it may have. -/
def subIdChar (c : UInt8) : Bool := 32 ≤ c && c < 127 && c != 92 && c != 34

/-- `SubId`. -/
structure SubId where
  sv : Bytes
  size_pos : 0 < sv.length
  size_le : sv.length ≤ 71
  chars : sv.all subIdChar = true
  deriving DecidableEq

/-- The subscription id `a`. -/
def SubId.a : SubId := ⟨[97], by decide, by decide, by decide⟩

/-- The constructor of `SubId`. -/
def SubId.make (val : Bytes) : Except Err SubId :=
  if hle : val.length > 71 then .error (.herr "subscription id too long")
  else if hpos : val.length = 0 then .error (.herr "subscription id too short")
  else if hc : val.all subIdChar = true then .ok ⟨val, Nat.pos_of_ne_zero hpos, not_lt.1 hle, hc⟩
  else .error (.herr "invalid character in subscription id")

/-- `Subscription`; the largest 64-bit value of `latestEventId` is `⊤`. -/
structure Subscription where
  connId : Nat
  subId : SubId
  filterGroup : NostrFilterGroup
  latestEventId : WithTop Nat := ⊤

/-- `DBQuery`. -/
structure DBQuery where
  sub : Subscription
  scanner : Option DBScan := none
  filterGroupIndex : Nat := 0
  sentEventsFull : Finset Nat := ∅
  sentEventsCurr : Finset Nat := ∅

namespace DBQuery

/-- What the event handler of `process` writes to: the two sets and the callbacks made. -/
structure Sent where
  full : Finset Nat
  curr : Finset Nat
  calls : List Nat

/-- The event handler of `process`. -/
def handleEvent (limit : Nat) (latestEventId : WithTop Nat) (t : Sent) (levId : Nat) :
    Bool × Sent :=
  if limit = 0 then (true, t)
  else if latestEventId < levId then (false, t)
  else
    let t' : Sent :=
      if levId ∈ t.full then t
      else { t with full := insert levId t.full, calls := t.calls ++ [levId] }
    let curr := insert levId t.curr
    (limit ≤ curr.card, { t' with curr := curr })

/-- An iteration of the scan for the current filter `f`, and what follows it in `process`: the
query, and the callbacks made. `none` is undefined behaviour. -/
def step (S : StdSort) (ord : IndexOrder) (st : Store) (q : DBQuery) (f : NostrFilter) :
    Option (DBQuery × List Nat) :=
  let s := q.scanner.getD (DBScan.make f)
  match s.iter S ord st (handleEvent f.limit q.sub.latestEventId)
      ⟨q.sentEventsFull, q.sentEventsCurr, []⟩ with
  | .done t =>
    some ({ q with
      scanner := none
      filterGroupIndex := q.filterGroupIndex + 1
      sentEventsFull := t.full
      sentEventsCurr := ∅ }, t.calls)
  | .next s' t =>
    some ({ q with
      scanner := some s'
      sentEventsFull := t.full
      sentEventsCurr := t.curr }, t.calls)
  | .stuck => none

/-- `process`, with the number of iterations until `doPause` holds: the query, the callbacks, and
whether it is complete. -/
def process (S : StdSort) (ord : IndexOrder) (st : Store) :
    Nat → DBQuery → Option (DBQuery × List Nat × Bool)
  | 0, q =>
    match q.sub.filterGroup.filters[q.filterGroupIndex]? with
    | none => some (q, [], true)
    | some f => some ({ q with scanner := some (q.scanner.getD (DBScan.make f)) }, [], false)
  | n + 1, q =>
    match q.sub.filterGroup.filters[q.filterGroupIndex]? with
    | none => some (q, [], true)
    | some f =>
      match q.step S ord st f with
      | none => none
      | some (q', calls) =>
        (process S ord st n q').map fun r => (r.1, calls ++ r.2.1, r.2.2)

end DBQuery

end Strfry
