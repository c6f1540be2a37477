import Strfry.KeySteps
import Strfry.QuerySoundness

/-!
# The three parts of a subscription

A subscription is sent the stored events by a worker thread, then what was written in the meantime by a monitor
thread, and then the live events. The three parts are told apart by levIds that are read from different snapshots:
the `latestEventId` that the query was made with, the one that the monitor finds when it gets the NewSub, and the
`currEventId` of the monitor.

`Relay.Handoff` says of each part what has been sent, and what is still to come, and all steps keep it
(`Relay.Handoff.step`).
-/

set_option autoImplicit false

namespace Strfry

open Lib LookupTables

/-! ## What has been sent -/

/-- The levId of an event that is sent. -/
def Output.levId? : Output → Option Nat
  | .event _ _ _ levId _ => some levId
  | _ => none

/-- An event of the query. -/
def Output.isStored : Output → Bool
  | .event .query _ _ _ _ => true
  | _ => false

/-- An event of the monitor. -/
def Output.isLater : Output → Bool
  | .event .catchUp _ _ _ _ => true
  | .event .live _ _ _ _ => true
  | _ => false

/-- The levIds of the events among what is sent. -/
def levIdsOf (out : List Output) : List Nat := out.filterMap Output.levId?

/-- The events of the query, then the EOSE, then those of the monitor. -/
def EoseBetween (out : List Output) : Prop :=
  ∃ stored k c i later, out = stored ++ .eose k c i :: later ∧ (∀ o ∈ stored, o.isStored = true) ∧
    ∀ o ∈ later, o.isLater = true

/-- The same, when the EOSE may not have been sent yet. -/
def InOrder (out : List Output) : Prop := (∀ o ∈ out, o.isStored = true) ∨ EoseBetween out

/-- If it is an event that is sent, it has been stored under its levId, and matches. -/
def Output.Shows (E : Set (Nat × PackedEvent)) (g : NostrFilterGroup) : Output → Prop
  | .event _ _ _ levId ev => ∃ p, ev = some p ∧ (levId, p) ∈ E ∧ g.doesMatch p = true
  | _ => True

section Sent

theorem exists_of_shows {E : Set (Nat × PackedEvent)} {g : NostrFilterGroup} {out : List Output}
    (h : ∀ o ∈ out, o.Shows E g) {x : Nat} (hx : x ∈ levIdsOf out) :
    ∃ r ∈ E, r.1 = x ∧ g.doesMatch r.2 = true := by
  obtain ⟨o, ho, hlev⟩ := List.mem_filterMap.mp hx
  have hshows := h o ho
  cases o with
  | event phase c i levId ev =>
    obtain ⟨p, -, hmem, hm⟩ := hshows
    exact ⟨(levId, p), hmem, Option.some.inj hlev, hm⟩
  | eose | noticeError => cases hlev

theorem levIdsOf_append (out out' : List Output) :
    levIdsOf (out ++ out') = levIdsOf out ++ levIdsOf out' := List.filterMap_append

theorem levIdsOf_queryEvents (txn : Store) (c : Nat) (i : SubId) (levIds : List Nat) :
    levIdsOf (queryEvents txn c i levIds) = levIds := by
  rw [levIdsOf, queryEvents, List.filterMap_map]
  exact List.filterMap_some

theorem levIdsOf_eose (k c : Nat) (i : SubId) : levIdsOf [.eose k c i] = [] := rfl

theorem levIdsOf_liveEvents (c : Nat) (i : SubId) (got : List (Nat × PackedEvent)) :
    levIdsOf (got.map (liveEvent c i)) = got.map Prod.fst := by
  rw [levIdsOf, List.filterMap_map, ← List.filterMap_eq_map]
  rfl

theorem levIdsOf_catchUp (txn : Store) (sub : Subscription) : levIdsOf (catchUp txn sub) =
    ((txn.event.rowsFrom (startAfter sub.latestEventId)).filter fun r =>
      sub.filterGroup.doesMatch r.2).map Prod.fst := by
  rw [levIdsOf, catchUp, List.filterMap_map, ← List.filterMap_eq_map]
  rfl

/-- What a new subscription has missed is all that matches and is newer. -/
theorem mem_levIdsOf_catchUp {txn : Store} {sub : Subscription} {L x : Nat}
    (hlatest : sub.latestEventId = (L : WithTop Nat)) : x ∈ levIdsOf (catchUp txn sub) ↔
      ∃ r ∈ txn.event.rows, r.1 = x ∧ L < r.1 ∧ sub.filterGroup.doesMatch r.2 = true := by
  rw [levIdsOf_catchUp, hlatest, List.mem_map]
  constructor
  · rintro ⟨r, hr, rfl⟩
    obtain ⟨hrow, hm⟩ := List.mem_filter.mp hr
    obtain ⟨hrow, hlt⟩ := Table.mem_rowsFrom.mp hrow
    exact ⟨r, hrow, rfl, hlt, hm⟩
  · rintro ⟨r, hrow, rfl, hlt, hm⟩
    exact ⟨r, List.mem_filter.mpr ⟨Table.mem_rowsFrom.mpr ⟨hrow, hlt⟩, hm⟩, rfl⟩

theorem nodup_levIdsOf_catchUp (txn : Store) (sub : Subscription) :
    (levIdsOf (catchUp txn sub)).Nodup := by
  rw [levIdsOf_catchUp]
  refine txn.event.nodup_keys.sublist (List.Sublist.map _ ?_)
  exact List.filter_sublist.trans List.filter_sublist

theorem filter_catchUp (txn : Store) (sub : Subscription) :
    (catchUp txn sub).filter (Output.isFor sub.connId sub.subId) = catchUp txn sub := by
  rw [List.filter_eq_self]
  intro o ho
  obtain ⟨r, -, rfl⟩ := List.mem_map.mp ho
  simp [Output.isFor]

theorem shows_catchUp {E : Set (Nat × PackedEvent)} {txn : Store} (hwithin : ∀ r ∈ txn.event.rows, r ∈ E)
    (sub : Subscription) : ∀ o ∈ catchUp txn sub, o.Shows E sub.filterGroup := by
  intro o ho
  obtain ⟨r, hr, rfl⟩ := List.mem_map.mp ho
  obtain ⟨hrow, hm⟩ := List.mem_filter.mp hr
  exact ⟨r.2, rfl, hwithin r (Table.mem_rowsFrom.mp hrow).1, hm⟩

theorem EoseBetween.append {out more : List Output} (h : EoseBetween out) (hmore : ∀ o ∈ more, o.isLater = true) :
    EoseBetween (out ++ more) := by
  obtain ⟨stored, k, c, i, later, rfl, hstored, hlater⟩ := h
  refine ⟨stored, k, c, i, later ++ more, by rw [List.append_assoc, List.cons_append], hstored, ?_⟩
  intro o ho
  rcases List.mem_append.mp ho with ho | ho
  · exact hlater o ho
  · exact hmore o ho

/-- A message that concerns another subscription id, and is no DBChange, sends it nothing. -/
theorem monitorHandle_others {cfg : RelayConfig} {txn : Store} {q : MonitorPtr} {monitors : ActiveMonitors}
    {currEventId : WithTop Nat} {msg : MsgReqMonitor} {step : MonitorStep} {c : Nat} {i : SubId}
    (hinv : monitors.Inv) (h : monitorHandle cfg txn q monitors currEventId msg = some step)
    (hother : msg.serialFor c i = none) (hne : msg ≠ .dbChange) :
    step.sent.filter (Output.isFor c i) = [] := by
  cases msg with
  | newSub serial sub =>
    obtain ⟨accepted, -, -, hsent⟩ := monitorHandle_newSub h
    rw [hsent, List.filter_append, List.append_eq_nil_iff, List.filter_eq_nil_iff]
    constructor
    · intro o ho hfor
      obtain ⟨r, -, rfl⟩ := List.mem_map.mp ho
      simp only [Output.isFor, Bool.and_eq_true, beq_iff_eq] at hfor
      rw [MsgReqMonitor.serialFor, if_pos hfor] at hother
      cases hother
    · cases accepted <;> rfl
  | removeSub serial connId subId =>
    rw [(monitorHandle_removeSub hinv h).2.2.2]
    rfl
  | closeConn serial connId =>
    rw [(monitorHandle_closeConn hinv h).2.2.2]
    rfl
  | dbChange => exact absurd rfl hne

/-- A DBChange that walks over no event that the installed subscription matches sends it nothing. -/
theorem monitorHandle_unmatched {cfg : RelayConfig} {txn : Store} {q : MonitorPtr} {monitors : ActiveMonitors}
    {currEventId : WithTop Nat} {step : MonitorStep} {c : Nat} {i : SubId} (hinv : monitors.Inv)
    (h : monitorHandle cfg txn q monitors currEventId .dbChange = some step)
    (hno : ∀ sub, monitors.installed c i = some sub → ∀ r ∈ txn.event.rowsFrom (startAfter currEventId),
      sub.filterGroup.doesMatch r.2 = false) : step.sent.filter (Output.isFor c i) = [] := by
  obtain ⟨hproc, -, -⟩ := monitorHandle_dbChange hinv h
  obtain ⟨s₁, sent₁, hproc', hswept⟩ :=
    processEvents_spec (txn.event.rowsFrom (startAfter currEventId)) hinv
  rw [hproc] at hproc'
  cases hproc'
  cases hinst : monitors.installed c i with
  | none => exact hswept.others c i hinst
  | some sub =>
    obtain ⟨p, hlookup, hc, hi⟩ := (ActiveMonitors.installed_eq_some_iff hinv).mp hinst
    obtain ⟨got, sub', hgets, -, hsent⟩ := hswept.gets p sub hlookup
    have hnil : got = [] := by
      rw [List.eq_nil_iff_forall_not_mem]
      intro r hr
      have hm := hgets.doesMatch r hr
      rw [hno sub hinst r (hgets.sublist.subset hr)] at hm
      cases hm
    rw [hc, hi, hnil] at hsent
    exact hsent

end Sent

namespace Relay

/-! ## Three parts -/

variable {cfg : RelayConfig} {E : Set (Nat × PackedEvent)} {g : NostrFilterGroup} {s s' : Relay}
  {c : Nat} {i : SubId} {out : List Output} {L : Nat} {A R : Prop}

/-- What is assumed of the events of a run for a query: each limit is larger than the number of events that
match, and the plans have at most `2 ^ 24` cursors. -/
structure Answerable (E : Set (Nat × PackedEvent)) (g : NostrFilterGroup) : Prop where
  finite : ∀ f ∈ g.filters, {levId | ∃ r ∈ E, r.1 = levId ∧ f.doesMatch r.2 = true}.Finite
  limit : ∀ f ∈ g.filters, {levId | ∃ r ∈ E, r.1 = levId ∧ f.doesMatch r.2 = true}.ncard < f.limit
  cursors : ∀ f ∈ g.filters, DBScan.numCursors f ≤ 2 ^ 24

/-- The query for the levIds up to `L` has made the callbacks `calls`, and of these the client has been sent
`out`. That nothing is missing rests on `A`. -/
structure Answering (cfg : RelayConfig) (A : Prop) (E : Set (Nat × PackedEvent)) (g : NostrFilterGroup)
    (s : Relay) (out : List Output) (L : Nat) (history : History) (query : DBQuery) (calls : List Nat) :
    Prop where
  since : Since E L history s
  latest : query.sub.latestEventId = (L : WithTop Nat)
  group : query.sub.filterGroup = g
  sound : query.Sound history calls
  limit : A → ∀ f ∈ g.filters, (history.matchingUpTo f L).ncard < f.limit
  tracks : A → Tracks cfg.ord history query calls
  stored : ∀ o ∈ out, o.isStored = true
  shows : ∀ o ∈ out, o.Shows E g
  sublist : (levIdsOf out).Sublist calls
  all : ∀ r ∈ s.db.event.rows, r.1 ∈ calls → r.1 ∈ levIdsOf out

/-- The query has not been completed. An older subscription with the same id is installed only if `R` holds. -/
structure Querying (cfg : RelayConfig) (A R : Prop) (E : Set (Nat × PackedEvent)) (g : NostrFilterGroup)
    (c : Nat) (i : SubId) (s : Relay) (out : List Output) (L : Nat) (history : History) (h : HeapQuery)
    (calls : List Nat) : Prop extends Answering cfg A E g s out L history h.query calls where
  txn : ∀ txn, (s.workerOf cfg c).txn = some txn → txn ∈ history
  live : (s.workerOf cfg c).queries.live c i = some h
  connId : h.query.sub.connId = c
  subId : h.query.sub.subId = i
  path : (s.monitorOf cfg c).path c i = []
  installed : R ∨ s.installed cfg c i = none

/-- The query is complete, and the NewSub on its way to the monitor. -/
structure Waiting (cfg : RelayConfig) (A R : Prop) (g : NostrFilterGroup) (c : Nat) (i : SubId) (s : Relay)
    (out : List Output) (L k : Nat) (sub : Subscription) : Prop where
  gone : (s.workerOf cfg c).queries.live c i = none
  le_highest : L ≤ s.highest
  path : (s.monitorOf cfg c).path c i = [k]
  msg : .newSub k sub ∈ (s.monitorOf cfg c).newMsgs ++ (s.monitorOf cfg c).inbox
  connId : sub.connId = c
  subId : sub.subId = i
  latest : sub.latestEventId = (L : WithTop Nat)
  group : sub.filterGroup = g
  all : A → ∀ r ∈ s.db.event.rows, g.doesMatch r.2 = true → r.1 ≤ L → r.1 ∈ levIdsOf out
  le : ∀ x ∈ levIdsOf out, x ≤ L
  seen : .newSub k sub ∈ (s.monitorOf cfg c).newMsgs →
    ∀ r ∈ s.db.event.rows, r.1 ≤ L → r ∈ (s.monitorOf cfg c).txn.event.rows
  order : EoseBetween out
  installed : R ∨ s.installed cfg c i = none

/-- The levId has been used, and no event has it any more. -/
structure UsedUp (cfg : RelayConfig) (s : Relay) (c levId : Nat) : Prop where
  le_highest : levId ≤ s.highest
  db : ∀ r ∈ s.db.event.rows, r.1 ≠ levId
  txn : ∀ r ∈ (s.monitorOf cfg c).txn.event.rows, r.1 ≠ levId

/-- The monitor has the subscription, and has sent what there is up to `K`. -/
structure Monitored (cfg : RelayConfig) (A : Prop) (g : NostrFilterGroup) (c : Nat) (i : SubId) (s : Relay)
    (out : List Output) (L K : Nat) (p : MonitorPtr) (sub : Subscription) : Prop where
  gone : (s.workerOf cfg c).queries.live c i = none
  path : (s.monitorOf cfg c).path c i = []
  holds : (s.monitorOf cfg c).monitors.Holds c i K p sub
  group : sub.filterGroup = g
  latest : sub.latestEventId ≤ (K : WithTop Nat)
  curr : (s.monitorOf cfg c).currEventId ≤ (K : WithTop Nat)
  le : L ≤ K
  le_highest : K ≤ s.highest
  all : A → ∀ r ∈ s.db.event.rows, g.doesMatch r.2 = true → r.1 ≤ K → r.1 ∈ levIdsOf out
  old : ∀ x ∈ levIdsOf out, (x : WithTop Nat) ≤ sub.latestEventId ∨ UsedUp cfg s c x
  order : EoseBetween out

/-- The subscription has been refused. -/
structure Ended (cfg : RelayConfig) (A : Prop) (g : NostrFilterGroup) (c : Nat) (i : SubId) (s : Relay)
    (out : List Output) (L : Nat) : Prop where
  gone : (s.workerOf cfg c).queries.live c i = none
  path : (s.monitorOf cfg c).path c i = []
  installed : s.installed cfg c i = none
  le_highest : L ≤ s.highest
  all : A → out ≠ [] → ∀ r ∈ s.db.event.rows, g.doesMatch r.2 = true → r.1 ≤ L → r.1 ∈ levIdsOf out
  order : out = [] ∨ EoseBetween out

/-- Where a subscription is. -/
inductive Progress (cfg : RelayConfig) (A R : Prop) (E : Set (Nat × PackedEvent)) (g : NostrFilterGroup)
    (c : Nat) (i : SubId) (s : Relay) (out : List Output) (L : Nat) : Prop
  | querying {history : History} {h : HeapQuery} {calls : List Nat} :
      Querying cfg A R E g c i s out L history h calls → Progress cfg A R E g c i s out L
  | waiting {k : Nat} {sub : Subscription} :
      Waiting cfg A R g c i s out L k sub → Progress cfg A R E g c i s out L
  | monitored {K : Nat} {p : MonitorPtr} {sub : Subscription} :
      Monitored cfg A g c i s out L K p sub → Progress cfg A R E g c i s out L
  | ended : Ended cfg A g c i s out L → Progress cfg A R E g c i s out L

/-- No event has been sent twice, and all match. That none is missing rests on `A`. -/
structure Handoff (cfg : RelayConfig) (A R : Prop) (E : Set (Nat × PackedEvent)) (g : NostrFilterGroup)
    (c : Nat) (i : SubId) (s : Relay) (out : List Output) (L : Nat) : Prop where
  once : (levIdsOf out).Nodup
  shows : ∀ o ∈ out, o.Shows E g
  progress : Progress cfg A R E g c i s out L

/-! ## Steps -/

/-- There is no query for the subscription id, and no message for it on its way to the monitor. -/
structure Settled (cfg : RelayConfig) (s : Relay) (c : Nat) (i : SubId) : Prop where
  live : (s.workerOf cfg c).queries.live c i = none
  path : (s.monitorOf cfg c).path c i = []

/-- The monitor handles no DBChange in the step before the subscription id is settled. -/
def Calm (cfg : RelayConfig) (c : Nat) (i : SubId) (s s' : Relay) : Prop :=
  (s.monitorOf cfg c).newMsgs = .dbChange :: (s'.monitorOf cfg c).newMsgs → Settled cfg s c i

/-- If the monitor handles a DBChange in the step, the subscription id is settled, or the walk comes upon no event
that the installed subscription matches. -/
def Quiet (cfg : RelayConfig) (c : Nat) (i : SubId) (s s' : Relay) : Prop :=
  (s.monitorOf cfg c).newMsgs = .dbChange :: (s'.monitorOf cfg c).newMsgs →
    Settled cfg s c i ∨ ∀ sub, s.installed cfg c i = some sub →
      ∀ r ∈ (s.monitorOf cfg c).txn.event.rowsFrom (startAfter (s.monitorOf cfg c).currEventId),
        sub.filterGroup.doesMatch r.2 = false

theorem Calm.quiet (h : Calm cfg c i s s') : Quiet cfg c i s s' := fun hnext => .inl (h hnext)

/-- A message of a monitor thread that has none for the subscription id. -/
theorem serialFor_eq_none_of_path {th : ReqMonitor} {msg : MsgReqMonitor} {rest : List MsgReqMonitor}
    (hpath : th.path c i = []) (next : th.newMsgs = msg :: rest) :
    msg.serialFor c i = none ∧ ∀ monitors currEventId, ReqMonitor.path
      { th with newMsgs := rest, monitors := monitors, currEventId := currEventId } c i = [] := by
  rw [ReqMonitor.path, next, List.cons_append] at hpath
  cases hk : msg.serialFor c i with
  | none =>
    rw [List.filterMap_cons_none hk] at hpath
    exact ⟨rfl, fun _ _ => hpath⟩
  | some k =>
    rw [List.filterMap_cons_some hk] at hpath
    cases hpath

/-- Without a REQ for it the subscription id stays settled. -/
theorem KeyStep.settled {act : Action} (hstep : KeyStep cfg s act s' c i) (h : Settled cfg s c i) :
    Settled cfg s' c i := by
  cases hstep with
  | apart more live others monitor log =>
    refine ⟨live.trans h.live, ?_⟩
    rw [monitor, ReqMonitor.path_push, others, List.append_nil]
    exact h.path
  | slice txn n step q r opened slice queries monitor log => cases h.live.symm.trans slice.live
  | pop live done monitor log =>
    refine ⟨live.trans h.live, ?_⟩
    have hpath := h.path
    rw [ReqMonitor.path, done, List.nil_append] at hpath
    rw [monitor, ReqMonitor.path, List.append_nil]
    exact hpath
  | msg msg rest p step name live next unused handled monitor log =>
    refine ⟨live.trans h.live, ?_⟩
    rw [monitor]
    exact (serialFor_eq_none_of_path h.path next).2 _ _

/-- What a step leaves as it is for a connection. -/
structure Between (cfg : RelayConfig) (E : Set (Nat × PackedEvent)) (c : Nat) (s s' : Relay) : Prop where
  fresh : FreshIn E s s'
  highest : s.highest ≤ s'.highest
  since : ∀ L history, Since E L history s → Since E L (s'.db.toStore :: history) s'
  txn : ∀ txn, (s'.workerOf cfg c).txn = some txn →
    (s.workerOf cfg c).txn = some txn ∨ txn = s'.db.toStore
  sees : Sees E s (s.monitorOf cfg c)
  monitors : (s.monitorOf cfg c).monitors.Inv

/-- An event with a levId that had been used is not a new one. -/
theorem Between.old (h : Between cfg E c s s') {r : Nat × PackedEvent} (hr : r ∈ s'.db.event.rows)
    (hle : r.1 ≤ s.highest) : r ∈ s.db.event.rows :=
  (h.fresh.new r hr).resolve_right (not_lt.mpr hle)

/-- What has been sent of the events up to `K` stays all there is of them. -/
theorem Between.all (h : Between cfg E c s s') {K : Nat} (hK : K ≤ s.highest)
    (hall : A → ∀ r ∈ s.db.event.rows, g.doesMatch r.2 = true → r.1 ≤ K → r.1 ∈ levIdsOf out) :
    A → ∀ r ∈ s'.db.event.rows, g.doesMatch r.2 = true → r.1 ≤ K → r.1 ∈ levIdsOf out :=
  fun hA r hr hm hle => hall hA r (h.old hr (hle.trans hK)) hm hle

/-- The transaction of the worker is one of the history, or a new one. -/
theorem Between.snapshot (h : Between cfg E c s s') {history : History}
    (htxn : ∀ txn, (s.workerOf cfg c).txn = some txn → txn ∈ history) :
    ∀ txn, (s'.workerOf cfg c).txn = some txn → txn ∈ s'.db.toStore :: history := by
  intro txn hnew
  rcases h.txn txn hnew with hold | rfl
  · exact List.mem_cons_of_mem _ (htxn txn hold)
  · exact List.mem_cons_self

/-- What a monitor thread has of its own is the same. -/
theorem installed_congr (h : (s'.monitorOf cfg c).monitors = (s.monitorOf cfg c).monitors) (i : SubId) :
    s'.installed cfg c i = s.installed cfg c i := congrArg (fun m => m.installed c i) h

/-! ### While the query runs -/

/-- No event that a step adds is one that the query is for. -/
theorem Between.matchingUpTo_subset (hb : Between cfg E c s s') {history : History}
    (h : Since E L history s) (f : NostrFilter) :
    History.matchingUpTo (s'.db.toStore :: history) f L ⊆ history.matchingUpTo f L := by
  rintro levId ⟨⟨r, ⟨st, hst, hr⟩, rfl, hm⟩, hle⟩
  refine ⟨⟨r, ?_, rfl, hm⟩, hle⟩
  rcases List.mem_cons.mp hst with rfl | hst
  · exact ⟨_, h.now, hb.old hr ((WithTop.coe_le_coe.mp hle).trans h.latest)⟩
  · exact ⟨st, hst, hr⟩

theorem Answering.le {history : History} {query : DBQuery} {calls : List Nat}
    (h : Answering cfg A E g s out L history query calls) : ∀ x ∈ calls, x ≤ L := by
  intro x hx
  have hle := (h.sound.sound x hx).1
  rw [h.latest] at hle
  exact WithTop.coe_le_coe.mp hle

/-- A step in which the query does not run. -/
theorem Answering.step {history : History} {query : DBQuery} {calls : List Nat}
    (h : Answering cfg A E g s out L history query calls) (hb : Between cfg E c s s') :
    Answering cfg A E g s' out L (s'.db.toStore :: history) query calls where
  since := hb.since L history h.since
  latest := h.latest
  group := h.group
  sound := h.sound.commit _
  limit := fun hA f hf => lt_of_le_of_lt (Set.ncard_le_ncard (hb.matchingUpTo_subset h.since f)
    (history.finite_matchingUpTo f L)) (h.limit hA f hf)
  tracks := fun hA => (h.tracks hA).commit _
  stored := h.stored
  shows := h.shows
  sublist := h.sublist
  all := fun r hr hmem => h.all r (hb.old hr ((h.le r.1 hmem).trans h.since.latest)) hmem

/-- A slice passes on its callbacks if the event is still in the snapshot. -/
theorem mem_passedOn {txn : Store} {levIds : List Nat} {x : Nat} :
    x ∈ QueryScheduler.passedOn true txn levIds ↔ x ∈ levIds ∧ (txn.eventPayload.get? x).isSome = true := by
  rw [QueryScheduler.passedOn, if_pos rfl, List.mem_filter]

/-- What a slice sends. -/
theorem Answering.shows_queryEvents {history : History} {query query' : DBQuery} {calls : List Nat} {txn : Store}
    {new : List Nat} (h : Answering cfg A E g s out L history query calls) (hst : txn ∈ history)
    (hgroup : query'.sub.filterGroup = g) (hsound : query'.Sound history (calls ++ new)) :
    ∀ o ∈ queryEvents txn c i (QueryScheduler.passedOn true txn new), o.Shows E g := by
  intro o ho
  obtain ⟨levId, hlev, rfl⟩ := List.mem_map.mp ho
  obtain ⟨hnew, hpayload⟩ := mem_passedOn.mp hlev
  obtain ⟨-, f, hf, r, hr, rfl, hm⟩ := hsound.sound levId (List.mem_append_right _ hnew)
  -- what is looked up under the levId is the event that has matched
  rw [h.since.payload txn hst] at hpayload
  obtain ⟨p, hp⟩ := Option.isSome_iff_exists.mp hpayload
  have hsame : (r.1, p) = r := h.since.levId _ r ⟨txn, hst, Table.get?_eq_some_iff.mp hp⟩ hr rfl
  rw [DBQuery.filters, hgroup] at hf
  refine ⟨p, hp, ?_, (NostrFilterGroup.doesMatch_iff _ _).mpr ⟨f, hf, ?_⟩⟩
  · rw [hsame]
    exact (h.since.ever r hr).1
  · rw [← hsame] at hm
    exact hm

/-- A slice of the query. -/
theorem Answering.slice {history : History} {query : DBQuery} {calls : List Nat} {txn : Store} {n : Nat}
    {r : DBQuery × List Nat × Bool} (h : Answering cfg A E g s out L history query calls)
    (hcur : A → ∀ f ∈ g.filters, DBScan.numCursors f ≤ 2 ^ 24) (hst : txn ∈ history)
    (hprocess : query.process cfg.S cfg.ord txn n = some r) (c : Nat) (i : SubId) :
    r.1.sub = query.sub ∧
    Answering cfg A E g s (out ++ queryEvents txn c i (QueryScheduler.passedOn true txn r.2.1)) L history r.1
      (calls ++ r.2.1) ∧
    (A → r.2.2 = true → r.1.filterGroupIndex = r.1.filters.length) := by
  have hfilters : query.filters = g.filters := by rw [DBQuery.filters, h.group]
  -- that nothing is missing needs the limits and the cursors, that nothing is wrong does not
  have htracks : A → SliceTracks cfg.ord history query calls r := by
    intro hA
    have hlimit : ∀ f ∈ query.filters, (history.matchingUpTo f query.sub.latestEventId).ncard < f.limit := by
      rw [hfilters, h.latest]
      exact h.limit hA
    obtain ⟨r', hr', hslice⟩ :=
      (h.tracks hA).process cfg.S h.since.ok hlimit (hfilters ▸ hcur hA) hst n
    cases hr'.symm.trans hprocess
    exact hslice
  obtain ⟨hsub, hsound⟩ := h.sound.process h.since.ok hst hprocess
  have hgroup : r.1.sub.filterGroup = g := by rw [hsub, h.group]
  have hlatest : r.1.sub.latestEventId = (L : WithTop Nat) := by rw [hsub, h.latest]
  refine ⟨hsub, ⟨h.since, hlatest, hgroup, hsound, h.limit, fun hA => (htracks hA).2.1, ?_, ?_, ?_, ?_⟩,
    fun hA => (htracks hA).2.2⟩
  · intro o ho
    rcases List.mem_append.mp ho with ho | ho
    · exact h.stored o ho
    · obtain ⟨levId, -, rfl⟩ := List.mem_map.mp ho
      rfl
  · intro o ho
    rcases List.mem_append.mp ho with ho | ho
    · exact h.shows o ho
    · exact h.shows_queryEvents hst hgroup hsound o ho
  · rw [levIdsOf_append, levIdsOf_queryEvents, QueryScheduler.passedOn, if_pos rfl]
    exact h.sublist.append List.filter_sublist
  · intro x hx hmem
    rw [levIdsOf_append, levIdsOf_queryEvents]
    rcases List.mem_append.mp hmem with hcall | hnew
    · exact List.mem_append_left _ (h.all x hx hcall)
    · apply List.mem_append_right
      refine mem_passedOn.mpr ⟨hnew, ?_⟩
      -- it is stored in the transaction of the slice too, so that it is looked up there
      have hle := (hsound.sound x.1 hmem).1
      rw [hlatest] at hle
      have hkept := h.since.kept x hx (WithTop.coe_le_coe.mp hle) txn hst
      rw [h.since.payload txn hst, Table.get?_eq_some_iff.mpr hkept]
      rfl

/-- When all filters are done, nothing is missing. -/
theorem Answering.complete {history : History} {query : DBQuery} {calls : List Nat}
    (h : Answering cfg A E g s out L history query calls) (hA : A)
    (hdone : query.filterGroupIndex = query.filters.length) :
    ∀ r ∈ s.db.event.rows, g.doesMatch r.2 = true → r.1 ≤ L → r.1 ∈ levIdsOf out := by
  intro r hr hm hle
  apply h.all r hr
  -- the filter that matches is one of those that are done
  obtain ⟨f, hf, hfm⟩ := (NostrFilterGroup.doesMatch_iff _ _).mp hm
  apply (h.tracks hA).past f _ r (h.since.kept r hr hle) hfm
  · rw [h.latest]
    exact WithTop.coe_le_coe.mpr hle
  · rw [hdone, List.take_length, DBQuery.filters, h.group]
    exact hf

/-- A query that does not run in the step. -/
theorem Querying.keep {history : History} {q : HeapQuery} {calls : List Nat}
    (h : Querying cfg A R E g c i s out L history q calls) (hb : Between cfg E c s s')
    (hlive : (s'.workerOf cfg c).queries.live c i = (s.workerOf cfg c).queries.live c i)
    (hpath : (s'.monitorOf cfg c).path c i = []) (hinst : R ∨ s'.installed cfg c i = none) :
    Querying cfg A R E g c i s' out L (s'.db.toStore :: history) q calls where
  toAnswering := h.toAnswering.step hb
  txn := hb.snapshot h.txn
  live := hlive.trans h.live
  connId := h.connId
  subId := h.subId
  path := hpath
  installed := hinst

theorem Querying.handoff {history : History} {q : HeapQuery} {calls : List Nat}
    (h : Querying cfg A R E g c i s out L history q calls) : Handoff cfg A R E g c i s out L where
  once := h.sound.nodup.sublist h.sublist
  shows := h.shows
  progress := .querying h

/-- The query goes on after the slice. -/
theorem Querying.paused {history : History} {q : HeapQuery} {calls : List Nat} {query : DBQuery}
    {out' : List Output} {calls' : List Nat} (h : Querying cfg A R E g c i s out L history q calls)
    (hb : Between cfg E c s s') (ha : Answering cfg A E g s out' L history query calls')
    (hsub : query.sub = q.query.sub)
    (hlive : (s'.workerOf cfg c).queries.live c i = some { q with query := query })
    (hmonitor : s'.monitorOf cfg c = s.monitorOf cfg c) : Handoff cfg A R E g c i s' out' L := by
  have hquery : Querying cfg A R E g c i s' out' L (s'.db.toStore :: history) { q with query := query }
      calls' := by
    refine ⟨ha.step hb, hb.snapshot h.txn, hlive, ?_, ?_, hmonitor ▸ h.path,
      h.installed.imp_right (installed_congr (congrArg ReqMonitor.monitors hmonitor) i).trans⟩
    · show query.sub.connId = c
      rw [hsub, h.connId]
    · show query.sub.subId = i
      rw [hsub, h.subId]
  exact hquery.handoff

/-- The query is complete, and the NewSub is sent to the monitor. -/
theorem Querying.completed {history : History} {q : HeapQuery} {calls : List Nat} {query : DBQuery}
    {out' : List Output} {calls' : List Nat} (h : Querying cfg A R E g c i s out L history q calls)
    (hb : Between cfg E c s s') (ha : Answering cfg A E g s out' L history query calls')
    (hdone : A → query.filterGroupIndex = query.filters.length)
    (hlive : (s'.workerOf cfg c).queries.live c i = none)
    (hinbox : s'.monitorOf cfg c = { s.monitorOf cfg c with
      inbox := (s.monitorOf cfg c).inbox ++ [.newSub q.serial q.query.sub] }) :
    Handoff cfg A R E g c i s' (out' ++ [.eose q.serial c i]) L := by
  have hlevIds : levIdsOf (out' ++ [Output.eose q.serial c i]) = levIdsOf out' := by
    rw [levIdsOf_append, levIdsOf_eose, List.append_nil]
  have ha' := ha.step hb
  -- no message for the subscription id was on its way
  have hnone : .newSub q.serial q.query.sub ∉ (s.monitorOf cfg c).newMsgs := by
    intro hmem
    have hpath := h.path
    rw [ReqMonitor.path, List.filterMap_eq_nil_iff] at hpath
    have hser := hpath _ (List.mem_append_left _ hmem)
    rw [MsgReqMonitor.serialFor, if_pos ⟨h.connId, h.subId⟩] at hser
    cases hser
  have hwaiting : Waiting cfg A R g c i s' (out' ++ [.eose q.serial c i]) L q.serial q.query.sub := by
    refine ⟨hlive, h.since.latest.trans hb.highest, ?_, ?_, h.connId, h.subId, h.latest, h.group, ?_, ?_, ?_,
      ?_, ?_⟩
    · rw [hinbox, ReqMonitor.path_push, h.path, List.filterMap_cons_some (b := q.serial)]
      · rfl
      · rw [MsgReqMonitor.serialFor, if_pos ⟨h.connId, h.subId⟩]
    · rw [hinbox]
      simp
    · rw [hlevIds]
      exact fun hA => ha'.complete hA (hdone hA)
    · rw [hlevIds]
      exact fun x hx => ha.le x (ha.sublist.subset hx)
    · rw [hinbox]
      exact fun hmem => absurd hmem hnone
    · exact ⟨_, q.serial, c, i, [], rfl, ha.stored, fun o ho => absurd ho List.not_mem_nil⟩
    · have hmonitors : (s'.monitorOf cfg c).monitors = (s.monitorOf cfg c).monitors := by rw [hinbox]
      exact h.installed.imp_right (installed_congr hmonitors i).trans
  refine ⟨?_, fun o ho => ?_, .waiting hwaiting⟩
  · rw [hlevIds]
    exact ha.sound.nodup.sublist ha.sublist
  · rcases List.mem_append.mp ho with ho | ho
    · exact ha.shows o ho
    · rw [List.mem_singleton.mp ho]
      trivial

/-- A slice of the query. -/
theorem Querying.slice {history : History} {q h' : HeapQuery} {calls : List Nat} {txn : Store} {n : Nat}
    {step : WorkerStep} {r : DBQuery × List Nat × Bool} (h : Querying cfg A R E g c i s out L history q calls)
    (hb : Between cfg E c s s') (hcur : A → ∀ f ∈ g.filters, DBScan.numCursors f ≤ 2 ^ 24)
    (opened : (s.workerOf cfg c).txn = some txn)
    (hslice : KeySlice cfg txn n (s.workerOf cfg c).queries step c i h' r)
    (hqueries : (s'.workerOf cfg c).queries = step.queries)
    (hmonitor : s'.monitorOf cfg c = { s.monitorOf cfg c with
      inbox := (s.monitorOf cfg c).inbox ++ step.dispatchedTo cfg (c % cfg.numReqMonitor) }) :
    Handoff cfg A R E g c i s' (out ++ step.sent.filter (Output.isFor c i)) L := by
  -- the query that has run is the one that is followed
  cases h.live.symm.trans hslice.live
  obtain ⟨hsub, ha, hdone⟩ := h.toAnswering.slice hcur (h.txn txn opened) hslice.process c i
  have hlive := hslice.live'
  have hdisp := hslice.dispatched
  rw [← hqueries] at hlive
  rw [hslice.sent, ← List.append_assoc]
  cases hc : r.2.2 with
  | false =>
    rw [hc] at hlive hdisp
    rw [if_neg Bool.false_ne_true, List.append_nil]
    refine h.paused hb ha hsub hlive ?_
    rw [hmonitor, WorkerStep.dispatchedTo, hdisp]
    exact monitor_eta _
  | true =>
    rw [hc] at hlive hdisp
    rw [if_pos rfl]
    refine h.completed hb ha (fun hA => hdone hA hc) hlive ?_
    rw [hmonitor, WorkerStep.dispatchedTo, hdisp]
    simp

/-! ### While the NewSub is on its way -/

/-- A step that does not touch the messages of the subscription id. -/
theorem Waiting.keep {k : Nat} {sub : Subscription} (h : Waiting cfg A R g c i s out L k sub)
    (hb : Between cfg E c s s')
    (hlive : (s'.workerOf cfg c).queries.live c i = (s.workerOf cfg c).queries.live c i)
    (hpath : (s'.monitorOf cfg c).path c i = [k])
    (hmsg : .newSub k sub ∈ (s'.monitorOf cfg c).newMsgs ++ (s'.monitorOf cfg c).inbox)
    (hseen : .newSub k sub ∈ (s'.monitorOf cfg c).newMsgs →
      ∀ r ∈ s'.db.event.rows, r.1 ≤ L → r ∈ (s'.monitorOf cfg c).txn.event.rows)
    (hinst : R ∨ s'.installed cfg c i = none) : Waiting cfg A R g c i s' out L k sub where
  gone := hlive.trans h.gone
  le_highest := h.le_highest.trans hb.highest
  path := hpath
  msg := hmsg
  connId := h.connId
  subId := h.subId
  latest := h.latest
  group := h.group
  all := hb.all h.le_highest h.all
  le := h.le
  seen := hseen
  order := h.order
  installed := hinst

/-- The NewSub is the only message for the subscription id. -/
theorem Waiting.eq_of_serialFor {k k' : Nat} {sub : Subscription} {msg : MsgReqMonitor}
    {rest : List MsgReqMonitor} (h : Waiting cfg A R g c i s out L k sub)
    (next : (s.monitorOf cfg c).newMsgs = msg :: rest) (hser : msg.serialFor c i = some k') :
    msg = .newSub k sub ∧ (rest ++ (s.monitorOf cfg c).inbox).filterMap (MsgReqMonitor.serialFor c i) = [] := by
  have hpath := h.path
  have hmsg := h.msg
  rw [ReqMonitor.path, next, List.cons_append, List.filterMap_cons_some hser] at hpath
  rw [next, List.cons_append] at hmsg
  -- the path has one element, which this message takes
  have hnil := (List.cons.inj hpath).2
  refine ⟨?_, hnil⟩
  rcases List.mem_cons.mp hmsg with heq | hmem
  · exact heq.symm
  · rw [List.filterMap_eq_nil_iff] at hnil
    have hnone := hnil _ hmem
    rw [MsgReqMonitor.serialFor, if_pos ⟨h.connId, h.subId⟩] at hnone
    cases hnone

/-- A message for another subscription id. -/
theorem Waiting.other {k : Nat} {sub : Subscription} {msg : MsgReqMonitor} {rest : List MsgReqMonitor}
    (h : Waiting cfg A R g c i s out L k sub) (next : (s.monitorOf cfg c).newMsgs = msg :: rest)
    (hser : msg.serialFor c i = none) :
    (rest ++ (s.monitorOf cfg c).inbox).filterMap (MsgReqMonitor.serialFor c i) = [k] ∧
      .newSub k sub ∈ rest ++ (s.monitorOf cfg c).inbox := by
  have hpath := h.path
  have hmsg := h.msg
  rw [ReqMonitor.path, next, List.cons_append, List.filterMap_cons_none hser] at hpath
  rw [next, List.cons_append] at hmsg
  refine ⟨hpath, ?_⟩
  rcases List.mem_cons.mp hmsg with rfl | hmem
  · rw [MsgReqMonitor.serialFor, if_pos ⟨h.connId, h.subId⟩] at hser
    cases hser
  · exact hmem

/-- The monitor gets the NewSub: it sends what is newer than the query, and keeps the subscription or refuses
it. -/
theorem Waiting.newSub {k : Nat} {sub : Subscription} {rest : List MsgReqMonitor} {p : MonitorPtr}
    {step : MonitorStep} (h : Waiting cfg A R g c i s out L k sub) (hb : Between cfg E c s s')
    (hhand : Handoff cfg A R E g c i s out L)
    (hlive : (s'.workerOf cfg c).queries.live c i = (s.workerOf cfg c).queries.live c i)
    (next : (s.monitorOf cfg c).newMsgs = .newSub k sub :: rest)
    (unused : (s.monitorOf cfg c).monitors.monitors.lookup p = none)
    (handled : monitorHandle cfg (s.monitorOf cfg c).txn p (s.monitorOf cfg c).monitors
      (s.monitorOf cfg c).currEventId (.newSub k sub) = some step)
    (hmonitor : s'.monitorOf cfg c = { s.monitorOf cfg c with
      newMsgs := rest, monitors := step.monitors, currEventId := step.currEventId }) :
    Handoff cfg A R E g c i s' (out ++ step.sent.filter (Output.isFor c i)) L := by
  obtain ⟨accepted, hok, hcurr, hsent⟩ := monitorHandle_newSub handled
  obtain ⟨b, monitors', hok', -, hmon, hitem⟩ := ActiveMonitors.addSub_spec hb.monitors
    cfg.maxSubsPerConnection unused
    { sub with latestEventId := ((s.monitorOf cfg c).txn.getMostRecentLevId : WithTop Nat) } rfl
  rw [hok] at hok'
  cases hok'
  have hinstalled := ActiveMonitors.installed_addSub hb.monitors unused hok c i
  have hfor : step.sent.filter (Output.isFor c i) = catchUp (s.monitorOf cfg c).txn sub := by
    have hcatch := filter_catchUp (s.monitorOf cfg c).txn sub
    rw [h.connId, h.subId] at hcatch
    rw [hsent, List.filter_append, hcatch]
    cases accepted <;> simp [Output.isFor]
  have hmem : ∀ x, x ∈ levIdsOf (catchUp (s.monitorOf cfg c).txn sub) ↔
      ∃ r ∈ (s.monitorOf cfg c).txn.event.rows, r.1 = x ∧ L < r.1 ∧ sub.filterGroup.doesMatch r.2 = true :=
    fun x => mem_levIdsOf_catchUp h.latest
  rw [h.group] at hmem
  have hlevIds : levIdsOf (out ++ step.sent.filter (Output.isFor c i)) =
      levIdsOf out ++ levIdsOf (catchUp (s.monitorOf cfg c).txn sub) := by rw [hfor, levIdsOf_append]
  -- the query has sent what is not newer than it, and the monitor the rest of its snapshot
  have honce : (levIdsOf (out ++ step.sent.filter (Output.isFor c i))).Nodup := by
    rw [hlevIds]
    refine hhand.once.append (nodup_levIdsOf_catchUp _ _) fun x hold hnew => ?_
    obtain ⟨r, -, rfl, hlt, -⟩ := (hmem x).mp hnew
    exact absurd (h.le _ hold) (not_le.mpr hlt)
  have hshows : ∀ o ∈ out ++ step.sent.filter (Output.isFor c i), o.Shows E g := by
    intro o ho
    rcases List.mem_append.mp ho with ho | ho
    · exact hhand.shows o ho
    · rw [hfor] at ho
      exact h.group ▸ shows_catchUp hb.sees.within sub o ho
  have hall : A → ∀ r ∈ s'.db.event.rows, g.doesMatch r.2 = true →
      r.1 ≤ max L (s.monitorOf cfg c).txn.event.lastKey →
        r.1 ∈ levIdsOf (out ++ step.sent.filter (Output.isFor c i)) := by
    intro hA r hr hm hle
    rw [hlevIds]
    have hr' := hb.old hr (hle.trans (max_le h.le_highest hb.sees.lastKey_le))
    rcases le_or_gt r.1 L with hleL | hltL
    · exact List.mem_append_left _ (h.all hA r hr' hm hleL)
    · apply List.mem_append_right
      have hlast := (le_max_iff.mp hle).resolve_left (not_le.mpr hltL)
      exact (hmem r.1).mpr ⟨r, hb.sees.rows r hr' hlast, rfl, hltL, hm⟩
  have hpath' : (s'.monitorOf cfg c).path c i = [] := by
    obtain ⟨-, hnil⟩ := h.eq_of_serialFor next (by rw [MsgReqMonitor.serialFor, if_pos ⟨h.connId, h.subId⟩])
    rw [hmonitor]
    exact hnil
  have horder : EoseBetween (out ++ step.sent.filter (Output.isFor c i)) := by
    apply h.order.append
    rw [hfor]
    intro o ho
    obtain ⟨r, -, rfl⟩ := List.mem_map.mp ho
    rfl
  refine ⟨honce, hshows, ?_⟩
  cases accepted with
  | false =>
    refine .ended ⟨hlive.trans h.gone, hpath', ?_, h.le_highest.trans hb.highest, fun hA _ r hr hm hle => ?_,
      .inr horder⟩
    · rw [if_pos ⟨h.connId.symm, h.subId.symm⟩] at hinstalled
      show (s'.monitorOf cfg c).monitors.installed c i = none
      rw [hmonitor]
      exact hinstalled
    · exact hall hA r hr hm (hle.trans (le_max_left _ _))
  | true =>
    have hnew := (hmon p _).mpr (.inl ⟨rfl, rfl, rfl⟩)
    have hstep : (s'.monitorOf cfg c).monitors = step.monitors := by rw [hmonitor]
    suffices hmonitored : Monitored cfg A g c i s' (out ++ step.sent.filter (Output.isFor c i)) L
        (max L (s.monitorOf cfg c).txn.event.lastKey) p
        { sub with latestEventId := ((s.monitorOf cfg c).txn.getMostRecentLevId : WithTop Nat) } from
      .monitored hmonitored
    refine ⟨hlive.trans h.gone, hpath', ⟨hstep ▸ hnew, h.connId, h.subId, fun e item hp he => ?_⟩, h.group,
      ?_, ?_, le_max_left _ _, (max_le h.le_highest hb.sees.lastKey_le).trans hb.highest, hall,
      fun x hx => ?_, horder⟩
    · rw [hstep] at he
      rcases hitem e item he with ⟨-, -, rfl⟩ | hold
      · exact le_max_right _ _
      · -- the pointer had no items
        obtain ⟨sub', hsub', -⟩ := (hb.monitors.entered e).mp (by rw [hold]; rfl)
        rw [hp, unused] at hsub'
        cases hsub'
    · exact WithTop.coe_le_coe.mpr (le_max_right _ _)
    · rw [hmonitor]
      show step.currEventId ≤ _
      rw [hcurr]
      have hle := hb.sees.currEventId (by rw [next]; exact List.cons_ne_nil _ _)
      exact hle.trans (WithTop.coe_le_coe.mpr (le_max_right _ _))
    · rw [hlevIds] at hx
      rcases List.mem_append.mp hx with hold | hnew
      · rcases le_or_gt x (s.monitorOf cfg c).txn.event.lastKey with hle | hlt
        · exact .inl (WithTop.coe_le_coe.mpr hle)
        · -- the event is not stored any more, or the monitor would see it
          have hxL := h.le x hold
          have hhigh := hxL.trans h.le_highest
          refine .inr ⟨hhigh.trans hb.highest, ?_, ?_⟩
          · rintro r hr rfl
            have hseen := h.seen (by rw [next]; exact List.mem_cons_self) r (hb.old hr hhigh) hxL
            exact absurd (Table.le_lastKey hseen) (not_le.mpr hlt)
          · rw [hmonitor]
            rintro r hr rfl
            exact absurd (Table.le_lastKey hr) (not_le.mpr hlt)
      · obtain ⟨r, hr, rfl, -, -⟩ := (hmem x).mp hnew
        exact .inl (WithTop.coe_le_coe.mpr (Table.le_lastKey hr))

/-! ### While the monitor has the subscription -/

/-- A used levId stays used. -/
theorem UsedUp.step {x : Nat} (h : UsedUp cfg s c x) (hb : Between cfg E c s s')
    (htxn : ∀ r ∈ (s'.monitorOf cfg c).txn.event.rows,
      r ∈ (s.monitorOf cfg c).txn.event.rows ∨ r ∈ s.db.event.rows) : UsedUp cfg s' c x where
  le_highest := h.le_highest.trans hb.highest
  db := by
    rintro r hr rfl
    exact h.db r (hb.old hr h.le_highest) rfl
  txn := by
    intro r hr
    rcases htxn r hr with hr | hr
    · exact h.txn r hr
    · exact h.db r hr

/-- A step that sends nothing to the subscription. -/
theorem Monitored.keep {K : Nat} {p : MonitorPtr} {sub : Subscription}
    (h : Monitored cfg A g c i s out L K p sub) (hb : Between cfg E c s s')
    (hlive : (s'.workerOf cfg c).queries.live c i = (s.workerOf cfg c).queries.live c i)
    (hpath : (s'.monitorOf cfg c).path c i = []) (hholds : (s'.monitorOf cfg c).monitors.Holds c i K p sub)
    (hcurr : (s'.monitorOf cfg c).currEventId ≤ (s.monitorOf cfg c).currEventId)
    (htxn : ∀ r ∈ (s'.monitorOf cfg c).txn.event.rows,
      r ∈ (s.monitorOf cfg c).txn.event.rows ∨ r ∈ s.db.event.rows) :
    Monitored cfg A g c i s' out L K p sub where
  gone := hlive.trans h.gone
  path := hpath
  holds := hholds
  group := h.group
  latest := h.latest
  curr := hcurr.trans h.curr
  le := h.le
  le_highest := h.le_highest.trans hb.highest
  all := hb.all h.le_highest h.all
  old := fun x hx => (h.old x hx).imp_right fun hused => hused.step hb htxn
  order := h.order

/-- The walk of a DBChange. -/
theorem Monitored.dbChange {K : Nat} {p q : MonitorPtr} {sub : Subscription} {rest : List MsgReqMonitor}
    {step : MonitorStep} (h : Monitored cfg A g c i s out L K p sub) (hb : Between cfg E c s s')
    (hhand : Handoff cfg A R E g c i s out L)
    (hlive : (s'.workerOf cfg c).queries.live c i = (s.workerOf cfg c).queries.live c i)
    (hpath : (s'.monitorOf cfg c).path c i = [])
    (handled : monitorHandle cfg (s.monitorOf cfg c).txn q (s.monitorOf cfg c).monitors
      (s.monitorOf cfg c).currEventId .dbChange = some step)
    (hmonitor : s'.monitorOf cfg c = { s.monitorOf cfg c with
      newMsgs := rest, monitors := step.monitors, currEventId := step.currEventId }) :
    Handoff cfg A R E g c i s' (out ++ step.sent.filter (Output.isFor c i)) L := by
  obtain ⟨hproc, -, hcurr⟩ := monitorHandle_dbChange hb.monitors handled
  have hrows : ∀ r ∈ (s.monitorOf cfg c).txn.event.rowsFrom (startAfter (s.monitorOf cfg c).currEventId),
      r ∈ (s.monitorOf cfg c).txn.event.rows ∧ r.1 ≤ (s.monitorOf cfg c).txn.event.lastKey := by
    intro r hr
    have hr := (Table.mem_rowsFrom.mp hr).1
    exact ⟨hr, Table.le_lastKey hr⟩
  obtain ⟨got, sub', hgets, hholds, hsent⟩ := h.holds.walk hb.monitors hproc
    (le_max_left K (s.monitorOf cfg c).txn.event.lastKey) fun r hr => (hrows r hr).2.trans (le_max_right _ _)
  have hgot : ∀ r ∈ got, r ∈ (s.monitorOf cfg c).txn.event.rows := fun r hr =>
    (hrows r (hgets.sublist.subset hr)).1
  have hlevIds : levIdsOf (out ++ step.sent.filter (Output.isFor c i)) =
      levIdsOf out ++ got.map Prod.fst := by rw [hsent, levIdsOf_append, levIdsOf_liveEvents]
  obtain ⟨hgroup, hle, hbounds⟩ : sub'.filterGroup = g ∧ sub.latestEventId ≤ sub'.latestEventId ∧
      ∀ r ∈ got, sub.latestEventId < (r.1 : WithTop Nat) ∧ (r.1 : WithTop Nat) ≤ sub'.latestEventId :=
    ⟨hgets.same.2.2.trans h.group, hgets.bounds⟩
  -- what is new for the subscription has not been sent before
  have honce : (levIdsOf (out ++ step.sent.filter (Output.isFor c i))).Nodup := by
    rw [hlevIds]
    refine hhand.once.append ?_ fun x hold hnew => ?_
    · exact (List.pairwise_map.mpr hgets.increasing).imp fun hlt => hlt.ne
    · obtain ⟨r, hr, rfl⟩ := List.mem_map.mp hnew
      rcases h.old _ hold with hle | hused
      · exact absurd hle (not_le.mpr (hbounds r hr).1)
      · exact hused.txn r (hgot r hr) rfl
  have hshows : ∀ o ∈ out ++ step.sent.filter (Output.isFor c i), o.Shows E g := by
    intro o ho
    rcases List.mem_append.mp ho with ho | ho
    · exact hhand.shows o ho
    · rw [hsent] at ho
      obtain ⟨r, hr, rfl⟩ := List.mem_map.mp ho
      exact ⟨r.2, rfl, hb.sees.within r (hgot r hr), h.group ▸ hgets.doesMatch r hr⟩
  have hstep : (s'.monitorOf cfg c).monitors = step.monitors := by rw [hmonitor]
  refine ⟨honce, hshows, .monitored (K := max K (s.monitorOf cfg c).txn.event.lastKey)
    ⟨hlive.trans h.gone, hpath, hstep ▸ hholds, hgroup, ?_, ?_, h.le.trans (le_max_left _ _),
      (max_le h.le_highest hb.sees.lastKey_le).trans hb.highest, fun hA r hr hm hrle => ?_, fun x hx => ?_, ?_⟩⟩
  · rcases hgets.latestEventId with heq | ⟨r, hr, heq⟩
    · rw [heq]
      exact h.latest.trans (WithTop.coe_le_coe.mpr (le_max_left _ _))
    · rw [heq]
      exact WithTop.coe_le_coe.mpr ((hrows r hr).2.trans (le_max_right _ _))
  · rw [hmonitor]
    show step.currEventId ≤ _
    rw [hcurr]
    exact WithTop.coe_le_coe.mpr (le_max_right _ _)
  · have hr' := hb.old hr (hrle.trans (max_le h.le_highest hb.sees.lastKey_le))
    rw [levIdsOf_append]
    rcases le_or_gt r.1 K with hleK | hltK
    · exact List.mem_append_left _ (h.all hA r hr' hm hleK)
    · -- an event of the walk that all items of the subscription wait for
      apply List.mem_append_right
      have hlast := (le_max_iff.mp hrle).resolve_left (not_le.mpr hltK)
      have hrow := hb.sees.rows r hr' hlast
      have hltK' : (K : WithTop Nat) < (r.1 : WithTop Nat) := WithTop.coe_lt_coe.mpr hltK
      have hawaits := h.holds.awaits hb.monitors (h.group ▸ hm) hltK (h.latest.trans_lt hltK')
      have hmem := processEvents_complete hb.monitors h.holds.lookup hawaits (pairwise_rowsFrom _ _)
        (Table.mem_rowsFrom.mpr ⟨hrow, startAfter_le (h.curr.trans_lt hltK')⟩) hproc
      rw [h.holds.connId, h.holds.subId] at hmem
      refine List.mem_filterMap.mpr ⟨_, List.mem_filter.mpr ⟨hmem, ?_⟩, rfl⟩
      simp [liveEvent, Output.isFor]
  · rw [hlevIds] at hx
    rcases List.mem_append.mp hx with hold | hnew
    · refine (h.old x hold).imp (fun hxle => hxle.trans hle) fun hused => hused.step hb ?_
      rw [hmonitor]
      exact fun r hr => .inl hr
    · obtain ⟨r, hr, rfl⟩ := List.mem_map.mp hnew
      exact .inl (hbounds r hr).2
  · apply h.order.append
    rw [hsent]
    intro o ho
    obtain ⟨r, -, rfl⟩ := List.mem_map.mp ho
    rfl

theorem Monitored.installed_eq {K : Nat} {p : MonitorPtr} {sub : Subscription}
    (h : Monitored cfg A g c i s out L K p sub) (hinv : (s.monitorOf cfg c).monitors.Inv) :
    s.installed cfg c i = some sub :=
  (ActiveMonitors.installed_eq_some_iff hinv).mpr ⟨p, h.holds.lookup, h.holds.connId, h.holds.subId⟩

/-! ### All steps -/

/-- A refused subscription stays so. -/
theorem Ended.keep (h : Ended cfg A g c i s out L) (hb : Between cfg E c s s')
    (hlive : (s'.workerOf cfg c).queries.live c i = (s.workerOf cfg c).queries.live c i)
    (hpath : (s'.monitorOf cfg c).path c i = []) (hinst : s'.installed cfg c i = none) :
    Ended cfg A g c i s' out L where
  gone := hlive.trans h.gone
  path := hpath
  installed := hinst
  le_highest := h.le_highest.trans hb.highest
  all := fun hA hne => hb.all h.le_highest (fun hA => h.all hA hne) hA
  order := h.order

/-- A message for another subscription id sends nothing, when there is no subscription, or the walk of a DBChange
comes upon no event for it. -/
theorem monitorHandle_quiet {msg : MsgReqMonitor} {p : MonitorPtr} {step : MonitorStep}
    (hinv : (s.monitorOf cfg c).monitors.Inv)
    (unused : (s.monitorOf cfg c).monitors.monitors.lookup p = none)
    (handled : monitorHandle cfg (s.monitorOf cfg c).txn p (s.monitorOf cfg c).monitors
      (s.monitorOf cfg c).currEventId msg = some step)
    (hother : msg.serialFor c i = none) (hinst : R ∨ s.installed cfg c i = none)
    (hno : R → msg = .dbChange → ∀ sub, s.installed cfg c i = some sub →
      ∀ r ∈ (s.monitorOf cfg c).txn.event.rowsFrom (startAfter (s.monitorOf cfg c).currEventId),
        sub.filterGroup.doesMatch r.2 = false) :
    (R ∨ step.monitors.installed c i = none) ∧ step.sent.filter (Output.isFor c i) = [] := by
  rcases hinst with hR | hinst
  · refine ⟨.inl hR, ?_⟩
    by_cases hdb : msg = .dbChange
    · subst hdb
      exact monitorHandle_unmatched hinv handled (hno hR rfl)
    · exact monitorHandle_others hinv handled hother hdb
  have hnone : (s.monitorOf cfg c).monitors.installed c i = none := hinst
  constructor
  · right
    have heq := monitorHandle_request_eq hinv unused handled hother
    rw [hnone, Option.map_none, Option.map_eq_none_iff] at heq
    exact heq
  · rw [List.filter_eq_nil_iff]
    intro o ho hfor
    rcases monitorHandle_isFor hinv handled ho hfor with hsome | ⟨k, sub, rfl, hkey⟩
    · rw [hnone] at hsome
      cases hsome
    · rw [MsgReqMonitor.serialFor, if_pos hkey] at hother
      cases hother

/-- A step that has nothing to do with the subscription id. -/
theorem Handoff.apart {more : List MsgReqMonitor} (h : Handoff cfg A R E g c i s out L)
    (hb : Between cfg E c s s')
    (hlive : (s'.workerOf cfg c).queries.live c i = (s.workerOf cfg c).queries.live c i)
    (hothers : more.filterMap (MsgReqMonitor.serialFor c i) = [])
    (hmonitor : s'.monitorOf cfg c =
      { s.monitorOf cfg c with inbox := (s.monitorOf cfg c).inbox ++ more }) :
    Handoff cfg A R E g c i s' out L := by
  have hpath : (s'.monitorOf cfg c).path c i = (s.monitorOf cfg c).path c i := by
    rw [hmonitor, ReqMonitor.path_push, hothers, List.append_nil]
  have hmonitors : (s'.monitorOf cfg c).monitors = (s.monitorOf cfg c).monitors := by rw [hmonitor]
  have htxn : (s'.monitorOf cfg c).txn = (s.monitorOf cfg c).txn := by rw [hmonitor]
  have hnext : (s'.monitorOf cfg c).newMsgs = (s.monitorOf cfg c).newMsgs := by rw [hmonitor]
  have hinst := installed_congr hmonitors i
  refine ⟨h.once, h.shows, ?_⟩
  cases h.progress with
  | querying hp =>
    exact .querying (hp.keep hb hlive (hpath.trans hp.path) (hp.installed.imp_right hinst.trans))
  | @waiting k sub hp =>
    refine .waiting (hp.keep hb hlive (hpath.trans hp.path) ?_ ?_ (hp.installed.imp_right hinst.trans))
    · rw [hmonitor, ← List.append_assoc]
      exact List.mem_append_left _ hp.msg
    · rw [hnext, htxn]
      intro hmem r hr hle
      exact hp.seen hmem r (hb.old hr (hle.trans hp.le_highest)) hle
  | monitored hp =>
    refine .monitored (hp.keep hb hlive (hpath.trans hp.path) (hmonitors ▸ hp.holds) ?_ ?_)
    · rw [hmonitor]
    · rw [htxn]
      exact fun r hr => .inl hr
  | ended hp => exact .ended (hp.keep hb hlive (hpath.trans hp.path) (hinst.trans hp.installed))

/-- The monitor thread takes its messages, and a new snapshot. -/
theorem Handoff.pop (h : Handoff cfg A R E g c i s out L) (hb : Between cfg E c s s')
    (hlive : (s'.workerOf cfg c).queries.live c i = (s.workerOf cfg c).queries.live c i)
    (done : (s.monitorOf cfg c).newMsgs = [])
    (hmonitor : s'.monitorOf cfg c = { s.monitorOf cfg c with
      inbox := [], newMsgs := (s.monitorOf cfg c).inbox, txn := s.db.toStore
      currEventId := min (s.monitorOf cfg c).currEventId s.db.getMostRecentLevId }) :
    Handoff cfg A R E g c i s' out L := by
  have hpath : (s'.monitorOf cfg c).path c i = (s.monitorOf cfg c).path c i := by
    rw [hmonitor, ReqMonitor.path, ReqMonitor.path, done, List.append_nil, List.nil_append]
  have hmonitors : (s'.monitorOf cfg c).monitors = (s.monitorOf cfg c).monitors := by rw [hmonitor]
  have hinst := installed_congr hmonitors i
  refine ⟨h.once, h.shows, ?_⟩
  cases h.progress with
  | querying hp =>
    exact .querying (hp.keep hb hlive (hpath.trans hp.path) (hp.installed.imp_right hinst.trans))
  | @waiting k sub hp =>
    refine .waiting (hp.keep hb hlive (hpath.trans hp.path) ?_ ?_ (hp.installed.imp_right hinst.trans))
    · have hmsg := hp.msg
      rw [done, List.nil_append] at hmsg
      rw [hmonitor]
      exact List.mem_append_left _ hmsg
    · rw [hmonitor]
      exact fun _ r hr hle => hb.old hr (hle.trans hp.le_highest)
  | monitored hp =>
    refine .monitored (hp.keep hb hlive (hpath.trans hp.path) (hmonitors ▸ hp.holds) ?_ ?_)
    · rw [hmonitor]
      exact min_le_left _ _
    · rw [hmonitor]
      exact fun r hr => .inr hr
  | ended hp => exact .ended (hp.keep hb hlive (hpath.trans hp.path) (hinst.trans hp.installed))

/-- The monitor thread handles a message. -/
theorem Handoff.msg {msg : MsgReqMonitor} {rest : List MsgReqMonitor} {p : MonitorPtr} {step : MonitorStep}
    (h : Handoff cfg A R E g c i s out L) (hb : Between cfg E c s s')
    (hlive : (s'.workerOf cfg c).queries.live c i = (s.workerOf cfg c).queries.live c i)
    (next : (s.monitorOf cfg c).newMsgs = msg :: rest)
    (unused : (s.monitorOf cfg c).monitors.monitors.lookup p = none)
    (handled : monitorHandle cfg (s.monitorOf cfg c).txn p (s.monitorOf cfg c).monitors
      (s.monitorOf cfg c).currEventId msg = some step)
    (hmonitor : s'.monitorOf cfg c = { s.monitorOf cfg c with
      newMsgs := rest, monitors := step.monitors, currEventId := step.currEventId })
    (hquiet : R → msg = .dbChange → Settled cfg s c i ∨ ∀ sub, s.installed cfg c i = some sub →
      ∀ r ∈ (s.monitorOf cfg c).txn.event.rowsFrom (startAfter (s.monitorOf cfg c).currEventId),
        sub.filterGroup.doesMatch r.2 = false) :
    Handoff cfg A R E g c i s' (out ++ step.sent.filter (Output.isFor c i)) L := by
  have hmonitors : (s'.monitorOf cfg c).monitors = step.monitors := by rw [hmonitor]
  have hinst : s'.installed cfg c i = step.monitors.installed c i :=
    congrArg (fun m => m.installed c i) hmonitors
  -- with no message for the subscription id on its way, this one is for another
  have hothers : (s.monitorOf cfg c).path c i = [] →
      msg.serialFor c i = none ∧ (s'.monitorOf cfg c).path c i = [] := by
    intro hpath
    obtain ⟨hser, hrest⟩ := serialFor_eq_none_of_path hpath next
    refine ⟨hser, ?_⟩
    rw [hmonitor]
    exact hrest _ _
  cases h.progress with
  | querying hp =>
    obtain ⟨hser, hpath⟩ := hothers hp.path
    obtain ⟨hnone, hnil⟩ := monitorHandle_quiet hb.monitors unused handled hser hp.installed fun hR hdb =>
      (hquiet hR hdb).resolve_left fun hset => by cases hset.live.symm.trans hp.live
    rw [hnil, List.append_nil]
    exact ⟨h.once, h.shows, .querying (hp.keep hb hlive hpath (hnone.imp_right hinst.trans))⟩
  | @waiting k sub hp =>
    cases hser : msg.serialFor c i with
    | none =>
      obtain ⟨hnone, hnil⟩ := monitorHandle_quiet hb.monitors unused handled hser hp.installed fun hR hdb =>
        (hquiet hR hdb).resolve_left fun hset => by cases hset.path.symm.trans hp.path
      obtain ⟨hpath, hmem⟩ := hp.other next hser
      rw [hnil, List.append_nil]
      refine ⟨h.once, h.shows, .waiting (hp.keep hb hlive ?_ ?_ ?_ (hnone.imp_right hinst.trans))⟩
      · rw [hmonitor]
        exact hpath
      · rw [hmonitor]
        exact hmem
      · rw [hmonitor]
        intro hrest r hr hle
        apply hp.seen ?_ r (hb.old hr (hle.trans hp.le_highest)) hle
        rw [next]
        exact List.mem_cons_of_mem _ hrest
    | some k' =>
      obtain ⟨rfl, -⟩ := hp.eq_of_serialFor next hser
      exact hp.newSub hb h hlive next unused handled hmonitor
  | monitored hp =>
    obtain ⟨hser, hpath⟩ := hothers hp.path
    by_cases hdb : msg = .dbChange
    · subst hdb
      exact hp.dbChange hb h hlive hpath handled hmonitor
    · rw [monitorHandle_others hb.monitors handled hser hdb, List.append_nil]
      refine ⟨h.once, h.shows, .monitored (hp.keep hb hlive hpath ?_ ?_ ?_)⟩
      · rw [hmonitors]
        exact hp.holds.other hb.monitors unused handled hser hdb
      · rw [hmonitor]
        exact (monitorHandle_currEventId hb.monitors handled hdb).le
      · rw [hmonitor]
        exact fun r hr => .inl hr
  | ended hp =>
    obtain ⟨hser, hpath⟩ := hothers hp.path
    obtain ⟨hnone, hnil⟩ := monitorHandle_quiet (R := False) hb.monitors unused handled hser
      (.inr hp.installed) False.elim
    rw [hnil, List.append_nil]
    exact ⟨h.once, h.shows, .ended (hp.keep hb hlive hpath (hinst.trans (hnone.resolve_left not_false)))⟩

/-- The step lemma. -/
theorem Handoff.step {act : Action} (h : Handoff cfg A R E g c i s out L) (hb : Between cfg E c s s')
    (hcur : A → ∀ f ∈ g.filters, DBScan.numCursors f ≤ 2 ^ 24) (hstep : KeyStep cfg s act s' c i)
    (hquiet : R → Quiet cfg c i s s') :
    ∃ sent, s'.log = s.log ++ sent ∧
      Handoff cfg A R E g c i s' (out ++ sent.filter (Output.isFor c i)) L := by
  cases hstep with
  | apart more live others monitor log =>
    obtain ⟨sent, hlog, hnil⟩ := log
    refine ⟨sent, hlog, ?_⟩
    rw [hnil, List.append_nil]
    exact h.apart hb live others monitor
  | slice txn n step q r opened slice queries monitor log =>
    refine ⟨step.sent, log, ?_⟩
    -- only a query that is not complete runs
    cases h.progress with
    | querying hp => exact hp.slice hb hcur opened slice queries monitor
    | waiting hp => cases hp.gone.symm.trans slice.live
    | monitored hp => cases hp.gone.symm.trans slice.live
    | ended hp => cases hp.gone.symm.trans slice.live
  | pop live done monitor log =>
    refine ⟨[], by rw [log, List.append_nil], ?_⟩
    rw [List.filter_nil, List.append_nil]
    exact h.pop hb live done monitor
  | msg msg rest p step name live next unused handled monitor log =>
    refine ⟨step.sent, log, h.msg hb live next unused handled monitor ?_⟩
    rintro hR rfl
    apply hquiet hR
    rw [next, monitor]

end Relay

end Strfry
