import Strfry.Snapshots

/-!
# Steps seen from one subscription id

For one subscription id a step of the relay is a time slice of its query, a message that its monitor thread takes
or handles, or it has nothing to do with the id (`Relay.Step.key`). This holds for all steps in which no worker
handles a message for the id itself.
-/

set_option autoImplicit false

namespace Strfry

open Lib LookupTables

/-! ## A time slice of one query -/

section Worker

variable {cfg : RelayConfig} {txn : Store} {n : Nat} {queries : QueryScheduler} {step : WorkerStep}
  {c : Nat} {i : SubId}

/-- The events of a slice that are sent to a subscription id. -/
def queryEvents (txn : Store) (c : Nat) (i : SubId) (levIds : List Nat) : List Output :=
  levIds.map fun levId => .event .query c i levId (txn.event.get? levId)

/-- A step of a worker that runs the query of the subscription id for a slice. -/
structure KeySlice (cfg : RelayConfig) (txn : Store) (n : Nat) (queries : QueryScheduler) (step : WorkerStep)
    (c : Nat) (i : SubId) (h : HeapQuery) (r : DBQuery × List Nat × Bool) : Prop where
  live : queries.live c i = some h
  process : h.query.process cfg.S cfg.ord txn n = some r
  live' : step.queries.live c i = if r.2.2 then none else some { h with query := r.1 }
  sent : step.sent.filter (Output.isFor c i) =
    queryEvents txn c i (QueryScheduler.passedOn true txn r.2.1) ++ if r.2.2 then [.eose h.serial c i] else []
  dispatched : step.dispatched = if r.2.2 then some (c, .newSub h.serial h.query.sub) else none

/-- A step of a worker that has nothing to do with the subscription id. -/
structure Apart (queries : QueryScheduler) (step : WorkerStep) (c : Nat) (i : SubId) : Prop where
  live' : step.queries.live c i = queries.live c i
  sent : step.sent.filter (Output.isFor c i) = []
  dispatched : step.serialFor c i = []

theorem filter_sliceEvents (txn : Store) (slice : Slice) (c : Nat) (i : SubId) :
    (sliceEvents txn slice).filter (Output.isFor c i) =
      if c = slice.sub.connId ∧ i = slice.sub.subId then queryEvents txn c i slice.levIds else [] := by
  rw [sliceEvents]
  split
  · rename_i hkey
    obtain ⟨rfl, rfl⟩ := hkey
    rw [List.filter_eq_self.mpr]
    · rfl
    · intro o ho
      obtain ⟨levId, -, rfl⟩ := List.mem_map.mp ho
      simp [Output.isFor]
  · rename_i hkey
    rw [List.filter_eq_nil_iff]
    intro o ho hfor
    obtain ⟨levId, -, rfl⟩ := List.mem_map.mp ho
    simp only [Output.isFor, Bool.and_eq_true, beq_iff_eq] at hfor
    exact hkey ⟨hfor.1.symm, hfor.2.symm⟩

theorem workerProcess_key (hinv : queries.Inv) (hp : workerProcess cfg txn n queries = some step)
    (c : Nat) (i : SubId) :
    Apart queries step c i ∨ ∃ h r, KeySlice cfg txn n queries step c i h r := by
  -- no query runs, or one does for a slice: the one of the id, or another
  obtain ⟨-, ⟨hsent, hdisp, hlive⟩ | ⟨slice, h, query, calls, hs⟩⟩ := workerProcess_spec hinv hp
  · left
    refine ⟨hlive c i, ?_, ?_⟩
    · rw [hsent]
      rfl
    · rw [WorkerStep.serialFor, hdisp]
      rfl
  · by_cases hkey : c = slice.sub.connId ∧ i = slice.sub.subId
    · right
      have hsent := hs.sent
      have hdisp := hs.dispatched
      have hlive' := hs.ran.live' c i
      rw [if_pos hkey] at hlive'
      have hlive : queries.live c i = some h := by
        rw [hkey.1, hkey.2]
        exact hs.ran.live
      -- the EOSE and the NewSub of a query that is complete are for the id as well
      refine ⟨h, (query, calls, slice.complete), hlive, hs.ran.process, hlive', ?_, ?_⟩
      · rw [hsent, List.filter_append, filter_sliceEvents, if_pos hkey, hs.ran.levIds, hs.ran.serial, hkey.1,
          hkey.2]
        cases slice.complete with
        | false => rfl
        | true => simp [Output.isFor]
      · rw [hdisp, hs.ran.serial, hs.ran.sub]
        rw [hs.ran.sub] at hkey
        rw [hkey.1]
    · left
      refine ⟨?_, ?_, ?_⟩
      · rw [hs.ran.live', if_neg hkey]
      · rw [hs.sent, List.filter_append, filter_sliceEvents, if_neg hkey]
        cases slice.complete with
        | false => rfl
        | true =>
          rw [if_pos rfl, List.filter_cons_of_neg]
          · rfl
          · simp only [Output.isFor, Bool.and_eq_true, beq_iff_eq]
            rintro ⟨hc, hi⟩
            exact hkey ⟨hc.symm, hi.symm⟩
      · rw [WorkerStep.serialFor, hs.dispatched]
        cases slice.complete with
        | false => rfl
        | true =>
          simp only [if_true, Option.bind_some, MsgReqMonitor.serialFor]
          rw [if_neg]
          · rfl
          · rintro ⟨hc, hi⟩
            exact hkey ⟨hc.symm, hi.symm⟩

/-- The notice of a refusal is not for the subscription id. -/
theorem key_of_notice {notice : List Output} (hnotice : notice.filter (Output.isFor c i) = [])
    (hcase : Apart queries step c i ∨ ∃ h r, KeySlice cfg txn n queries step c i h r) :
    Apart queries { step with sent := notice ++ step.sent } c i ∨
      ∃ h r, KeySlice cfg txn n queries { step with sent := notice ++ step.sent } c i h r := by
  have hsent : (notice ++ step.sent).filter (Output.isFor c i) = step.sent.filter (Output.isFor c i) := by
    rw [List.filter_append, hnotice, List.nil_append]
  rcases hcase with hapart | ⟨h, r, hs⟩
  · exact .inl ⟨hapart.live', hsent.trans hapart.sent, hapart.dispatched⟩
  · exact .inr ⟨h, r, hs.live, hs.process, hs.live', hsent.trans hs.sent, hs.dispatched⟩

theorem filter_tooMany (b : Bool) (connId : Nat) (c : Nat) (i : SubId) :
    (if b then [] else [Output.noticeError connId "too many concurrent REQs"]).filter (Output.isFor c i) =
      [] := by
  cases b <;> rfl

/-- A message that concerns another subscription id. -/
theorem workerHandle_key {q : QueryPtr} {msg : MsgReqWorker} (hinv : queries.Inv)
    (hq : queries.queries.lookup q = none) (hother : msg.serialFor c i = none)
    (hw : workerHandle cfg txn q n queries msg = some step) :
    Apart queries step c i ∨ ∃ h r, KeySlice cfg txn n queries step c i h r := by
  cases msg with
  | newSub serial sub =>
    obtain ⟨step', hp, rfl⟩ := Option.map_eq_some_iff.mp hw
    obtain ⟨b, queries', heq, hinv', hlive, -⟩ :=
      QueryScheduler.addSub_spec hinv cfg.maxSubsPerConnection txn hq serial sub
    rw [heq] at hp ⊢
    -- the new query has another key, so that the one of the id is as before when the scheduler runs
    have hsame : queries'.live c i = queries.live c i := by
      rw [hlive, if_neg]
      rintro ⟨rfl, rfl⟩
      simp [MsgReqWorker.serialFor] at hother
    refine key_of_notice (filter_tooMany b _ c i) ?_
    rcases workerProcess_key hinv' hp c i with hapart | ⟨h, r, hs⟩
    · exact .inl ⟨hapart.live'.trans hsame, hapart.sent, hapart.dispatched⟩
    · exact .inr ⟨h, r, hsame ▸ hs.live, hs.process, hs.live', hs.sent, hs.dispatched⟩
  | removeSub serial connId subId =>
    cases hw
    left
    refine ⟨?_, rfl, ?_⟩
    · rw [QueryScheduler.live_removeSub hinv, if_neg]
      rintro ⟨rfl, rfl⟩
      simp [MsgReqWorker.serialFor] at hother
    · show (MsgReqMonitor.serialFor c i (.removeSub serial connId subId)).toList = []
      have heq : MsgReqMonitor.serialFor c i (.removeSub serial connId subId) = none := hother
      rw [heq]
      rfl
  | closeConn serial connId =>
    cases hw
    left
    refine ⟨?_, rfl, ?_⟩
    · rw [QueryScheduler.live_closeConn hinv, if_neg]
      rintro rfl
      simp [MsgReqWorker.serialFor] at hother
    · show (MsgReqMonitor.serialFor c i (.closeConn serial connId)).toList = []
      have heq : MsgReqMonitor.serialFor c i (.closeConn serial connId) = none := hother
      rw [heq]
      rfl

end Worker

/-! ## One monitor among the others -/

section Monitor

variable {cfg : RelayConfig} {txn : Store} {q p : MonitorPtr} {monitors : ActiveMonitors}
  {currEventId : WithTop Nat} {step : MonitorStep} {c K K' : Nat} {i : SubId} {sub : Subscription}

/-- The monitor of a subscription id, with items that are not newer than `K`. -/
structure ActiveMonitors.Holds (s : ActiveMonitors) (c : Nat) (i : SubId) (K : Nat) (p : MonitorPtr)
    (sub : Subscription) : Prop where
  lookup : s.monitors.lookup p = some sub
  connId : sub.connId = c
  subId : sub.subId = i
  items : ∀ e item, e.1.mon = p → s.tables.item? e = some item → item.latestEventId ≤ K

/-- An event that is newer than all items is looked up. -/
theorem ActiveMonitors.Holds.awaits (h : monitors.Holds c i K p sub) (hinv : monitors.Inv) {levId : Nat}
    {ev : PackedEvent} (hmatch : sub.filterGroup.doesMatch ev = true) (hlt : K < levId)
    (hsub : sub.latestEventId < (levId : WithTop Nat)) : monitors.Awaits p levId ev := by
  -- the filter that matches is under a key at which the event is looked up
  obtain ⟨f, hf, hfmatch⟩ := (NostrFilterGroup.doesMatch_iff _ _).mp hmatch
  obtain ⟨j, hj⟩ := List.mem_iff_getElem?.mp hf
  obtain ⟨k, hkf, hkev⟩ := NostrFilter.exists_lookupKey_of_doesMatch hfmatch
  have hentry : ((⟨p, j⟩, k) : FilterPtr × LookupKey) ∈ entriesOf p sub.filterGroup :=
    mem_entriesOf.mpr ⟨rfl, f, hj, hkf⟩
  obtain ⟨item, hitem⟩ := Option.isSome_iff_exists.mp (hinv.item_isSome h.lookup _ hentry)
  exact ⟨_, item, sub, f, rfl, hkev, hitem, h.lookup, hj, hfmatch, (h.items _ item rfl hitem).trans_lt hlt,
    hsub⟩

/-- A message that concerns another subscription id. -/
theorem ActiveMonitors.Holds.other {msg : MsgReqMonitor} (h : monitors.Holds c i K p sub)
    (hinv : monitors.Inv) (hq : monitors.monitors.lookup q = none)
    (hmsg : monitorHandle cfg txn q monitors currEventId msg = some step)
    (hother : msg.serialFor c i = none) (hne : msg ≠ .dbChange) : step.monitors.Holds c i K p sub := by
  have hpq : p ≠ q := by
    rintro rfl
    have := h.lookup
    rw [hq] at this
    cases this
  -- a CLOSE and a disconnect take away what they name, and nothing else
  have hrestricts : ∀ {keep : Nat → SubId → Prop}, ActiveMonitors.Restricts keep monitors step.monitors →
      keep c i → step.monitors.Holds c i K p sub := by
    intro keep hr hkeep
    refine ⟨(hr.monitor p sub).mpr ⟨h.lookup, ?_⟩, h.connId, h.subId, fun e item hp hitem => ?_⟩
    · rw [h.connId, h.subId]
      exact hkeep
    · exact h.items e item hp ((hr.item e item).mp hitem).1
  cases msg with
  | newSub serial sub' =>
    obtain ⟨accepted, hok, -⟩ := monitorHandle_newSub hmsg
    obtain ⟨b, s', hok', -, hmon, hitem⟩ := ActiveMonitors.addSub_spec hinv cfg.maxSubsPerConnection
      hq { sub' with latestEventId := txn.getMostRecentLevId } rfl
    rw [hok] at hok'
    cases hok'
    refine ⟨(hmon p sub).mpr (.inr ⟨h.lookup, ?_⟩), h.connId, h.subId, fun e item hp he => ?_⟩
    · rintro ⟨hc, hi⟩
      rw [MsgReqMonitor.serialFor, if_pos ⟨hc.symm.trans h.connId, hi.symm.trans h.subId⟩] at hother
      cases hother
    · rcases hitem e item he with ⟨-, hm, -⟩ | hold
      · exact absurd (hp.symm.trans hm) hpq
      · exact h.items e item hp hold
  | removeSub serial connId subId =>
    apply hrestricts (monitorHandle_removeSub hinv hmsg).2.1
    rintro ⟨rfl, rfl⟩
    simp [MsgReqMonitor.serialFor] at hother
  | closeConn serial connId =>
    apply hrestricts (monitorHandle_closeConn hinv hmsg).2.1
    rintro rfl
    simp [MsgReqMonitor.serialFor] at hother
  | dbChange => exact absurd rfl hne

/-- A walk makes an item as new as one of the events. -/
theorem processEvents_items {s s' : ActiveMonitors} {sent : List Output} {rows : List (Nat × PackedEvent)}
    (hinv : s.Inv) (h : processEvents rows s = some (s', sent)) (e : FilterPtr × LookupKey)
    {item' : MonitorItem} (hitem' : s'.tables.item? e = some item') :
    ∃ item, s.tables.item? e = some item ∧ (item' = item ∨ ∃ r ∈ rows, item'.latestEventId = r.1) := by
  induction rows generalizing s sent with
  | nil =>
    cases h
    exact ⟨item', hitem', .inl rfl⟩
  | cons r rows ih =>
    obtain ⟨s₁, recipients, hdel, heq⟩ := processEvents_cons hinv r rows
    rw [heq] at h
    obtain ⟨⟨s₂, sent₂⟩, hrest, h⟩ := Option.map_eq_some_iff.mp h
    cases h
    -- from the last event back: what the rest of the walk has left, and then the first event
    obtain ⟨item₁, hitem₁, hcase⟩ := ih (hdel.inv hinv) hrest
    obtain ⟨item, hitem, hcase₁⟩ := hdel.item e item₁ hitem₁
    refine ⟨item, hitem, ?_⟩
    rcases hcase with rfl | ⟨r', hr', hlev⟩
    · rcases hcase₁ with rfl | rfl
      · exact .inl rfl
      · exact .inr ⟨r, List.mem_cons_self, rfl⟩
    · exact .inr ⟨r', List.mem_cons_of_mem _ hr', hlev⟩

/-- A walk over events. -/
theorem ActiveMonitors.Holds.walk {s' : ActiveMonitors} {sent : List Output}
    {rows : List (Nat × PackedEvent)} (h : monitors.Holds c i K p sub) (hinv : monitors.Inv)
    (hp : processEvents rows monitors = some (s', sent)) (hle : K ≤ K') (hrows : ∀ r ∈ rows, r.1 ≤ K') :
    ∃ got sub', Gets sub rows got sub' ∧ s'.Holds c i K' p sub' ∧
      sent.filter (Output.isFor c i) = got.map (liveEvent c i) := by
  obtain ⟨s₁, sent₁, hp₁, hswept⟩ := processEvents_spec rows hinv
  rw [hp] at hp₁
  cases hp₁
  obtain ⟨got, sub', hgets, hlook, hsent⟩ := hswept.gets p sub h.lookup
  obtain ⟨hc, hi, -⟩ := hgets.same
  refine ⟨got, sub', hgets, ⟨hlook, hc.trans h.connId, hi.trans h.subId, fun e item' hp' hitem' => ?_⟩, ?_⟩
  · obtain ⟨item, hitem, rfl | ⟨r, hr, hlev⟩⟩ := processEvents_items hinv hp e hitem'
    · exact (h.items e item' hp' hitem).trans hle
    · rw [hlev]
      exact hrows r hr
  · rw [h.connId, h.subId] at hsent
    exact hsent

end Monitor

/-! ## Steps seen from one subscription id -/

namespace Relay

variable {cfg : RelayConfig} {s s' : Relay} {c : Nat} {i : SubId}

/-- The worker thread of a connection. -/
def workerOf (cfg : RelayConfig) (s : Relay) (c : Nat) : ReqWorker := s.workers (c % cfg.numReqWorker)

/-- The monitor thread of a connection. -/
def monitorOf (cfg : RelayConfig) (s : Relay) (c : Nat) : ReqMonitor := s.monitors (c % cfg.numReqMonitor)

/-- A step in which no worker handles a message of the subscription id. -/
inductive KeyStep (cfg : RelayConfig) (s : Relay) (act : Action) (s' : Relay) (c : Nat) (i : SubId) : Prop
  | apart (more : List MsgReqMonitor) (live : (s'.workerOf cfg c).queries.live c i =
        (s.workerOf cfg c).queries.live c i)
      (others : more.filterMap (MsgReqMonitor.serialFor c i) = [])
      (monitor : s'.monitorOf cfg c =
        { s.monitorOf cfg c with inbox := (s.monitorOf cfg c).inbox ++ more })
      (log : ∃ sent, s'.log = s.log ++ sent ∧ sent.filter (Output.isFor c i) = [])
  | slice (txn : Store) (n : Nat) (step : WorkerStep) (h : HeapQuery) (r : DBQuery × List Nat × Bool)
      (opened : (s.workerOf cfg c).txn = some txn)
      (slice : KeySlice cfg txn n (s.workerOf cfg c).queries step c i h r)
      (queries : (s'.workerOf cfg c).queries = step.queries)
      (monitor : s'.monitorOf cfg c = { s.monitorOf cfg c with
        inbox := (s.monitorOf cfg c).inbox ++ step.dispatchedTo cfg (c % cfg.numReqMonitor) })
      (log : s'.log = s.log ++ step.sent)
  | pop (live : (s'.workerOf cfg c).queries.live c i = (s.workerOf cfg c).queries.live c i)
      (done : (s.monitorOf cfg c).newMsgs = [])
      (monitor : s'.monitorOf cfg c = { s.monitorOf cfg c with
        inbox := [], newMsgs := (s.monitorOf cfg c).inbox, txn := s.db.toStore
        currEventId := min (s.monitorOf cfg c).currEventId s.db.getMostRecentLevId })
      (log : s'.log = s.log)
  | msg (msg : MsgReqMonitor) (rest : List MsgReqMonitor) (p : MonitorPtr) (step : MonitorStep)
      (name : act = .monitorMsg (c % cfg.numReqMonitor) msg)
      (live : (s'.workerOf cfg c).queries.live c i = (s.workerOf cfg c).queries.live c i)
      (next : (s.monitorOf cfg c).newMsgs = msg :: rest)
      (unused : (s.monitorOf cfg c).monitors.monitors.lookup p = none)
      (handled : monitorHandle cfg (s.monitorOf cfg c).txn p (s.monitorOf cfg c).monitors
        (s.monitorOf cfg c).currEventId msg = some step)
      (monitor : s'.monitorOf cfg c = { s.monitorOf cfg c with
        newMsgs := rest, monitors := step.monitors, currEventId := step.currEventId })
      (log : s'.log = s.log ++ step.sent)

/-- A step of a worker thread. -/
theorem keyStep_afterWorker {act : Action} {w n : Nat} {txn : Store} {th : ReqWorker} {step : WorkerStep}
    (howner : c % cfg.numReqWorker ≠ w → (s.workers w).queries.live c i = none)
    (opened : (s.workers w).txn = some txn) (keyed : step.Keyed)
    (hcase : Apart (s.workers w).queries step c i ∨
      ∃ h r, KeySlice cfg txn n (s.workers w).queries step c i h r) :
    KeyStep cfg s act (s.afterWorker cfg w th step) c i := by
  have hmonitor : (s.afterWorker cfg w th step).monitorOf cfg c = { s.monitorOf cfg c with
      inbox := (s.monitorOf cfg c).inbox ++ step.dispatchedTo cfg (c % cfg.numReqMonitor) } :=
    monitors_afterWorker _
  rcases hcase with hapart | ⟨h, r, hslice⟩
  · refine .apart _ ?_ ?_ hmonitor ⟨step.sent, log_afterWorker, hapart.sent⟩
    · simp only [workerOf, workers_afterWorker, Function.update_apply]
      split
      · rename_i hw
        rw [hw]
        exact hapart.live'
      · rfl
    · rw [keyed.filterMap_dispatchedTo, if_pos rfl]
      exact hapart.dispatched
  · -- only the thread of the connection has a query for it
    have hw : c % cfg.numReqWorker = w := by
      by_contra hw
      cases (howner hw).symm.trans hslice.live
    subst hw
    refine .slice txn n step h r opened hslice ?_ hmonitor log_afterWorker
    simp only [workerOf, workers_afterWorker, Function.update_self]

/-- A worker thread has no query of another connection. -/
theorem Inv.live_eq_none (hinv : Inv cfg s) {w : Nat} (hw : c % cfg.numReqWorker ≠ w) (i : SubId) :
    (s.workers w).queries.live c i = none := by
  rw [QueryScheduler.live, QueryScheduler.findQuery, Map.find₂, (hinv.workerOwns w c hw).1]
  rfl

theorem Step.key {act : Action} (hstep : Step cfg s act s') (hinv : Inv cfg s)
    (hother : ∀ w msg, act = .workerMsg w msg → msg.serialFor c i = none) :
    KeyStep cfg s act s' c i := by
  have hsame : ∀ {t : Relay}, (t.workerOf cfg c).queries = (s.workerOf cfg c).queries →
      t.monitorOf cfg c = s.monitorOf cfg c → t.log = s.log → KeyStep cfg s act t c i := by
    intro t hqueries hmonitor hlog
    refine .apart [] (by rw [hqueries]) rfl ?_ ⟨[], ?_, rfl⟩
    · rw [hmonitor, List.append_nil]
    · rw [hlog, List.append_nil]
  cases hstep with
  | receive opened => exact hsame rfl rfl rfl
  | @ingest j serial msg rest next =>
    refine .apart [] ?_ rfl ?_ ⟨_, log_afterIngester .., ?_⟩
    · rw [workerOf, workers_afterIngester]
      rfl
    · rw [monitorOf, monitors_afterIngester, List.append_nil]
      rfl
    · rw [List.filter_eq_nil_iff]
      intro o ho hfor
      exact absurd hfor (by rw [ingesterForward_isFor ho c i]; exact Bool.false_ne_true)
  | @workerPop w idle done ready =>
    refine hsame ?_ rfl rfl
    simp only [workerOf, setWorker, Function.update_apply]
    split
    · rename_i hw
      rw [hw]
    · rfl
  | @workerMsg w txn msg rest q n step opened next unused handled =>
    exact keyStep_afterWorker (hinv.live_eq_none · i) opened (hinv.moves_workerMsg next unused handled).keyed
      (workerHandle_key (hinv.queries w) unused (hother w msg rfl) handled)
  | @workerProcess w txn n step opened done handled =>
    exact keyStep_afterWorker (hinv.live_eq_none · i) opened (hinv.moves_workerProcess handled).keyed
      (workerProcess_key (hinv.queries w) handled c i)
  | @monitorPop m done ready =>
    by_cases hm : c % cfg.numReqMonitor = m
    · subst hm
      refine .pop rfl done ?_ rfl
      simp only [monitorOf, setMonitor, Function.update_self]
    · refine hsame rfl ?_ rfl
      simp only [monitorOf, setMonitor, Function.update_of_ne hm]
  | @monitorMsg m msg rest p step next unused handled =>
    by_cases hm : c % cfg.numReqMonitor = m
    · subst hm
      refine .msg msg rest p step rfl rfl next unused handled ?_ rfl
      simp only [monitorOf, afterMonitor, setMonitor, send, Function.update_self]
    · -- the other threads have no subscription of the connection
      refine .apart [] rfl rfl ?_ ⟨step.sent, rfl, ?_⟩
      · simp only [monitorOf, afterMonitor, setMonitor, send, Function.update_of_ne hm, List.append_nil]
      · rw [List.filter_eq_nil_iff]
        intro o ho hfor
        obtain ⟨hconns, hpath⟩ := hinv.monitorOwns m c hm
        rcases monitorHandle_isFor (hinv.monitors m) handled ho hfor with hinst | ⟨k, sub, rfl, hc, hi⟩
        · rw [installed_eq_none_of_noEntry hconns] at hinst
          cases hinst
        · have hnil := hpath i
          rw [path_monitorMsg next {} ⊤, MsgReqMonitor.serialFor, if_pos ⟨hc, hi⟩] at hnil
          cases hnil
  | dbChange =>
    by_cases hm : c % cfg.numReqMonitor < cfg.numReqMonitor
    · exact .apart [.dbChange] rfl rfl (if_pos hm) ⟨[], (List.append_nil _).symm, rfl⟩
    · exact hsame rfl (if_neg hm) rfl
  | commit txn => exact hsame rfl rfl rfl

end Relay

end Strfry
