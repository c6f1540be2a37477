import Strfry.LiveEvents

/-!
# The way of a message through the pools

The messages that concern one subscription id wait, in the order in which the client sent them, in
the monitor thread, as a running query in the worker thread, in the inbox of the worker thread and
in the inbox of the ingester thread. `Relay.path` lists their numbers from the monitor on. A step of
a thread moves a number forward or drops it, and a new message goes to the end, so the numbers
always increase along the path (`Step.path_sublist`).
-/

set_option autoImplicit false

namespace Strfry

open Lib

/-! ## Messages that concern a subscription id -/

/-- The number of a message if it concerns the subscription id. -/
def MsgReqWorker.serialFor (c : Nat) (i : SubId) : MsgReqWorker → Option Nat
  | .newSub serial sub => if sub.connId = c ∧ sub.subId = i then some serial else none
  | .removeSub serial connId subId => if connId = c ∧ subId = i then some serial else none
  | .closeConn serial connId => if connId = c then some serial else none

/-- The number of a message if it concerns the subscription id. -/
def MsgReqMonitor.serialFor (c : Nat) (i : SubId) : MsgReqMonitor → Option Nat
  | .newSub serial sub => if sub.connId = c ∧ sub.subId = i then some serial else none
  | .removeSub serial connId subId => if connId = c ∧ subId = i then some serial else none
  | .closeConn serial connId => if connId = c then some serial else none
  | .dbChange => none

/-- The number of the client message that a query was made for. -/
def serialOf (h : Option HeapQuery) : List Nat := (h.map HeapQuery.serial).toList

/-- The number of the message that a worker has dispatched, if it concerns the subscription id. -/
def WorkerStep.serialFor (c : Nat) (i : SubId) (step : WorkerStep) : List Nat :=
  (step.dispatched.bind fun d => d.2.serialFor c i).toList

theorem MsgReqWorker.connId_of_serialFor {c k : Nat} {i : SubId} {msg : MsgReqWorker}
    (h : msg.serialFor c i = some k) : msg.connId = c := by
  cases msg with
  | newSub serial sub =>
    rw [serialFor] at h
    split at h
    · rename_i hkey
      exact hkey.1
    · cases h
  | removeSub serial connId subId =>
    rw [serialFor] at h
    split at h
    · rename_i hkey
      exact hkey.1
    · cases h
  | closeConn serial connId =>
    rw [serialFor] at h
    split at h
    · rename_i hkey
      exact hkey
    · cases h

/-! ## A step of a worker -/

section Worker

variable {cfg : RelayConfig} {txn : Store} {n : Nat} {queries : QueryScheduler} {step : WorkerStep}

/-- What a time slice of the worker sends and dispatches. -/
structure SliceStep (cfg : RelayConfig) (txn : Store) (n : Nat) (queries : QueryScheduler)
    (step : WorkerStep) (slice : Slice) (h : HeapQuery) (query : DBQuery) (calls : List Nat) :
    Prop where
  ran : QueryScheduler.Ran cfg.S cfg.ord true txn n queries step.queries slice h query calls
  sent : step.sent = sliceEvents txn slice ++
    if slice.complete then [.eose slice.serial slice.sub.connId slice.sub.subId] else []
  dispatched : step.dispatched =
    if slice.complete then some (slice.sub.connId, .newSub slice.serial slice.sub) else none

theorem workerProcess_spec (hinv : queries.Inv)
    (hp : workerProcess cfg txn n queries = some step) :
    step.queries.Inv ∧ ((step.sent = [] ∧ step.dispatched = none ∧
        ∀ c i, step.queries.live c i = queries.live c i) ∨
      ∃ slice h query calls, SliceStep cfg txn n queries step slice h query calls) := by
  obtain ⟨⟨queries', o⟩, hproc, rfl⟩ := Option.map_eq_some_iff.1 hp
  obtain ⟨hinv', hcase⟩ := QueryScheduler.process_spec hinv hproc
  rcases hcase with ⟨rfl, hlive⟩ | ⟨slice, h, query, calls, rfl, hran⟩
  · exact ⟨hinv', Or.inl ⟨rfl, rfl, hlive⟩⟩
  · cases hc : slice.complete with
    | true =>
      simp only [hc, if_true]
      exact ⟨hinv', Or.inr ⟨slice, h, query, calls, hran, by simp [hc], by simp [hc]⟩⟩
    | false =>
      simp only [hc, Bool.false_eq_true, if_false]
      exact ⟨hinv', Or.inr ⟨slice, h, query, calls, hran, by simp [hc], by simp [hc]⟩⟩

/-- In a time slice a query keeps its number, or passes it on to the monitor. -/
theorem workerProcess_sublist (hinv : queries.Inv)
    (hp : workerProcess cfg txn n queries = some step) (c : Nat) (i : SubId) :
    (step.serialFor c i ++ serialOf (step.queries.live c i)).Sublist
      (serialOf (queries.live c i)) := by
  obtain ⟨-, ⟨-, hdisp, hlive⟩ | ⟨slice, h, query, calls, hs⟩⟩ := workerProcess_spec hinv hp
  · rw [WorkerStep.serialFor, hdisp, hlive]
    exact List.Sublist.refl _
  · rw [WorkerStep.serialFor, hs.dispatched, hs.ran.live']
    by_cases hkey : c = slice.sub.connId ∧ i = slice.sub.subId
    · obtain ⟨rfl, rfl⟩ := hkey
      rw [hs.ran.live]
      cases hc : slice.complete <;>
        simp [serialOf, MsgReqMonitor.serialFor, hs.ran.serial]
    · have hkey' : ¬ (slice.sub.connId = c ∧ slice.sub.subId = i) :=
        fun hk => hkey ⟨hk.1.symm, hk.2.symm⟩
      cases hc : slice.complete <;> simp [hkey, hkey', MsgReqMonitor.serialFor]

theorem addSub_inv (hinv : queries.Inv) (maxSubs : Nat) {q : QueryPtr}
    (hq : queries.queries.lookup q = none) (serial : Nat) (sub : Subscription) :
    (queries.addSub maxSubs txn q serial sub).2.Inv := by
  obtain ⟨b, s', heq, hinv', -⟩ := QueryScheduler.addSub_spec hinv maxSubs txn hq serial sub
  rw [heq]
  exact hinv'

/-- The query of a new subscription takes the place of the one with the same id. -/
theorem addSub_sublist (hinv : queries.Inv) (maxSubs : Nat) {q : QueryPtr}
    (hq : queries.queries.lookup q = none) (serial : Nat) (sub : Subscription) (c : Nat)
    (i : SubId) :
    (serialOf ((queries.addSub maxSubs txn q serial sub).2.live c i)).Sublist
      (serialOf (queries.live c i) ++ (MsgReqWorker.serialFor c i (.newSub serial sub)).toList) := by
  obtain ⟨b, s', heq, -, hlive, -⟩ := QueryScheduler.addSub_spec hinv maxSubs txn hq serial sub
  rw [heq, hlive]
  by_cases hkey : c = sub.connId ∧ i = sub.subId
  · obtain ⟨rfl, rfl⟩ := hkey
    cases b <;> simp [serialOf, MsgReqWorker.serialFor, QueryScheduler.newQuery]
  · have hkey' : ¬ (sub.connId = c ∧ sub.subId = i) := fun hk => hkey ⟨hk.1.symm, hk.2.symm⟩
    simp [hkey, hkey', MsgReqWorker.serialFor]

theorem workerHandle_inv {q : QueryPtr} {msg : MsgReqWorker} (hinv : queries.Inv)
    (hq : queries.queries.lookup q = none)
    (hw : workerHandle cfg txn q n queries msg = some step) : step.queries.Inv := by
  cases msg with
  | newSub serial sub =>
    obtain ⟨step', hp, rfl⟩ := Option.map_eq_some_iff.1 hw
    exact (workerProcess_spec (addSub_inv hinv _ hq serial sub) hp).1
  | removeSub serial connId subId =>
    cases hw
    exact hinv.removeSub connId subId
  | closeConn serial connId =>
    cases hw
    exact hinv.closeConn connId

/-- The handling of a message drops the query that the message ends and passes numbers on. -/
theorem workerHandle_sublist {q : QueryPtr} {msg : MsgReqWorker} (hinv : queries.Inv)
    (hq : queries.queries.lookup q = none)
    (hw : workerHandle cfg txn q n queries msg = some step) (c : Nat) (i : SubId) :
    (step.serialFor c i ++ serialOf (step.queries.live c i)).Sublist
      (serialOf (queries.live c i) ++ (msg.serialFor c i).toList) := by
  cases msg with
  | newSub serial sub =>
    obtain ⟨step', hp, rfl⟩ := Option.map_eq_some_iff.1 hw
    exact (workerProcess_sublist (addSub_inv hinv _ hq serial sub) hp c i).trans (addSub_sublist hinv _ hq serial sub c i)
  | removeSub serial connId subId =>
    cases hw
    rw [WorkerStep.serialFor, QueryScheduler.live_removeSub hinv]
    by_cases hkey : connId = c ∧ subId = i
    · obtain ⟨rfl, rfl⟩ := hkey
      simp [serialOf, MsgReqMonitor.serialFor, MsgReqWorker.serialFor]
    · have hkey' : ¬ (c = connId ∧ i = subId) := fun hk => hkey ⟨hk.1.symm, hk.2.symm⟩
      simp [hkey, hkey', MsgReqMonitor.serialFor, MsgReqWorker.serialFor]
  | closeConn serial connId =>
    cases hw
    rw [WorkerStep.serialFor, QueryScheduler.live_closeConn hinv]
    by_cases hc : connId = c
    · subst hc
      simp [serialOf, MsgReqMonitor.serialFor, MsgReqWorker.serialFor]
    · simp [hc, Ne.symm hc, MsgReqMonitor.serialFor, MsgReqWorker.serialFor]

/-- A message is dispatched by the connection that it concerns. -/
def WorkerStep.Keyed (step : WorkerStep) : Prop :=
  ∀ key msg c i k, step.dispatched = some (key, msg) → msg.serialFor c i = some k → key = c

theorem workerProcess_keyed (hinv : queries.Inv)
    (hp : workerProcess cfg txn n queries = some step) : step.Keyed := by
  intro key msg c i k hd hk
  obtain ⟨-, ⟨-, hdisp, -⟩ | ⟨slice, h, query, calls, hs⟩⟩ := workerProcess_spec hinv hp
  · rw [hdisp] at hd
    cases hd
  · rw [hs.dispatched] at hd
    split at hd
    · cases hd
      rw [MsgReqMonitor.serialFor] at hk
      split at hk
      · rename_i hkey
        exact hkey.1
      · cases hk
    · cases hd

theorem workerHandle_keyed {q : QueryPtr} {msg : MsgReqWorker} (hinv : queries.Inv)
    (hq : queries.queries.lookup q = none)
    (hw : workerHandle cfg txn q n queries msg = some step) : step.Keyed := by
  cases msg with
  | newSub serial sub =>
    obtain ⟨step', hp, rfl⟩ := Option.map_eq_some_iff.1 hw
    have hkeyed := workerProcess_keyed (addSub_inv hinv _ hq serial sub) hp
    exact hkeyed
  | removeSub serial connId subId =>
    cases hw
    rintro key msg c i k ⟨⟩ hk
    rw [MsgReqMonitor.serialFor] at hk
    split at hk
    · rename_i hkey
      exact hkey.1
    · cases hk
  | closeConn serial connId =>
    cases hw
    rintro key msg c i k ⟨⟩ hk
    rw [MsgReqMonitor.serialFor] at hk
    split at hk
    · rename_i hkey
      exact hkey
    · cases hk

theorem workerProcess_noEntry {c : Nat} (hnone : queries.conns.lookup c = none)
    (hp : workerProcess cfg txn n queries = some step) : step.queries.conns.lookup c = none := by
  obtain ⟨⟨queries', o⟩, hproc, rfl⟩ := Option.map_eq_some_iff.1 hp
  have hnone' := QueryScheduler.process_noEntry hnone hproc
  cases o with
  | none => exact hnone'
  | some slice => cases hc : slice.complete <;> simpa [hc] using hnone'

/-- No message but a NewSub gives a connection an entry. -/
theorem workerHandle_noEntry {q : QueryPtr} {msg : MsgReqWorker} {c : Nat}
    (hnone : queries.conns.lookup c = none)
    (hother : ∀ serial sub, msg = .newSub serial sub → c ≠ sub.connId)
    (hw : workerHandle cfg txn q n queries msg = some step) :
    step.queries.conns.lookup c = none := by
  cases msg with
  | newSub serial sub =>
    obtain ⟨step', hp, rfl⟩ := Option.map_eq_some_iff.1 hw
    apply workerProcess_noEntry ?_ hp
    exact QueryScheduler.addSub_noEntry hnone _ txn q serial (hother serial sub rfl)
  | removeSub serial connId subId =>
    cases hw
    exact QueryScheduler.removeSub_noEntry hnone connId subId
  | closeConn serial connId =>
    cases hw
    exact QueryScheduler.closeConn_noEntry hnone connId

end Worker

/-! ## A step of a monitor -/

/-- The subscription as the client has asked for it. -/
def Subscription.request (sub : Subscription) : Subscription := { sub with latestEventId := ⊤ }

section Monitor

variable {cfg : RelayConfig} {txn : Store} {p : MonitorPtr} {monitors : ActiveMonitors}
  {currEventId : WithTop Nat} {step : MonitorStep}

/-- A walk leaves the requests of the subscriptions alone. -/
theorem Swept.request_eq {rows : List (Nat × PackedEvent)} {s s' : ActiveMonitors}
    {sent : List Output} (hinv : s.Inv) (h : Swept rows s s' sent) (c : Nat) (i : SubId) :
    (s'.installed c i).map Subscription.request = (s.installed c i).map Subscription.request := by
  cases hinst : s.installed c i with
  | none =>
    rw [Option.map_none, Option.map_eq_none_iff, ActiveMonitors.installed_eq_none_iff h.inv]
    intro p sub' hsub' hkey
    cases hp : s.monitors.lookup p with
    | none =>
      rw [h.unused p hp] at hsub'
      cases hsub'
    | some sub =>
      obtain ⟨got, sub₁, hgets, hlook, -⟩ := h.gets p sub hp
      rw [hlook] at hsub'
      cases hsub'
      obtain ⟨hc, hi, -⟩ := hgets.same
      rw [hc, hi] at hkey
      exact (ActiveMonitors.installed_eq_none_iff hinv).1 hinst p sub hp hkey
  | some sub =>
    obtain ⟨p, hp, hc, hi⟩ := (ActiveMonitors.installed_eq_some_iff hinv).1 hinst
    obtain ⟨got, sub', hgets, hlook, -⟩ := h.gets p sub hp
    obtain ⟨hc', hi', hf'⟩ := hgets.same
    rw [(ActiveMonitors.installed_eq_some_iff h.inv).2 ⟨p, hlook, hc'.trans hc, hi'.trans hi⟩]
    simp [Subscription.request, hc', hi', hf']

theorem monitorHandle_dbChange (hinv : monitors.Inv)
    (h : monitorHandle cfg txn p monitors currEventId .dbChange = some step) :
    processEvents (txn.event.rowsFrom (startAfter currEventId)) monitors =
        some (step.monitors, step.sent) ∧
      Swept (txn.event.rowsFrom (startAfter currEventId)) monitors step.monitors step.sent ∧
      step.currEventId = txn.getMostRecentLevId := by
  obtain ⟨⟨monitors', sent⟩, hproc, rfl⟩ := Option.map_eq_some_iff.1 h
  obtain ⟨s', sent', hproc', hs⟩ :=
    processEvents_spec (txn.event.rowsFrom (startAfter currEventId)) hinv
  rw [hproc] at hproc'
  cases hproc'
  exact ⟨hproc, hs, rfl⟩

/-- A new subscription is accepted or refused, and has been sent what it has missed. -/
theorem monitorHandle_newSub {serial : Nat} {sub : Subscription}
    (h : monitorHandle cfg txn p monitors currEventId (.newSub serial sub) = some step) :
    ∃ accepted, monitors.addSub cfg.maxSubsPerConnection p
        { sub with latestEventId := txn.getMostRecentLevId } txn.getMostRecentLevId =
          .ok (accepted, step.monitors) ∧
      step.currEventId = currEventId ∧
      step.sent = catchUp txn sub ++
        if accepted then [] else [.noticeError sub.connId "too many concurrent REQs"] := by
  rw [monitorHandle] at h
  split at h
  · cases h
  · rename_i accepted monitors' hok
    cases h
    exact ⟨accepted, hok, rfl, rfl⟩

theorem monitorHandle_removeSub (hinv : monitors.Inv) {serial connId : Nat} {subId : SubId}
    (h : monitorHandle cfg txn p monitors currEventId (.removeSub serial connId subId) = some step) :
    monitors.removeSub connId subId = .ok step.monitors ∧
      ActiveMonitors.Restricts (fun c i => ¬ (c = connId ∧ i = subId)) monitors step.monitors ∧
      step.currEventId = currEventId ∧ step.sent = [] := by
  obtain ⟨s', hok, hr⟩ := ActiveMonitors.removeSub_spec hinv connId subId
  simp only [monitorHandle, hok] at h
  cases h
  exact ⟨hok, hr, rfl, rfl⟩

theorem monitorHandle_closeConn (hinv : monitors.Inv) {serial connId : Nat}
    (h : monitorHandle cfg txn p monitors currEventId (.closeConn serial connId) = some step) :
    monitors.closeConn connId = .ok step.monitors ∧
      ActiveMonitors.Restricts (fun c _ => c ≠ connId) monitors step.monitors ∧
      step.currEventId = currEventId ∧ step.sent = [] := by
  obtain ⟨s', hok, hr⟩ := ActiveMonitors.closeConn_spec hinv connId
  simp only [monitorHandle, hok] at h
  cases h
  exact ⟨hok, hr, rfl, rfl⟩

theorem monitorHandle_inv {msg : MsgReqMonitor} (hinv : monitors.Inv)
    (hp : monitors.monitors.lookup p = none)
    (h : monitorHandle cfg txn p monitors currEventId msg = some step) : step.monitors.Inv := by
  cases msg with
  | newSub serial sub =>
    obtain ⟨accepted, hok, -⟩ := monitorHandle_newSub h
    obtain ⟨b, s', hok', hinv', -⟩ := ActiveMonitors.addSub_spec hinv cfg.maxSubsPerConnection hp
      { sub with latestEventId := txn.getMostRecentLevId } rfl
    rw [hok] at hok'
    cases hok'
    exact hinv'
  | removeSub serial connId subId => exact (monitorHandle_removeSub hinv h).2.1.inv hinv
  | closeConn serial connId => exact (monitorHandle_closeConn hinv h).2.1.inv hinv
  | dbChange => exact (monitorHandle_dbChange hinv h).2.1.inv

/-- A message leaves the subscriptions alone that it does not concern. -/
theorem monitorHandle_request_eq {msg : MsgReqMonitor} (hinv : monitors.Inv)
    (hp : monitors.monitors.lookup p = none)
    (h : monitorHandle cfg txn p monitors currEventId msg = some step) {c : Nat} {i : SubId}
    (hother : msg.serialFor c i = none) :
    (step.monitors.installed c i).map Subscription.request =
      (monitors.installed c i).map Subscription.request := by
  cases msg with
  | newSub serial sub =>
    obtain ⟨accepted, hok, -⟩ := monitorHandle_newSub h
    rw [ActiveMonitors.installed_addSub hinv hp hok, if_neg]
    rintro ⟨rfl, rfl⟩
    simp [MsgReqMonitor.serialFor] at hother
  | removeSub serial connId subId =>
    rw [(monitorHandle_removeSub hinv h).2.1.installed_eq hinv]
    rintro ⟨rfl, rfl⟩
    simp [MsgReqMonitor.serialFor] at hother
  | closeConn serial connId =>
    rw [(monitorHandle_closeConn hinv h).2.1.installed_eq hinv]
    rintro rfl
    simp [MsgReqMonitor.serialFor] at hother
  | dbChange => exact (monitorHandle_dbChange hinv h).2.1.request_eq hinv c i

/-- Only a subscription that is installed, or about to be, is sent an event. -/
theorem monitorHandle_isFor {msg : MsgReqMonitor} (hinv : monitors.Inv)
    (h : monitorHandle cfg txn p monitors currEventId msg = some step) {o : Output}
    (ho : o ∈ step.sent) {c : Nat} {i : SubId} (hfor : o.isFor c i = true) :
    (monitors.installed c i).isSome ∨
      ∃ serial sub, msg = .newSub serial sub ∧ sub.connId = c ∧ sub.subId = i := by
  cases msg with
  | newSub serial sub =>
    obtain ⟨accepted, -, -, hsent⟩ := monitorHandle_newSub h
    rw [hsent] at ho
    rcases List.mem_append.1 ho with ho | ho
    · obtain ⟨r, -, rfl⟩ := List.mem_map.1 ho
      simp only [Output.isFor, Bool.and_eq_true, beq_iff_eq] at hfor
      exact Or.inr ⟨serial, sub, rfl, hfor⟩
    · cases accepted with
      | true => cases ho
      | false =>
        rw [List.mem_singleton.1 ho] at hfor
        cases hfor
  | removeSub serial connId subId =>
    rw [(monitorHandle_removeSub hinv h).2.2.2] at ho
    cases ho
  | closeConn serial connId =>
    rw [(monitorHandle_closeConn hinv h).2.2.2] at ho
    cases ho
  | dbChange =>
    left
    rw [Option.isSome_iff_ne_none]
    intro hnone
    have hnil := (monitorHandle_dbChange hinv h).2.1.others c i hnone
    have : o ∈ step.sent.filter (Output.isFor c i) := List.mem_filter.2 ⟨ho, hfor⟩
    rw [hnil] at this
    cases this

/-- No message but a NewSub gives a connection an entry. -/
theorem monitorHandle_noEntry {msg : MsgReqMonitor} (hinv : monitors.Inv)
    (h : monitorHandle cfg txn p monitors currEventId msg = some step) {c : Nat}
    (hnone : monitors.conns.lookup c = none)
    (hother : ∀ serial sub, msg = .newSub serial sub → c ≠ sub.connId) :
    step.monitors.conns.lookup c = none := by
  cases msg with
  | newSub serial sub =>
    obtain ⟨accepted, hok, -⟩ := monitorHandle_newSub h
    apply ActiveMonitors.addSub_noEntry hnone ?_ hok
    exact hother serial sub rfl
  | removeSub serial connId subId =>
    exact ActiveMonitors.removeSub_noEntry hnone (monitorHandle_removeSub hinv h).1
  | closeConn serial connId =>
    exact ActiveMonitors.closeConn_noEntry hnone (monitorHandle_closeConn hinv h).1
  | dbChange =>
    rw [(monitorHandle_dbChange hinv h).2.1.conns]
    exact hnone

end Monitor

end Strfry
