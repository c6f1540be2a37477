import Strfry.ReqInvariants
import Strfry.ReqExec

/-!
# CLOSE and disconnect leave nothing behind

After the monitor thread has handled the RemoveSub of a CLOSE, every number on the path of the
subscription id is larger than the one of the CLOSE, and nothing is installed. What is sent later
therefore goes back to a later REQ. After a CloseConn there is no later number, since a disconnect is
the last message of its connection: the path is empty and stays so.
-/

set_option autoImplicit false

namespace Strfry

open Lib

namespace Relay

variable {cfg : RelayConfig} {s s' : Relay}

/-- The subscription in the monitor thread of its connection. -/
def installed (cfg : RelayConfig) (s : Relay) (c : Nat) (i : SubId) : Option Subscription :=
  (s.monitors (c % cfg.numReqMonitor)).monitors.installed c i

/-! ## Threads that own a connection -/

theorem Inv.mem_path_worker (h : Inv cfg s) {w c k : Nat} {i : SubId}
    (hk : k ∈ (s.workers w).path c i) : k ∈ s.path cfg c i := by
  by_cases hw : c % cfg.numReqWorker = w
  · subst hw
    exact List.mem_append_right _ (List.mem_append_left _ hk)
  · rw [(h.workerOwns w c hw).2 i] at hk
    cases hk

theorem Inv.mem_path_monitor (h : Inv cfg s) {m c k : Nat} {i : SubId}
    (hk : k ∈ (s.monitors m).path c i) : k ∈ s.path cfg c i := by
  by_cases hm : c % cfg.numReqMonitor = m
  · subst hm
    exact List.mem_append_left _ hk
  · rw [(h.monitorOwns m c hm).2 i] at hk
    cases hk

theorem installed_eq_none_of_noEntry {monitors : ActiveMonitors} {c : Nat}
    (hnone : monitors.conns.lookup c = none) (i : SubId) : monitors.installed c i = none := by
  rw [ActiveMonitors.installed, ActiveMonitors.findMonitor, Map.find₂, hnone]
  rfl

theorem Inv.owner_of_installed (h : Inv cfg s) {m c : Nat} {i : SubId}
    (hinst : ((s.monitors m).monitors.installed c i).isSome) : c % cfg.numReqMonitor = m := by
  by_contra hm
  rw [installed_eq_none_of_noEntry (h.monitorOwns m c hm).1] at hinst
  cases hinst

/-! ## What a step sends -/

/-- A REQ for the subscription id is on its way or its query is running. -/
def Pending (cfg : RelayConfig) (s : Relay) (c : Nat) (i : SubId) : Prop :=
  ∃ k ∈ s.path cfg c i, IsReq cfg s.submitted k c i

theorem isFor_sliceStep {txn : Store} {n : Nat} {queries : QueryScheduler} {step : WorkerStep}
    {slice : Slice} {h : HeapQuery} {query : DBQuery} {calls : List Nat}
    (hs : SliceStep cfg txn n queries step slice h query calls) {o : Output} (ho : o ∈ step.sent)
    {c : Nat} {i : SubId} (hfor : o.isFor c i = true) :
    slice.sub.connId = c ∧ slice.sub.subId = i := by
  rw [hs.sent] at ho
  rcases List.mem_append.1 ho with ho | ho
  · obtain ⟨levId, -, rfl⟩ := List.mem_map.1 ho
    simpa [Output.isFor] using hfor
  · split at ho
    · rw [List.mem_singleton.1 ho] at hfor
      simpa [Output.isFor] using hfor
    · cases ho

/-- A worker sends something for a subscription id only when its query is running. -/
theorem workerProcess_isFor {txn : Store} {n : Nat} {queries : QueryScheduler} {step : WorkerStep}
    (hinv : queries.Inv) (hp : Strfry.workerProcess cfg txn n queries = some step) {o : Output}
    (ho : o ∈ step.sent) {c : Nat} {i : SubId} (hfor : o.isFor c i = true) :
    ∃ h, queries.live c i = some h ∧ h.query.sub.connId = c ∧ h.query.sub.subId = i := by
  obtain ⟨-, ⟨hsent, -⟩ | ⟨slice, h, query, calls, hs⟩⟩ := workerProcess_spec hinv hp
  · rw [hsent] at ho
    cases ho
  · obtain ⟨rfl, rfl⟩ := isFor_sliceStep hs ho hfor
    exact ⟨h, hs.ran.live, by rw [← hs.ran.sub], by rw [← hs.ran.sub]⟩

/-- A running query is a pending REQ. -/
theorem Inv.pending_of_live (hinv : Inv cfg s) (w : Nat) {h : HeapQuery} {c : Nat} {i : SubId}
    (hmem : h.serial ∈ (s.workers w).path c i)
    (hsrc : Forwarded cfg s.submitted (.newSub h.serial h.query.sub.request))
    (hc : h.query.sub.connId = c) (hi : h.query.sub.subId = i) : Pending cfg s c i :=
  ⟨h.serial, hinv.mem_path_worker hmem, h.query.sub.request, hsrc, hc, hi⟩

/-- A NewSub at a monitor thread is a pending REQ. -/
theorem Inv.pending_of_monitorMsg (hinv : Inv cfg s) (hsrc : Sourced cfg s) {m serial : Nat}
    {sub : Subscription} {rest : List MsgReqMonitor}
    (next : (s.monitors m).newMsgs = .newSub serial sub :: rest) {c : Nat} {i : SubId}
    (hc : sub.connId = c) (hi : sub.subId = i) : Pending cfg s c i := by
  have hmem : MsgReqMonitor.newSub serial sub ∈ (s.monitors m).newMsgs ++ (s.monitors m).inbox := by
    rw [next]
    exact List.mem_append_left _ List.mem_cons_self
  have hserial : serial ∈ (s.monitors m).path c i :=
    List.mem_filterMap.2 ⟨_, hmem, if_pos ⟨hc, hi⟩⟩
  exact ⟨serial, hinv.mem_path_monitor hserial, sub.request, hsrc.monitor m _ hmem _ rfl, hc, hi⟩

theorem Inv.pending_of_newSub (hinv : Inv cfg s) (hsrc : Sourced cfg s) {w n serial : Nat}
    {txn : Store} {sub : Subscription} {rest : List MsgReqWorker} {q : QueryPtr} {step : WorkerStep}
    (next : (s.workers w).newMsgs = .newSub serial sub :: rest)
    (unused : (s.workers w).queries.queries.lookup q = none)
    (hp : Strfry.workerProcess cfg txn n
      ((s.workers w).queries.addSub cfg.maxSubsPerConnection txn q serial sub).2 = some step)
    {o : Output} (ho : o ∈ step.sent) {c : Nat} {i : SubId} (hfor : o.isFor c i = true) :
    Pending cfg s c i := by
  have hmsg := hsrc.worker w (.newSub serial sub)
    (by rw [next]; exact List.mem_append_left _ List.mem_cons_self)
  obtain ⟨h, hl, hc, hi⟩ :=
    workerProcess_isFor (addSub_inv (hinv.queries w) _ unused serial sub) hp ho hfor
  refine hinv.pending_of_live w ?_
    (addSub_sourced (hinv.queries w) unused (hsrc.query w) hmsg c i h hl) hc hi
  -- the query was running before or is the new one
  have hmem : h.serial ∈ serialOf ((s.workers w).queries.live c i) ++
      (MsgReqWorker.serialFor c i (.newSub serial sub)).toList := by
    apply (addSub_sublist (hinv.queries w) cfg.maxSubsPerConnection unused serial sub c i).subset
    rw [hl]
    exact List.mem_singleton_self _
  rw [ReqWorker.path, next]
  rcases List.mem_append.1 hmem with hmem | hmem
  · exact List.mem_append_left _ hmem
  · apply List.mem_append_right
    have hk := Option.mem_toList.1 hmem
    exact List.mem_filterMap.2 ⟨_, List.mem_append_left _ List.mem_cons_self, hk⟩

/-- The ingester only sends notices. -/
theorem ingesterForward_isFor {serial : Nat} {msg : MsgIngester} {o : Output}
    (ho : o ∈ (ingesterForward cfg serial msg).1) (c : Nat) (i : SubId) :
    o.isFor c i = false := by
  have hno : ∀ connId label r, o ∈ (forwardOr connId label r).1 → o.isFor c i = false := by
    intro connId label r ho
    cases r with
    | ok m => cases ho
    | error e =>
      rw [List.mem_singleton.1 ho]
      rfl
  cases msg with
  | closeConn connId => cases ho
  | clientMessage msg =>
    rw [ingesterForward] at ho
    split at ho
    · split at ho
      · split at ho
        · exact hno _ _ _ ho
        · split at ho
          · exact hno _ _ _ ho
          · cases ho
      · cases ho
    · cases ho

/-- Something is sent for a subscription id only when a REQ for it is pending or it is installed. -/
theorem Step.isFor {act : Action} (hstep : Step cfg s act s') (hinv : Inv cfg s)
    (hsrc : Sourced cfg s) : ∃ sent, s'.log = s.log ++ sent ∧ ∀ o ∈ sent, ∀ c i,
      o.isFor c i = true → Pending cfg s c i ∨ (s.installed cfg c i).isSome := by
  have hquiet : s'.log = s.log → ∃ sent, s'.log = s.log ++ sent ∧ ∀ o ∈ sent, ∀ c i,
      o.isFor c i = true → Pending cfg s c i ∨ (s.installed cfg c i).isSome :=
    fun hlog => ⟨[], by rw [hlog, List.append_nil], by simp⟩
  cases hstep with
  | receive opened => exact hquiet rfl
  | @ingest i serial msg rest next =>
    refine ⟨_, log_afterIngester .., fun o ho c id hfor => ?_⟩
    rw [ingesterForward_isFor ho] at hfor
    cases hfor
  | workerPop idle done ready => exact hquiet rfl
  | @workerMsg w txn msg rest q n step opened next unused handled =>
    refine ⟨_, log_afterWorker, fun o ho c i hfor => Or.inl ?_⟩
    cases msg with
    | newSub serial sub =>
      obtain ⟨step', hp, rfl⟩ := Option.map_eq_some_iff.1 handled
      rcases List.mem_append.1 ho with ho | ho
      · split at ho
        · cases ho
        · rw [List.mem_singleton.1 ho] at hfor
          cases hfor
      · exact hinv.pending_of_newSub hsrc next unused hp ho hfor
    | removeSub serial connId subId =>
      cases handled
      cases ho
    | closeConn serial connId =>
      cases handled
      cases ho
  | @workerProcess w txn n step opened done handled =>
    refine ⟨_, log_afterWorker, fun o ho c i hfor => Or.inl ?_⟩
    obtain ⟨h, hl, hc, hi⟩ := workerProcess_isFor (hinv.queries w) handled ho hfor
    refine hinv.pending_of_live w ?_ (hsrc.query w c i h hl) hc hi
    rw [ReqWorker.path, hl]
    exact List.mem_append_left _ (List.mem_singleton_self _)
  | monitorPop done ready => exact hquiet rfl
  | @monitorMsg m msg rest p step next unused handled =>
    refine ⟨_, rfl, fun o ho c i hfor => ?_⟩
    rcases monitorHandle_isFor (hinv.monitors m) handled ho hfor with hinst |
      ⟨serial, sub, rfl, hc, hi⟩
    · obtain rfl := hinv.owner_of_installed hinst
      exact Or.inr hinst
    · exact Or.inl (hinv.pending_of_monitorMsg hsrc next hc hi)
  | dbChange => exact hquiet rfl
  | commit txn => exact hquiet rfl

/-- A subscription is installed by a REQ that was pending. -/
theorem Step.isSome_installed {act : Action} (hstep : Step cfg s act s') (hinv : Inv cfg s)
    (hsrc : Sourced cfg s) {c : Nat} {i : SubId} (hinst : (s'.installed cfg c i).isSome) :
    Pending cfg s c i ∨ (s.installed cfg c i).isSome := by
  have hkeeps : Keeps s s' → Pending cfg s c i ∨ (s.installed cfg c i).isSome := by
    intro hk
    rw [installed, (hk.monitors _).1] at hinst
    exact Or.inr hinst
  cases hstep with
  | receive opened => exact Or.inr hinst
  | ingest next =>
    rw [installed, monitors_afterIngester] at hinst
    exact Or.inr hinst
  | workerPop idle done ready => exact hkeeps (keeps_workerPop done _)
  | workerMsg opened next unused handled =>
    rw [installed, monitors_afterWorker] at hinst
    exact Or.inr hinst
  | workerProcess opened done handled =>
    rw [installed, monitors_afterWorker] at hinst
    exact Or.inr hinst
  | monitorPop done ready => exact hkeeps (keeps_monitorPop done _ _)
  | @monitorMsg m msg rest p step next unused handled =>
    simp only [installed, afterMonitor, setMonitor, send, Function.update_apply] at hinst
    split at hinst
    · rename_i hm
      subst hm
      by_cases hother : msg.serialFor c i = none
      · have heq := monitorHandle_request_eq (hinv.monitors _) unused handled hother
        right
        rw [installed, ← Option.isSome_map (f := Subscription.request), ← heq, Option.isSome_map]
        exact hinst
      · cases msg with
        | newSub serial sub =>
          left
          rw [MsgReqMonitor.serialFor] at hother
          split at hother
          · rename_i hkey
            exact hinv.pending_of_monitorMsg hsrc next hkey.1 hkey.2
          · exact absurd rfl hother
        | removeSub serial connId subId =>
          rw [(monitorHandle_removeSub (hinv.monitors _) handled).2.1.installed_eq_none
            (hinv.monitors _)] at hinst
          · cases hinst
          · rw [MsgReqMonitor.serialFor] at hother
            split at hother
            · rename_i hkey
              exact not_not.2 ⟨hkey.1.symm, hkey.2.symm⟩
            · exact absurd rfl hother
        | closeConn serial connId =>
          rw [(monitorHandle_closeConn (hinv.monitors _) handled).2.1.installed_eq_none
            (hinv.monitors _)] at hinst
          · cases hinst
          · rw [MsgReqMonitor.serialFor] at hother
            split at hother
            · rename_i hkey
              exact not_not.2 hkey.symm
            · exact absurd rfl hother
        | dbChange => exact absurd rfl hother
    · exact Or.inr hinst
  | dbChange => exact hkeeps (keeps_notified cfg s)
  | commit txn => exact hkeeps (keeps_commit _)

theorem Step.submitted_eq {act : Action} (hstep : Step cfg s act s') :
    ∃ more, s'.submitted = s.submitted ++ more := by
  have hsame : s'.submitted = s.submitted → ∃ more, s'.submitted = s.submitted ++ more :=
    fun heq => ⟨[], by rw [heq, List.append_nil]⟩
  cases hstep with
  | receive opened => exact ⟨_, rfl⟩
  | ingest next => exact hsame (submitted_afterIngester ..)
  | workerMsg opened next unused handled => exact hsame submitted_afterWorker
  | workerProcess opened done handled => exact hsame submitted_afterWorker
  | workerPop | monitorPop | monitorMsg | dbChange | commit => exact hsame rfl

/-! ## After a CLOSE -/

/-- What is on the way for the subscription id, or installed, goes back to a message after the one
with the number `k`. -/
structure After (cfg : RelayConfig) (k c : Nat) (i : SubId) (s : Relay) : Prop where
  path : ∀ j ∈ s.path cfg c i, k < j
  installed : (s.installed cfg c i).isSome → ∃ j, k < j ∧ IsReq cfg s.submitted j c i
  lt_length : k < s.submitted.length

section After

variable {k c : Nat} {i : SubId}

theorem After.of_pending (h : After cfg k c i s)
    (hor : Pending cfg s c i ∨ (s.installed cfg c i).isSome) :
    ∃ j, k < j ∧ IsReq cfg s.submitted j c i := by
  rcases hor with ⟨j, hj, hreq⟩ | hinst
  · exact ⟨j, h.path j hj, hreq⟩
  · exact h.installed hinst

theorem After.step {act : Action} (h : After cfg k c i s) (hinv : Inv cfg s) (hsrc : Sourced cfg s)
    (hstep : Step cfg s act s') : After cfg k c i s' := by
  obtain ⟨more, hmore⟩ := hstep.submitted_eq
  refine ⟨fun j hj => ?_, fun hinst => ?_, ?_⟩
  · rcases List.mem_append.1 ((hstep.path_sublist hinv c i).subset hj) with hj | hj
    · exact h.path j hj
    · split at hj
      · split at hj
        · rw [List.mem_singleton.1 hj]
          exact h.lt_length
        · cases hj
      · cases hj
  · obtain ⟨j, hlt, hreq⟩ := h.of_pending (hstep.isSome_installed hinv hsrc hinst)
    rw [hmore]
    exact ⟨j, hlt, hreq.append more⟩
  · rw [hmore, List.length_append]
    have := h.lt_length
    omega

/-- From such a state on, nothing is sent for the subscription id without a later REQ. -/
theorem After.run {acts : List Action} (h : After cfg k c i s) (hreach : Reachable cfg s)
    (hrun : Run cfg s acts s') : After cfg k c i s' ∧ ∃ sent, s'.log = s.log ++ sent ∧
      ∀ o ∈ sent, o.isFor c i = true → ∃ j, k < j ∧ IsReq cfg s'.submitted j c i := by
  induction hrun with
  | refl => exact ⟨h, [], by simp⟩
  | @tail s₂ s₃ acts act hrun hstep ih =>
    obtain ⟨hafter, sent, hlog, hsent⟩ := ih
    have hinv := (hreach.trans hrun).inv
    have hsrc := (hreach.trans hrun).sourced
    obtain ⟨more, hmore⟩ := hstep.submitted_eq
    obtain ⟨sent', hlog', hsent'⟩ := hstep.isFor hinv hsrc
    refine ⟨hafter.step hinv hsrc hstep, sent ++ sent', ?_, fun o ho hfor => ?_⟩
    · rw [hlog', hlog, List.append_assoc]
    · have hreq : ∃ j, k < j ∧ IsReq cfg s₂.submitted j c i := by
        rcases List.mem_append.1 ho with ho | ho
        · exact hsent o ho hfor
        · exact hafter.of_pending (hsent' o ho c i hfor)
      obtain ⟨j, hlt, hreq⟩ := hreq
      rw [hmore]
      exact ⟨j, hlt, hreq.append more⟩

end After

/-- After a message that ends a subscription has been handled. -/
theorem Inv.after_monitorMsg (hinv : Inv cfg s) {m k : Nat} {msg : MsgReqMonitor}
    {rest : List MsgReqMonitor} {step : MonitorStep} {c : Nat} {i : SubId}
    (next : (s.monitors m).newMsgs = msg :: rest) (hk : msg.serialFor c i = some k)
    (hnone : step.monitors.installed c i = none) :
    c % cfg.numReqMonitor = m ∧
      After cfg k c i (s.afterMonitor m { s.monitors m with newMsgs := rest } step) := by
  have hmem : k ∈ (s.monitors m).path c i := by
    rw [ReqMonitor.path, next]
    exact List.mem_filterMap.2 ⟨msg, List.mem_append_left _ List.mem_cons_self, hk⟩
  have hm : c % cfg.numReqMonitor = m := by
    by_contra hm
    rw [(hinv.monitorOwns m c hm).2 i] at hmem
    cases hmem
  have hinc := hinv.increasing c i
  rw [path_afterMonitor next hm i, hk] at hinc
  subst hm
  refine ⟨rfl, (List.pairwise_cons.1 hinc).1, fun hinst => ?_,
    hinv.lt_length (hinv.mem_path_monitor hmem)⟩
  simp only [installed, afterMonitor, setMonitor, send, Function.update_self] at hinst
  rw [hnone] at hinst
  cases hinst

/-! ## After a disconnect -/

/-- The queries of a connection are gone once its disconnect is on its way to the monitor. -/
def Closing (s : Relay) : Prop :=
  ∀ m k c, .closeConn k c ∈ (s.monitors m).newMsgs ++ (s.monitors m).inbox →
    ∀ w, (s.workers w).queries.conns.lookup c = none

/-- No REQ of a connection follows its disconnect. -/
theorem Inv.no_newSub_after_close (hinv : Inv cfg s) (hsrc : Sourced cfg s) {m w k j : Nat}
    {sub : Subscription}
    (hclose : .closeConn k sub.connId ∈ (s.monitors m).newMsgs ++ (s.monitors m).inbox)
    (hnew : .newSub j sub ∈ (s.workers w).newMsgs ++ (s.workers w).inbox) : False := by
  have hk : k ∈ (s.monitors m).path sub.connId sub.subId :=
    List.mem_filterMap.2 ⟨_, hclose, if_pos rfl⟩
  have hj : j ∈ (s.workers w).path sub.connId sub.subId :=
    List.mem_append_right _ (List.mem_filterMap.2 ⟨_, hnew, if_pos ⟨rfl, rfl⟩⟩)
  have hm : sub.connId % cfg.numReqMonitor = m := by
    by_contra hm
    rw [(hinv.monitorOwns m _ hm).2] at hk
    cases hk
  have hw : sub.connId % cfg.numReqWorker = w := by
    by_contra hw
    rw [(hinv.workerOwns w _ hw).2] at hj
    cases hj
  subst hm hw
  -- the REQ would have the larger number, and a disconnect has the largest of its connection
  have hlt : k < j :=
    (List.pairwise_append.1 (hinv.increasing sub.connId sub.subId)).2.2 k hk j
      (List.mem_append_left _ hj)
  obtain ⟨msg, hmsg, hconn⟩ := hinv.submitted _ _ j (hinv.mem_path_worker hj)
  have hle := hinv.closed _ k j msg (hsrc.monitor _ _ hclose _ rfl).closeConn hmsg hconn
  omega

theorem Closing.afterWorker (h : Closing s) (hinv : Inv cfg s) {w : Nat} {th : ReqWorker}
    {step : WorkerStep}
    (hentry : ∀ m k c, .closeConn k c ∈ (s.monitors m).newMsgs ++ (s.monitors m).inbox →
      step.queries.conns.lookup c = none)
    (hnew : ∀ key k c, step.dispatched = some (key, .closeConn k c) →
      c % cfg.numReqWorker = w ∧ step.queries.conns.lookup c = none) :
    Closing (s.afterWorker cfg w th step) := by
  intro m k c hmem w'
  rw [monitors_afterWorker, ← List.append_assoc] at hmem
  rw [workers_afterWorker, Function.update_apply]
  rcases List.mem_append.1 hmem with hmem | hmem
  · split
    · exact hentry m k c hmem
    · exact h m k c hmem w'
  · obtain ⟨d, hd, heq⟩ := List.mem_map.1 hmem
    have hd' := Option.mem_toList.1 (List.mem_filter.1 hd).1
    obtain ⟨hc, hnone⟩ := hnew d.1 k c (by rw [hd', ← heq])
    split
    · exact hnone
    · rename_i hw
      exact (hinv.workerOwns w' c fun hw' => hw (hw' ▸ hc)).1

/-- A step that leaves the queries alone and brings no disconnect to a monitor thread. -/
theorem Closing.of_subset (h : Closing s)
    (hworkers : ∀ w, (s'.workers w).queries = (s.workers w).queries)
    (hmonitors : ∀ m k c, .closeConn k c ∈ (s'.monitors m).newMsgs ++ (s'.monitors m).inbox →
      .closeConn k c ∈ (s.monitors m).newMsgs ++ (s.monitors m).inbox) : Closing s' := by
  intro m k c hmem w
  rw [hworkers]
  exact h m k c (hmonitors m k c hmem) w

theorem Step.closing {act : Action} (hstep : Step cfg s act s') (hinv : Inv cfg s)
    (hsrc : Sourced cfg s) (h : Closing s) : Closing s' := by
  cases hstep with
  | receive opened => exact h
  | ingest next =>
    refine h.of_subset (fun w => ?_) (fun m k c hmem => ?_)
    · rw [workers_afterIngester]
    · rw [monitors_afterIngester] at hmem
      exact hmem
  | workerPop idle done ready =>
    exact h.of_subset (fun w => ((keeps_workerPop done _).workers w).1) (fun m k c hmem => hmem)
  | @workerMsg w txn msg rest q n step opened next unused handled =>
    have hmsg : msg ∈ (s.workers w).newMsgs ++ (s.workers w).inbox := by
      rw [next]
      exact List.mem_append_left _ List.mem_cons_self
    apply h.afterWorker hinv
    · intro m k c hmem
      refine workerHandle_noEntry (h m k c hmem w) ?_ handled
      rintro serial sub rfl rfl
      exact hinv.no_newSub_after_close hsrc hmem hmsg
    · intro key k c hd
      cases msg with
      | newSub serial sub =>
        obtain ⟨step', hp, rfl⟩ := Option.map_eq_some_iff.1 handled
        obtain ⟨-, ⟨-, hdisp, -⟩ | ⟨slice, hq, query, calls, hs⟩⟩ :=
          workerProcess_spec (addSub_inv (hinv.queries w) _ unused serial sub) hp
        · rw [hdisp] at hd
          cases hd
        · rw [hs.dispatched] at hd
          split at hd <;> cases hd
      | removeSub serial connId subId =>
        cases handled
        cases hd
      | closeConn serial connId =>
        cases handled
        simp only [Option.some.injEq, Prod.mk.injEq, MsgReqMonitor.closeConn.injEq] at hd
        rw [← hd.2.2]
        refine ⟨?_, QueryScheduler.closeConn_self _ _⟩
        by_contra hw
        have hserial : ∀ i, serial ∈ (s.workers w).path connId i := fun i =>
          List.mem_append_right _ (List.mem_filterMap.2 ⟨_, hmsg, if_pos rfl⟩)
        have hmem := hserial ⟨[97], by decide, by decide, by decide⟩
        rw [(hinv.workerOwns w connId hw).2] at hmem
        cases hmem
  | @workerProcess w txn n step opened done handled =>
    apply h.afterWorker hinv
    · intro m k c hmem
      exact workerProcess_noEntry (h m k c hmem w) handled
    · intro key k c hd
      obtain ⟨-, ⟨-, hdisp, -⟩ | ⟨slice, hq, query, calls, hs⟩⟩ :=
        workerProcess_spec (hinv.queries w) handled
      · rw [hdisp] at hd
        cases hd
      · rw [hs.dispatched] at hd
        split at hd <;> cases hd
  | @monitorPop m done ready =>
    refine h.of_subset (fun w => rfl) (fun m' k c hmem => ?_)
    simp only [setMonitor, Function.update_apply] at hmem
    split at hmem
    · rename_i hm
      subst hm
      rw [List.append_nil] at hmem
      exact List.mem_append_right _ hmem
    · exact hmem
  | @monitorMsg m msg rest p step next unused handled =>
    refine h.of_subset (fun w => rfl) (fun m' k c hmem => ?_)
    simp only [afterMonitor, setMonitor, send, Function.update_apply] at hmem
    split at hmem
    · rename_i hm
      subst hm
      rw [next, List.cons_append]
      exact List.mem_cons_of_mem _ hmem
    · exact hmem
  | dbChange =>
    refine h.of_subset (fun w => rfl) (fun m k c hmem => ?_)
    simp only [notified] at hmem
    split at hmem
    · rw [← List.append_assoc] at hmem
      rcases List.mem_append.1 hmem with hmem | hmem
      · exact hmem
      · cases List.mem_singleton.1 hmem
    · exact hmem
  | commit txn => exact h

theorem Reachable.closing (h : Reachable cfg s) : Closing s := by
  obtain ⟨db, acts, hdb, hrun⟩ := h
  have hstart : Reachable cfg { db := db } := ⟨db, [], hdb, .refl⟩
  induction hrun with
  | refl => exact nofun
  | tail hrun hstep ih =>
    exact hstep.closing (hstart.trans hrun).inv (hstart.trans hrun).sourced ih

/-- Nothing is left of a connection, and nothing of it is on its way. -/
structure Gone (cfg : RelayConfig) (c : Nat) (s : Relay) : Prop where
  path : ∀ i, s.path cfg c i = []
  worker : ∀ w, (s.workers w).queries.conns.lookup c = none
  monitor : ∀ m, (s.monitors m).monitors.conns.lookup c = none
  closed : .closeConn c ∈ s.submitted

section Gone

variable {c : Nat}

theorem Gone.path_worker (h : Gone cfg c s) (hinv : Inv cfg s) (w : Nat) (i : SubId) :
    (s.workers w).path c i = [] := by
  rw [List.eq_nil_iff_forall_not_mem]
  intro k hk
  have hmem := hinv.mem_path_worker hk
  rw [h.path i] at hmem
  cases hmem

theorem Gone.path_monitor (h : Gone cfg c s) (hinv : Inv cfg s) (m : Nat) (i : SubId) :
    (s.monitors m).path c i = [] := by
  rw [List.eq_nil_iff_forall_not_mem]
  intro k hk
  have hmem := hinv.mem_path_monitor hk
  rw [h.path i] at hmem
  cases hmem

theorem Gone.step {act : Action} (h : Gone cfg c s) (hinv : Inv cfg s)
    (hstep : Step cfg s act s') : Gone cfg c s' := by
  obtain ⟨more, hmore⟩ := hstep.submitted_eq
  have hpath : ∀ i, s'.path cfg c i = [] := by
    intro i
    have hsub := hstep.path_sublist hinv c i
    rw [h.path i, List.nil_append] at hsub
    cases hstep with
    | @receive msg opened =>
      -- a message of the connection would come after its disconnect
      have hne : msg.connId ≠ c := by
        rintro rfl
        exact opened h.closed
      simp only [if_neg hne] at hsub
      exact List.sublist_nil.1 hsub
    | ingest | workerPop | workerMsg | workerProcess | monitorPop | monitorMsg | dbChange | commit =>
      exact List.sublist_nil.1 hsub
  have hclosed : .closeConn c ∈ s'.submitted := by
    rw [hmore]
    exact List.mem_append_left _ h.closed
  have hmoves : ∀ w th step, Moves s w th step →
      (∀ w', ((s.afterWorker cfg w th step).workers w').queries.conns.lookup c = none) ∧
        ∀ m, ((s.afterWorker cfg w th step).monitors m).monitors.conns.lookup c = none := by
    intro w th step hm
    refine ⟨fun w' => ?_, fun m => ?_⟩
    · rw [workers_afterWorker, Function.update_apply]
      split
      · exact hm.noEntry c (h.worker w) (h.path_worker hinv w)
      · exact h.worker w'
    · rw [monitors_afterWorker]
      exact h.monitor m
  have hkeeps : Keeps s s' → Gone cfg c s' := by
    intro hk
    refine ⟨hpath, fun w => ?_, fun m => ?_, hclosed⟩
    · rw [(hk.workers w).1]
      exact h.worker w
    · rw [(hk.monitors m).1]
      exact h.monitor m
  cases hstep with
  | receive opened => exact ⟨hpath, h.worker, h.monitor, hclosed⟩
  | ingest next =>
    refine ⟨hpath, fun w => ?_, fun m => ?_, hclosed⟩
    · rw [workers_afterIngester]
      exact h.worker w
    · rw [monitors_afterIngester]
      exact h.monitor m
  | workerPop idle done ready => exact hkeeps (keeps_workerPop done _)
  | workerMsg opened next unused handled =>
    obtain ⟨hw, hm⟩ := hmoves _ _ _ (hinv.moves_workerMsg next unused handled)
    exact ⟨hpath, hw, hm, hclosed⟩
  | workerProcess opened done handled =>
    obtain ⟨hw, hm⟩ := hmoves _ _ _ (hinv.moves_workerProcess handled)
    exact ⟨hpath, hw, hm, hclosed⟩
  | monitorPop done ready => exact hkeeps (keeps_monitorPop done _ _)
  | @monitorMsg m msg rest p step next unused handled =>
    refine ⟨hpath, h.worker, fun m' => ?_, hclosed⟩
    simp only [afterMonitor, setMonitor, send, Function.update_apply]
    split
    · refine monitorHandle_noEntry (hinv.monitors m) handled (h.monitor m) ?_
      rintro serial sub rfl rfl
      have hnil := h.path_monitor hinv m sub.subId
      rw [path_monitorMsg next step.monitors step.currEventId] at hnil
      simp [MsgReqMonitor.serialFor] at hnil
    · exact h.monitor m'
  | dbChange => exact hkeeps (keeps_notified cfg s)
  | commit txn => exact hkeeps (keeps_commit _)

theorem Gone.run {acts : List Action} (h : Gone cfg c s) (hreach : Reachable cfg s)
    (hrun : Run cfg s acts s') : Gone cfg c s' := by
  induction hrun with
  | refl => exact h
  | tail hrun hstep ih => exact ih.step (hreach.trans hrun).inv hstep

end Gone

/-- After the monitor thread has handled the CloseConn. -/
theorem Reachable.gone {m k c : Nat} (hreach : Reachable cfg s)
    (hstep : Step cfg s (.monitorMsg m (.closeConn k c)) s') : Gone cfg c s' := by
  have hinv := hreach.inv
  cases hstep with
  | @monitorMsg _ _ rest p step next unused handled =>
    obtain ⟨hok, hr, -, -⟩ := monitorHandle_closeConn (hinv.monitors m) handled
    have hmem : MsgReqMonitor.closeConn k c ∈ (s.monitors m).newMsgs ++ (s.monitors m).inbox := by
      rw [next]
      exact List.mem_append_left _ List.mem_cons_self
    have hclosed := (hreach.sourced.monitor m _ hmem _ rfl).closeConn
    have hafter : ∀ i, c % cfg.numReqMonitor = m ∧
        After cfg k c i (s.afterMonitor m { s.monitors m with newMsgs := rest } step) := fun i =>
      hinv.after_monitorMsg next (if_pos rfl)
        (hr.installed_eq_none (hinv.monitors m) fun hne => hne rfl)
    have hinv' := hinv.monitorMsg next unused handled
    refine ⟨fun i => ?_, fun w => hreach.closing m k c hmem w, fun m' => ?_,
      List.mem_of_getElem? hclosed⟩
    · -- a number on the path would be larger than the one of the disconnect
      rw [List.eq_nil_iff_forall_not_mem]
      intro j hj
      obtain ⟨msg, hmsg, hconn⟩ := hinv'.submitted c i j hj
      have hlt := (hafter i).2.path j hj
      have hle := hinv'.closed c k j msg hclosed hmsg hconn
      omega
    · simp only [afterMonitor, setMonitor, send, Function.update_apply]
      split
      · exact ActiveMonitors.closeConn_self hok
      · rename_i hm
        have howner := (hafter ⟨[97], by decide, by decide, by decide⟩).1
        exact (hinv.monitorOwns m' c fun heq => hm (heq ▸ howner)).1

/-! ## The result -/

/-- The connections hold exactly the queries of the deque that are not dead, each once. -/
structure ExactlyLive (s : QueryScheduler) : Prop where
  nodup : s.running.Nodup
  conns : ∀ q, (∃ c i, s.findQuery c i = some q) ↔
    q ∈ s.running ∧ ∃ h, s.queries.lookup q = some h ∧ h.dead = false
  once : ∀ c i c' i' q, s.findQuery c i = some q → s.findQuery c' i' = some q → c = c' ∧ i = i'

theorem exactlyLive {queries : QueryScheduler} (hinv : queries.Inv) : ExactlyLive queries where
  nodup := hinv.nodup
  conns := by
    intro q
    constructor
    · rintro ⟨c, i, hfind⟩
      obtain ⟨h, hlook, hlive, -⟩ := (hinv.owner c i q).1 hfind
      exact ⟨(hinv.mem_running q).2 ⟨h, hlook⟩, h, hlook, hlive⟩
    · rintro ⟨-, h, hlook, hlive⟩
      exact ⟨_, _, (hinv.owner _ _ q).2 ⟨h, hlook, hlive, rfl, rfl⟩⟩
  once := by
    intro c i c' i' q hfind hfind'
    obtain ⟨h, hlook, -, rfl, rfl⟩ := (hinv.owner _ _ _).1 hfind
    obtain ⟨h', hlook', -, rfl, rfl⟩ := (hinv.owner _ _ _).1 hfind'
    rw [hlook] at hlook'
    cases hlook'
    exact ⟨rfl, rfl⟩

/-- No table of the monitors holds an entry of the connection. -/
structure HoldsNothingOf (c : Nat) (s : ActiveMonitors) : Prop where
  conns : s.conns.lookup c = none
  monitors : ∀ p sub, s.monitors.lookup p = some sub → sub.connId ≠ c
  tables : ∀ e item, s.tables.item? e = some item →
    ∃ sub, s.monitors.lookup item.mon = some sub ∧ sub.connId ≠ c

theorem holdsNothingOf {monitors : ActiveMonitors} (hinv : monitors.Inv) {c : Nat}
    (hnone : monitors.conns.lookup c = none) : HoldsNothingOf c monitors := by
  have hall : ∀ p sub, monitors.monitors.lookup p = some sub → sub.connId ≠ c := by
    rintro p sub hsub rfl
    have hptr := (hinv.owner sub.connId sub.subId p).2 ⟨sub, hsub, rfl, rfl⟩
    rw [Map.find₂, hnone] at hptr
    cases hptr
  refine ⟨hnone, hall, fun e item hitem => ?_⟩
  obtain ⟨sub, hsub, -⟩ := (hinv.entered e).1 (Option.isSome_iff_exists.2 ⟨item, hitem⟩)
  rw [hinv.item_mon e item hitem]
  exact ⟨sub, hsub, hall _ sub hsub⟩

/-- Between steps the connections hold exactly the live queries. After the RemoveSub of a CLOSE
nothing is sent for the subscription id unless a later REQ uses it, and after the CloseConn of a
disconnect no thread ever holds an entry of the connection again. -/
theorem closing_leaves_nothing (hreach : Reachable cfg s) :
    (∀ w, ExactlyLive (s.workers w).queries) ∧
    (∀ m k c i s₁ acts s₂, Step cfg s (.monitorMsg m (.removeSub k c i)) s₁ → Run cfg s₁ acts s₂ →
      ∃ sent, s₂.log = s₁.log ++ sent ∧
        ∀ o ∈ sent, o.isFor c i = true → ∃ j, k < j ∧ IsReq cfg s₂.submitted j c i) ∧
    ∀ m k c s₁ acts s₂, Step cfg s (.monitorMsg m (.closeConn k c)) s₁ → Run cfg s₁ acts s₂ →
      (∀ w, (s₂.workers w).queries.conns.lookup c = none) ∧
        ∀ m, HoldsNothingOf c (s₂.monitors m).monitors := by
  have hinv := hreach.inv
  refine ⟨fun w => exactlyLive (hinv.queries w), fun m k c i s₁ acts s₂ hstep hrun => ?_,
    fun m k c s₁ acts s₂ hstep hrun => ?_⟩
  · have hreach₁ := hreach.tail hstep
    have hafter : After cfg k c i s₁ := by
      cases hstep with
      | monitorMsg next unused handled =>
        obtain ⟨-, hr, -, -⟩ := monitorHandle_removeSub (hinv.monitors m) handled
        exact (hinv.after_monitorMsg next (if_pos ⟨rfl, rfl⟩)
          (hr.installed_eq_none (hinv.monitors m) fun hne => hne ⟨rfl, rfl⟩)).2
    exact (hafter.run hreach₁ hrun).2
  · have hreach₁ := hreach.tail hstep
    have hgone := (hreach.gone hstep).run hreach₁ hrun
    exact ⟨hgone.worker, fun m => holdsNothingOf ((hreach₁.trans hrun).inv.monitors m) (hgone.monitor m)⟩

/-- A relay whose client sends a REQ and a CLOSE. -/
def closeRelay : RelayConfig := small [reqA "\x7b\x7d" (.object []), closeA] 20

/-- The REQ is installed, and the CLOSE has come to the monitor. -/
def reqThenClose : List Move :=
  toWorker (fromClient (reqA "\x7b\x7d" (.object []))) 0 2 ++ [.monitorPop 0, .monitorMsg 0 0] ++
    toWorker (fromClient closeA) 0 2 ++ [.monitorPop 0]

/-- The step handles a RemoveSub. -/
def Action.removeSub? : Action → Option (Nat × Nat × Nat × SubId)
  | .monitorMsg m (.removeSub k c i) => some (m, k, c, i)
  | _ => none

theorem Action.eq_of_removeSub? {act : Action} {m k c : Nat} {i : SubId}
    (h : act.removeSub? = some (m, k, c, i)) : act = .monitorMsg m (.removeSub k c i) := by
  unfold removeSub? at h
  split at h
  · cases h
    rfl
  · cases h

theorem closing_leaves_nothing_of_close :
    ∃ s s₁, Reachable closeRelay s ∧ (s.installed closeRelay 1 idA).isSome ∧
      Step closeRelay s (.monitorMsg 0 (.removeSub 1 1 idA)) s₁ ∧
      (∀ w, ExactlyLive (s.workers w).queries) ∧
      ∀ acts s₂, Run closeRelay s₁ acts s₂ →
        ∃ sent, s₂.log = s₁.log ++ sent ∧ ∀ o ∈ sent, o.isFor 1 idA = true →
          ∃ j, 1 < j ∧ IsReq closeRelay s₂.submitted j 1 idA := by
  have heval : ((execAll closeRelay reqThenClose { db := Db.init }).bind fun r =>
      (exec closeRelay r.2 (.monitorMsg 0 1)).map fun r' =>
        ((r.2.installed closeRelay 1 idA).isSome, r'.1.removeSub?)) =
      some (true, some (0, 1, 1, idA)) := by decide +kernel
  obtain ⟨⟨acts, s⟩, hrun, hnext⟩ := Option.bind_eq_some_iff.1 heval
  obtain ⟨⟨act, s₁⟩, hexec, heq⟩ := Option.map_eq_some_iff.1 hnext
  simp only [Prod.mk.injEq] at heq
  have hreach := execAll_reachable (by simp [reqThenClose, toWorker, Move.Valid]) hrun
  have hstep := exec_step (show Move.Valid _ (.monitorMsg 0 1) from trivial) hexec
  rw [Action.eq_of_removeSub? heq.2] at hstep
  obtain ⟨hlive, hclose, -⟩ := closing_leaves_nothing hreach
  exact ⟨s, s₁, hreach, heq.1, hstep, hlive,
    fun acts s₂ hrun => hclose 0 1 1 idA s₁ acts s₂ hstep hrun⟩

end Relay

end Strfry
