import Strfry.ReqClosing

/-!
# From the EOSE to the installed subscription

A worker sends the EOSE of a query and dispatches its NewSub in one step, so a NewSub that a monitor
handles has had its EOSE (`Announced`). The monitor counts the installed subscriptions of the
connection, the worker its running queries. A REQ that the worker lets pass can therefore still be
refused by the monitor, after its EOSE. Once installed, a subscription stays as it is until the
monitor handles a message that concerns it (`Run.request_eq`).
-/

set_option autoImplicit false

namespace Strfry

open Lib

/-! ## What a worker announces -/

/-- The EOSEs that a worker sends are those of the NewSubs that it dispatches. -/
def WorkerStep.Announces (step : WorkerStep) : Prop :=
  ∀ k c i, .eose k c i ∈ step.sent ↔
    ∃ sub, step.dispatched = some (c, .newSub k sub) ∧ sub.connId = c ∧ sub.subId = i

section Worker

variable {cfg : RelayConfig} {txn : Store} {n : Nat} {queries : QueryScheduler} {step : WorkerStep}

theorem eose_notMem_sliceEvents (slice : Slice) (k c : Nat) (i : SubId) :
    .eose k c i ∉ sliceEvents txn slice := by
  intro hmem
  obtain ⟨levId, -, heq⟩ := List.mem_map.1 hmem
  cases heq

theorem workerProcess_announces (hinv : queries.Inv)
    (hp : workerProcess cfg txn n queries = some step) : step.Announces := by
  intro k c i
  obtain ⟨-, ⟨hsent, hdisp, -⟩ | ⟨slice, h, query, calls, hs⟩⟩ := workerProcess_spec hinv hp
  · rw [hsent, hdisp]
    simp
  · rw [hs.sent, hs.dispatched, List.mem_append, or_iff_right (eose_notMem_sliceEvents slice k c i)]
    cases slice.complete with
    | false => simp
    | true =>
      simp only [if_true, List.mem_singleton, Output.eose.injEq, Option.some.injEq, Prod.mk.injEq,
        MsgReqMonitor.newSub.injEq]
      constructor
      · rintro ⟨rfl, rfl, rfl⟩
        exact ⟨slice.sub, ⟨rfl, rfl, rfl⟩, rfl, rfl⟩
      · rintro ⟨sub, ⟨hc, hk, rfl⟩, -, hi⟩
        exact ⟨hk.symm, hc.symm, hi.symm⟩

theorem workerHandle_announces {q : QueryPtr} {msg : MsgReqWorker} (hinv : queries.Inv)
    (hq : queries.queries.lookup q = none)
    (hw : workerHandle cfg txn q n queries msg = some step) : step.Announces := by
  cases msg with
  | newSub serial sub =>
    obtain ⟨step', hp, rfl⟩ := Option.map_eq_some_iff.1 hw
    have h := workerProcess_announces (addSub_inv hinv _ hq serial sub) hp
    intro k c i
    -- the notice of a refusal is not an EOSE
    rw [← h k c i, List.mem_append, or_iff_right]
    split <;> simp
  | removeSub serial connId subId =>
    cases hw
    intro k c i
    simp
  | closeConn serial connId =>
    cases hw
    intro k c i
    simp

/-- A query over the limit is refused with a notice. -/
theorem workerHandle_refused {q : QueryPtr} {serial : Nat} {sub : Subscription}
    (hw : workerHandle cfg txn q n queries (.newSub serial sub) = some step)
    (hfull : queries.Full cfg.maxSubsPerConnection sub.connId sub.subId) :
    .noticeError sub.connId "too many concurrent REQs" ∈ step.sent := by
  obtain ⟨step', hp, rfl⟩ := Option.map_eq_some_iff.1 hw
  have hno := (QueryScheduler.addSub_refused_iff cfg.maxSubsPerConnection txn queries q serial
    sub).2 hfull
  apply List.mem_append_left
  rw [hno]
  exact List.mem_singleton_self _

/-- The number of a query over the limit goes nowhere. -/
theorem workerHandle_dropped {q : QueryPtr} {serial : Nat} {sub : Subscription} (hinv : queries.Inv)
    (hq : queries.queries.lookup q = none)
    (hw : workerHandle cfg txn q n queries (.newSub serial sub) = some step)
    (hfull : queries.Full cfg.maxSubsPerConnection sub.connId sub.subId) :
    step.serialFor sub.connId sub.subId = [] ∧
      serialOf (step.queries.live sub.connId sub.subId) = [] := by
  obtain ⟨step', hp, rfl⟩ := Option.map_eq_some_iff.1 hw
  have hno := (QueryScheduler.addSub_refused_iff cfg.maxSubsPerConnection txn queries q serial
    sub).2 hfull
  obtain ⟨b, s', heq, hinv', hlive, -⟩ :=
    QueryScheduler.addSub_spec hinv cfg.maxSubsPerConnection txn hq serial sub
  rw [heq] at hno hp
  obtain rfl : b = false := hno
  have hsub := workerProcess_sublist hinv' hp sub.connId sub.subId
  have hnone : s'.live sub.connId sub.subId = none := by
    rw [hlive, if_pos ⟨rfl, rfl⟩]
    rfl
  rw [hnone] at hsub
  exact List.append_eq_nil_iff.1 (List.sublist_nil.1 hsub)

end Worker

/-- A monitor sends no EOSE. -/
theorem monitorHandle_eose {cfg : RelayConfig} {txn : Store} {p : MonitorPtr}
    {monitors : ActiveMonitors} {currEventId : WithTop Nat} {msg : MsgReqMonitor}
    {step : MonitorStep} (hinv : monitors.Inv)
    (h : monitorHandle cfg txn p monitors currEventId msg = some step) (k c : Nat) (i : SubId) :
    .eose k c i ∉ step.sent := by
  intro hmem
  cases msg with
  | newSub serial sub =>
    obtain ⟨accepted, -, -, hsent⟩ := monitorHandle_newSub h
    rw [hsent] at hmem
    rcases List.mem_append.1 hmem with hmem | hmem
    · obtain ⟨r, -, heq⟩ := List.mem_map.1 hmem
      cases heq
    · split at hmem
      · cases hmem
      · cases List.mem_singleton.1 hmem
  | removeSub serial connId subId =>
    rw [(monitorHandle_removeSub hinv h).2.2.2] at hmem
    cases hmem
  | closeConn serial connId =>
    rw [(monitorHandle_closeConn hinv h).2.2.2] at hmem
    cases hmem
  | dbChange =>
    obtain ⟨c', i', r, heq, -⟩ := (monitorHandle_dbChange hinv h).2.1.live _ hmem
    cases heq

namespace Relay

variable {cfg : RelayConfig} {s s' : Relay}

/-! ## Numbers that have not come to the monitor -/

/-- The part of the path before the monitor thread. -/
def upstream (cfg : RelayConfig) (s : Relay) (c : Nat) (i : SubId) : List Nat :=
  (s.workers (c % cfg.numReqWorker)).path c i ++ ingesterPath (s.ingesters (c % cfg.numIngester)) c

theorem path_eq (cfg : RelayConfig) (s : Relay) (c : Nat) (i : SubId) :
    s.path cfg c i = (s.monitors (c % cfg.numReqMonitor)).path c i ++ s.upstream cfg c i := rfl

theorem Moves.upstream_sublist {w : Nat} {th : ReqWorker} {step : WorkerStep}
    (hm : Moves s w th step) (c : Nat) (i : SubId) :
    ((s.afterWorker cfg w th step).upstream cfg c i).Sublist (s.upstream cfg c i) := by
  rw [upstream, upstream, workers_afterWorker, ingesters_afterWorker, Function.update_apply]
  refine List.Sublist.append ?_ (List.Sublist.refl _)
  split
  · rename_i hw
    rw [hw]
    exact (List.sublist_append_right _ _).trans (hm.moves c i)
  · exact List.Sublist.refl _

theorem Step.upstream_subset {act : Action} (hstep : Step cfg s act s') (h : Inv cfg s) {c j : Nat}
    {i : SubId} (hj : j ∈ s'.upstream cfg c i) :
    j ∈ s.upstream cfg c i ∨ j = s.submitted.length := by
  have hkeeps : Keeps s s' → j ∈ s.upstream cfg c i ∨ j = s.submitted.length := by
    intro hk
    rw [upstream, (hk.workers _).2, hk.ingesters] at hj
    exact Or.inl hj
  cases hstep with
  | @receive msg opened =>
    rcases List.mem_append.1 hj with hj | hj
    · exact Or.inl (List.mem_append_left _ hj)
    · simp only [received, Function.update_apply] at hj
      split at hj
      · rename_i heq
        rw [ingesterPath_append] at hj
        rcases List.mem_append.1 hj with hj | hj
        · rw [← heq] at hj
          exact Or.inl (List.mem_append_right _ hj)
        · split at hj
          · exact Or.inr (List.mem_singleton.1 hj)
          · cases hj
      · exact Or.inl (List.mem_append_right _ hj)
  | ingest next =>
    -- the monitor is not touched, and the path gets no longer
    left
    have hsub := h.path_ingest next c i
    rw [path_eq, path_eq, monitors_afterIngester, List.append_sublist_append_left] at hsub
    exact hsub.subset hj
  | workerPop idle done ready => exact hkeeps (keeps_workerPop done _)
  | workerMsg opened next unused handled =>
    exact Or.inl (((h.moves_workerMsg next unused handled).upstream_sublist c i).subset hj)
  | workerProcess opened done handled =>
    exact Or.inl (((h.moves_workerProcess handled).upstream_sublist c i).subset hj)
  | monitorPop done ready => exact hkeeps (keeps_monitorPop done _ _)
  | monitorMsg next unused handled => exact Or.inl hj
  | dbChange => exact hkeeps (keeps_notified cfg s)
  | commit txn => exact hkeeps (keeps_commit _)

/-! ## EOSE and NewSub -/

/-- A NewSub at a monitor has had its EOSE, and what has had its EOSE has come to the monitor. -/
structure Announced (cfg : RelayConfig) (s : Relay) : Prop where
  newSub : ∀ m k sub, .newSub k sub ∈ (s.monitors m).newMsgs ++ (s.monitors m).inbox →
    .eose k sub.connId sub.subId ∈ s.log
  passed : ∀ k c i, .eose k c i ∈ s.log →
    k < s.submitted.length ∧ ∀ j ∈ s.upstream cfg c i, k < j

theorem announced_start (cfg : RelayConfig) (db : Db) : Announced cfg { db := db } :=
  ⟨nofun, nofun⟩

/-- A step that sends no EOSE and dispatches no NewSub. -/
theorem Announced.of_quiet {act : Action} (h : Announced cfg s) (hinv : Inv cfg s)
    (hstep : Step cfg s act s')
    (hqueue : ∀ m k sub, .newSub k sub ∈ (s'.monitors m).newMsgs ++ (s'.monitors m).inbox →
      .newSub k sub ∈ (s.monitors m).newMsgs ++ (s.monitors m).inbox)
    (hlog : ∃ sent, s'.log = s.log ++ sent ∧ ∀ k c i, .eose k c i ∉ sent) : Announced cfg s' := by
  obtain ⟨sent, hlog, hsent⟩ := hlog
  obtain ⟨more, hmore⟩ := hstep.submitted_eq
  refine ⟨fun m k sub hmem => ?_, fun k c i hmem => ?_⟩
  · rw [hlog]
    exact List.mem_append_left _ (h.newSub m k sub (hqueue m k sub hmem))
  · rw [hlog, List.mem_append, or_iff_left (hsent k c i)] at hmem
    obtain ⟨hlt, hup⟩ := h.passed k c i hmem
    refine ⟨?_, fun j hj => ?_⟩
    · rw [hmore, List.length_append]
      omega
    · rcases hstep.upstream_subset hinv hj with hj | rfl
      · exact hup j hj
      · exact hlt

theorem mem_dispatchedTo {step : WorkerStep} {m : Nat} {msg : MsgReqMonitor} :
    msg ∈ step.dispatchedTo cfg m ↔
      ∃ key, step.dispatched = some (key, msg) ∧ key % cfg.numReqMonitor = m := by
  simp only [WorkerStep.dispatchedTo, List.mem_map, List.mem_filter, Option.mem_toList,
    decide_eq_true_eq, Prod.exists, exists_eq_right]

/-- A number that gets its EOSE is at the monitor afterwards. -/
theorem mem_path_of_announces {w : Nat} {th : ReqWorker} {step : WorkerStep} (ha : step.Announces)
    {k c : Nat} {i : SubId} (hmem : .eose k c i ∈ step.sent) :
    k ∈ ((s.afterWorker cfg w th step).monitors (c % cfg.numReqMonitor)).path c i := by
  obtain ⟨sub, hd, hc, hi⟩ := (ha _ _ _).1 hmem
  rw [monitors_afterWorker, ReqMonitor.path, List.mem_filterMap]
  refine ⟨.newSub k sub, ?_, if_pos ⟨hc, hi⟩⟩
  exact List.mem_append_right _ (List.mem_append_right _ (mem_dispatchedTo.2 ⟨c, hd, rfl⟩))

/-- A step of a worker thread. -/
theorem Announced.afterWorker {w : Nat} {th : ReqWorker} {step : WorkerStep} (h : Announced cfg s)
    (hinv : Inv cfg s) (hm : Moves s w th step) (ha : step.Announces) :
    Announced cfg (s.afterWorker cfg w th step) := by
  have hinv' : Inv cfg (s.afterWorker cfg w th step) := hinv.afterWorker hm
  refine ⟨fun m k sub hmem => ?_, fun k c i hmem => ?_⟩
  · rw [log_afterWorker]
    rw [monitors_afterWorker, ← List.append_assoc] at hmem
    rcases List.mem_append.1 hmem with hmem | hmem
    · exact List.mem_append_left _ (h.newSub m k sub hmem)
    · obtain ⟨key, hd, -⟩ := mem_dispatchedTo.1 hmem
      have hkey : key = sub.connId := hm.keyed key _ _ _ k hd (if_pos ⟨rfl, rfl⟩)
      subst hkey
      exact List.mem_append_right _ ((ha _ _ _).2 ⟨sub, hd, rfl, rfl⟩)
  · rw [log_afterWorker] at hmem
    rcases List.mem_append.1 hmem with hmem | hmem
    · obtain ⟨hlt, hup⟩ := h.passed k c i hmem
      refine ⟨?_, fun j hj => hup j ((hm.upstream_sublist c i).subset hj)⟩
      rw [submitted_afterWorker]
      exact hlt
    · -- the number is now at the monitor, before all that is upstream
      have hk : k ∈ ((s.afterWorker cfg w th step).monitors (c % cfg.numReqMonitor)).path c i :=
        mem_path_of_announces ha hmem
      refine ⟨hinv'.lt_length (List.mem_append_left _ hk), fun j hj => ?_⟩
      exact (List.pairwise_append.1 (hinv'.increasing c i)).2.2 k hk j hj

theorem Step.announced {act : Action} (hstep : Step cfg s act s') (hinv : Inv cfg s)
    (h : Announced cfg s) : Announced cfg s' := by
  have hsame : s'.log = s.log → ∃ sent, s'.log = s.log ++ sent ∧ ∀ k c i, .eose k c i ∉ sent :=
    fun hlog => ⟨[], by rw [hlog, List.append_nil], by simp⟩
  cases hstep with
  | receive opened => exact h.of_quiet hinv (.receive opened) (fun _ _ _ hmem => hmem) (hsame rfl)
  | ingest next =>
    refine h.of_quiet hinv (.ingest next) (fun m k sub hmem => ?_)
      ⟨_, log_afterIngester .., fun k c i hmem => ?_⟩
    · rw [monitors_afterIngester] at hmem
      exact hmem
    · have hfor := ingesterForward_isFor hmem c i
      simp [Output.isFor] at hfor
  | workerPop idle done ready =>
    exact h.of_quiet hinv (.workerPop idle done ready) (fun _ _ _ hmem => hmem) (hsame rfl)
  | workerMsg opened next unused handled =>
    exact h.afterWorker hinv (hinv.moves_workerMsg next unused handled)
      (workerHandle_announces (hinv.queries _) unused handled)
  | workerProcess opened done handled =>
    exact h.afterWorker hinv (hinv.moves_workerProcess handled)
      (workerProcess_announces (hinv.queries _) handled)
  | @monitorPop m done ready =>
    refine h.of_quiet hinv (.monitorPop done ready) (fun m' k sub hmem => ?_) (hsame rfl)
    simp only [setMonitor, Function.update_apply] at hmem
    split at hmem
    · rename_i hm
      subst hm
      rw [List.append_nil] at hmem
      exact List.mem_append_right _ hmem
    · exact hmem
  | @monitorMsg m msg rest p step next unused handled =>
    refine h.of_quiet hinv (.monitorMsg next unused handled) (fun m' k sub hmem => ?_)
      ⟨_, rfl, monitorHandle_eose (hinv.monitors m) handled⟩
    simp only [afterMonitor, setMonitor, send, Function.update_apply] at hmem
    split at hmem
    · rename_i hm
      subst hm
      rw [next, List.cons_append]
      exact List.mem_cons_of_mem _ hmem
    · exact hmem
  | dbChange =>
    refine h.of_quiet hinv .dbChange (fun m k sub hmem => ?_) (hsame rfl)
    simp only [notified] at hmem
    split at hmem
    · rw [← List.append_assoc] at hmem
      rcases List.mem_append.1 hmem with hmem | hmem
      · exact hmem
      · cases List.mem_singleton.1 hmem
    · exact hmem
  | commit txn => exact h.of_quiet hinv (.commit txn) (fun _ _ _ hmem => hmem) (hsame rfl)

theorem Reachable.announced (h : Reachable cfg s) : Announced cfg s := by
  obtain ⟨db, acts, hdb, hrun⟩ := h
  have hstart : Reachable cfg { db := db } := ⟨db, [], hdb, .refl⟩
  induction hrun with
  | refl => exact announced_start cfg db
  | tail hrun hstep ih => exact hstep.announced (hstart.trans hrun).inv ih

/-- A NewSub that is handled has had its EOSE. -/
theorem Reachable.eose_of_newSub {m k : Nat} {sub : Subscription} (hreach : Reachable cfg s)
    (hstep : Step cfg s (.monitorMsg m (.newSub k sub)) s') :
    .eose k sub.connId sub.subId ∈ s.log := by
  cases hstep with
  | monitorMsg next unused handled =>
    apply hreach.announced.newSub m
    rw [next]
    exact List.mem_append_left _ List.mem_cons_self

/-! ## What is installed stays -/

@[simp] theorem installed_afterMonitor {c : Nat} {th : ReqMonitor} {step : MonitorStep} (i : SubId) :
    (s.afterMonitor (c % cfg.numReqMonitor) th step).installed cfg c i =
      step.monitors.installed c i := by
  simp only [installed, afterMonitor, setMonitor, send, Function.update_self]

/-- A monitor thread has messages of its own connections only. -/
theorem Inv.owner_of_next (h : Inv cfg s) {m k c : Nat} {i : SubId} {msg : MsgReqMonitor}
    {rest : List MsgReqMonitor} (next : (s.monitors m).newMsgs = msg :: rest)
    (hk : msg.serialFor c i = some k) : c % cfg.numReqMonitor = m := by
  by_contra hm
  have hnil := (h.monitorOwns m c hm).2 i
  rw [path_monitorMsg next {} ⊤, hk] at hnil
  cases hnil

/-- No message that concerns the subscription id is handled by a monitor. -/
def Undisturbed (c : Nat) (i : SubId) (acts : List Action) : Prop :=
  ∀ m msg, .monitorMsg m msg ∈ acts → msg.serialFor c i = none

theorem Step.request_eq {act : Action} (hstep : Step cfg s act s') (hinv : Inv cfg s) {c : Nat}
    {i : SubId} (hother : ∀ m msg, act = .monitorMsg m msg → msg.serialFor c i = none) :
    (s'.installed cfg c i).map Subscription.request =
      (s.installed cfg c i).map Subscription.request := by
  have hkeeps : Keeps s s' → (s'.installed cfg c i).map Subscription.request =
      (s.installed cfg c i).map Subscription.request := by
    intro hk
    rw [installed, installed, (hk.monitors _).1]
  cases hstep with
  | receive opened => rfl
  | ingest next => rw [installed, installed, monitors_afterIngester]
  | workerPop idle done ready => exact hkeeps (keeps_workerPop done _)
  | workerMsg opened next unused handled => rw [installed, installed, monitors_afterWorker]
  | workerProcess opened done handled => rw [installed, installed, monitors_afterWorker]
  | monitorPop done ready => exact hkeeps (keeps_monitorPop done _ _)
  | @monitorMsg m msg rest p step next unused handled =>
    simp only [installed, afterMonitor, setMonitor, send, Function.update_apply]
    split
    · rename_i hm
      subst hm
      exact monitorHandle_request_eq (hinv.monitors _) unused handled (hother _ msg rfl)
    · rfl
  | dbChange => exact hkeeps (keeps_notified cfg s)
  | commit txn => exact hkeeps (keeps_commit _)

theorem Run.request_eq {acts : List Action} (hrun : Run cfg s acts s') (hinv : Inv cfg s) {c : Nat}
    {i : SubId} (hother : Undisturbed c i acts) :
    (s'.installed cfg c i).map Subscription.request =
      (s.installed cfg c i).map Subscription.request := by
  induction hrun with
  | refl => rfl
  | tail hrun hstep ih =>
    have hprev := ih fun m msg hmem => hother m msg (List.mem_append_left _ hmem)
    rw [← hprev]
    apply hstep.request_eq (hrun.inv hinv)
    rintro m msg rfl
    exact hother m msg (List.mem_append_right _ (List.mem_singleton_self _))

/-! ## A number that has gone -/

theorem Step.mem_path_of_eose {act : Action} (hstep : Step cfg s act s') (hinv : Inv cfg s)
    {k c : Nat} {i : SubId} (hmem : .eose k c i ∈ s'.log) (hold : .eose k c i ∉ s.log) :
    k ∈ s'.path cfg c i := by
  cases hstep with
  | receive opened => exact absurd hmem hold
  | ingest next =>
    rw [log_afterIngester, List.mem_append, or_iff_right hold] at hmem
    have hfor := ingesterForward_isFor hmem c i
    simp [Output.isFor] at hfor
  | workerPop idle done ready => exact absurd hmem hold
  | workerMsg opened next unused handled =>
    rw [log_afterWorker, List.mem_append, or_iff_right hold] at hmem
    have ha := workerHandle_announces (hinv.queries _) unused handled
    exact List.mem_append_left _ (mem_path_of_announces ha hmem)
  | workerProcess opened done handled =>
    rw [log_afterWorker, List.mem_append, or_iff_right hold] at hmem
    have ha := workerProcess_announces (hinv.queries _) handled
    exact List.mem_append_left _ (mem_path_of_announces ha hmem)
  | monitorPop done ready => exact absurd hmem hold
  | monitorMsg next unused handled =>
    rcases List.mem_append.1 hmem with hmem | hmem
    · exact absurd hmem hold
    · exact absurd hmem (monitorHandle_eose (hinv.monitors _) handled k c i)
  | dbChange => exact absurd hmem hold
  | commit txn => exact absurd hmem hold

/-- The number is not on the path and has not had its EOSE. -/
structure Unanswered (cfg : RelayConfig) (k c : Nat) (i : SubId) (s : Relay) : Prop where
  path : k ∉ s.path cfg c i
  log : .eose k c i ∉ s.log
  lt_length : k < s.submitted.length

theorem Unanswered.step {k c : Nat} {i : SubId} {act : Action} (h : Unanswered cfg k c i s)
    (hinv : Inv cfg s) (hstep : Step cfg s act s') : Unanswered cfg k c i s' := by
  obtain ⟨more, hmore⟩ := hstep.submitted_eq
  have hpath : k ∉ s'.path cfg c i := by
    intro hk
    rcases List.mem_append.1 ((hstep.path_sublist hinv c i).subset hk) with hk | hk
    · exact h.path hk
    · have hlt := h.lt_length
      split at hk
      · split at hk
        · have := List.mem_singleton.1 hk
          omega
        · cases hk
      · cases hk
  refine ⟨hpath, fun hmem => hpath ?_, ?_⟩
  · -- an EOSE puts the number into the path of the monitor
    exact hstep.mem_path_of_eose hinv hmem h.log
  · rw [hmore, List.length_append]
    have := h.lt_length
    omega

theorem Unanswered.run {k c : Nat} {i : SubId} {acts : List Action} (h : Unanswered cfg k c i s)
    (hinv : Inv cfg s) (hrun : Run cfg s acts s') : Unanswered cfg k c i s' := by
  induction hrun with
  | refl => exact h
  | tail hrun hstep ih => exact ih.step (hrun.inv hinv) hstep

/-- A worker thread has messages of its own connections only. -/
theorem Inv.worker_of_mem (h : Inv cfg s) {w k c : Nat} {i : SubId} {msg : MsgReqWorker}
    (hmem : msg ∈ (s.workers w).newMsgs ++ (s.workers w).inbox) (hk : msg.serialFor c i = some k) :
    c % cfg.numReqWorker = w := by
  by_contra hw
  have hin : k ∈ (s.workers w).path c i :=
    List.mem_append_right _ (List.mem_filterMap.2 ⟨msg, hmem, hk⟩)
  rw [(h.workerOwns w c hw).2 i] at hin
  cases hin

/-- The number of a REQ that the worker refuses is gone. -/
theorem Reachable.unanswered {w k : Nat} {sub : Subscription} (hreach : Reachable cfg s)
    (hstep : Step cfg s (.workerMsg w (.newSub k sub)) s')
    (hfull : (s.workers w).queries.Full cfg.maxSubsPerConnection sub.connId sub.subId) :
    Unanswered cfg k sub.connId sub.subId s' := by
  have hinv := hreach.inv
  have hmem : .newSub k sub ∈ (s.workers w).newMsgs ++ (s.workers w).inbox := by
    cases hstep with
    | workerMsg opened next unused handled =>
      rw [next]
      exact List.mem_append_left _ List.mem_cons_self
  obtain rfl := hinv.worker_of_mem hmem (if_pos ⟨rfl, rfl⟩)
  have hpath : k ∉ s'.path cfg sub.connId sub.subId := by
    cases hstep with
    | @workerMsg _ txn _ rest q n step opened next unused handled =>
      have hm := hinv.moves_workerMsg next unused handled
      obtain ⟨hdisp, hlive⟩ := workerHandle_dropped (hinv.queries _) unused handled hfull
      have hinc := hinv.increasing sub.connId sub.subId
      simp only [path, ReqWorker.path, next, List.cons_append, List.filterMap_cons,
        MsgReqWorker.serialFor, and_self, if_true, List.append_assoc] at hinc
      -- the number stands between the ones before it and the ones after it
      rw [← List.append_assoc, List.pairwise_append, List.pairwise_cons] at hinc
      obtain ⟨-, ⟨hafter, -⟩, hbefore⟩ := hinc
      simp only [path, workers_afterWorker, monitors_afterWorker, ingesters_afterWorker,
        hm.path_push, if_true, hdisp, Function.update_self, ReqWorker.path, hlive, List.nil_append,
        List.append_nil]
      intro hk
      rcases List.mem_append.1 hk with hk | hk
      · exact lt_irrefl k (hbefore k (List.mem_append_left _ hk) k List.mem_cons_self)
      · exact lt_irrefl k (hafter k hk)
  have hup : k ∈ s.upstream cfg sub.connId sub.subId :=
    List.mem_append_left _ (List.mem_append_right _ (List.mem_filterMap.2 ⟨_, hmem, if_pos ⟨rfl, rfl⟩⟩))
  refine ⟨hpath, fun heose => ?_, ?_⟩
  · by_cases hold : .eose k sub.connId sub.subId ∈ s.log
    · exact lt_irrefl k ((hreach.announced.passed k _ _ hold).2 k hup)
    · exact hpath (hstep.mem_path_of_eose hinv heose hold)
  · obtain ⟨more, hmore⟩ := hstep.submitted_eq
    have hlt := hinv.lt_length (List.mem_append_right _ hup)
    rw [hmore, List.length_append]
    omega

/-! ## The result -/

/-- The ids under which the connection has other subscriptions installed. -/
def otherSubs (cfg : RelayConfig) (s : Relay) (c : Nat) (i : SubId) : Set SubId :=
  {j | j ≠ i ∧ (s.installed cfg c j).isSome}

/-- The ids under which the connection has other queries running. -/
def otherQueries (cfg : RelayConfig) (s : Relay) (c : Nat) (i : SubId) : Set SubId :=
  {j | j ≠ i ∧ ((s.workers (c % cfg.numReqWorker)).queries.live c j).isSome}

/-- A NewSub comes to the monitor after its EOSE. It is installed, and stays so until the monitor
handles a message that concerns it, if the connection has room among the installed subscriptions;
else it is refused with a notice. A REQ without room among the running queries is refused with a
notice and never gets an EOSE. -/
theorem installed_or_refused (hreach : Reachable cfg s) :
    (∀ m k sub s₁, Step cfg s (.monitorMsg m (.newSub k sub)) s₁ →
      .eose k sub.connId sub.subId ∈ s.log ∧
      ((s.otherSubs cfg sub.connId sub.subId).ncard < cfg.maxSubsPerConnection →
        ∀ acts s₂, Run cfg s₁ acts s₂ → Undisturbed sub.connId sub.subId acts →
          (s₂.installed cfg sub.connId sub.subId).map Subscription.request = some sub.request) ∧
      (cfg.maxSubsPerConnection ≤ (s.otherSubs cfg sub.connId sub.subId).ncard →
        s₁.installed cfg sub.connId sub.subId = none ∧ ∃ sent, s₁.log = s.log ++ sent ∧
          .noticeError sub.connId "too many concurrent REQs" ∈ sent)) ∧
    ∀ w k sub s₁, Step cfg s (.workerMsg w (.newSub k sub)) s₁ →
      cfg.maxSubsPerConnection ≤ (s.otherQueries cfg sub.connId sub.subId).ncard →
        (∃ sent, s₁.log = s.log ++ sent ∧
          .noticeError sub.connId "too many concurrent REQs" ∈ sent) ∧
        ∀ acts s₂, Run cfg s₁ acts s₂ → .eose k sub.connId sub.subId ∉ s₂.log := by
  have hinv := hreach.inv
  refine ⟨fun m k sub s₁ hstep => ?_, fun w k sub s₁ hstep hmax => ?_⟩
  · have hinv₁ := hstep.inv hinv
    refine ⟨hreach.eose_of_newSub hstep, ?_⟩
    cases hstep with
    | @monitorMsg _ _ rest p step next unused handled =>
      obtain rfl := hinv.owner_of_next next (if_pos ⟨rfl, rfl⟩)
      obtain ⟨accepted, hok, -, hsent⟩ := monitorHandle_newSub handled
      have hacc := ActiveMonitors.addSub_accepted_iff (hinv.monitors _) hok
      have hinst := ActiveMonitors.installed_addSub (hinv.monitors _) unused hok sub.connId sub.subId
      rw [if_pos ⟨rfl, rfl⟩] at hinst
      refine ⟨fun hroom acts s₂ hrun hother => ?_, fun hfull => ⟨?_, _, rfl, ?_⟩⟩
      · rw [hrun.request_eq hinv₁ hother, installed_afterMonitor, hinst, if_pos (hacc.2 hroom)]
        rfl
      · rw [installed_afterMonitor, hinst, if_neg fun hb => not_lt.2 hfull (hacc.1 hb)]
      · rw [hsent, if_neg fun hb => not_lt.2 hfull (hacc.1 hb)]
        exact List.mem_append_right _ (List.mem_singleton_self _)
  · have hfull : (s.workers w).queries.Full cfg.maxSubsPerConnection sub.connId sub.subId := by
      rw [QueryScheduler.full_iff (hinv.queries w)]
      cases hstep with
      | workerMsg opened next unused handled =>
        have hmem : .newSub k sub ∈ (s.workers w).newMsgs ++ (s.workers w).inbox := by
          rw [next]
          exact List.mem_append_left _ List.mem_cons_self
        obtain rfl := hinv.worker_of_mem hmem (if_pos ⟨rfl, rfl⟩)
        exact hmax
    refine ⟨?_, fun acts s₂ hrun => ?_⟩
    · cases hstep with
      | workerMsg opened next unused handled =>
        exact ⟨_, log_afterWorker, workerHandle_refused handled hfull⟩
    · exact ((hreach.unanswered hstep hfull).run (hstep.inv hinv) hrun).log

/-! ## Runs -/

/-- A REQ for the subscription id `b`. -/
def reqB : Bytes × Json :=
  (ascii "[\"REQ\",\"b\",\x7b\x7d]",
    .array [.string (ascii "REQ"), .string (ascii "b"), .object []])

/-- The subscription id `b`. -/
def idB : SubId := ⟨[98], by decide, by decide, by decide⟩

/-- A relay that allows a connection one subscription. -/
def oneSub : RelayConfig := small [reqA "\x7b\x7d" (.object []), reqB] 1

/-- The query of `a` is complete, and its NewSub is the next message of the monitor. -/
def reqToMonitor : List Move :=
  toWorker (fromClient (reqA "\x7b\x7d" (.object []))) 0 2 ++ [.monitorPop 0]

/-- The same for `b`, after `a` has been installed. -/
def secondToMonitor : List Move :=
  reqToMonitor ++ [.monitorMsg 0 0] ++ toWorker (fromClient reqB) 0 2 ++ [.monitorPop 0]

/-- The query of `a` is running, and the NewSub of `b` is the next message of the worker. -/
def secondToWorker : List Move :=
  toWorker (fromClient (reqA "\x7b\x7d" (.object []))) 0 0 ++
    [.receive (fromClient reqB), .ingest 0, .workerPop 0]

/-- The step handles a NewSub at a monitor. -/
def Action.monitorSub? : Action → Option (Nat × Nat × Nat × SubId)
  | .monitorMsg m (.newSub k sub) => some (m, k, sub.connId, sub.subId)
  | _ => none

/-- The step handles a NewSub at a worker. -/
def Action.workerSub? : Action → Option (Nat × Nat × Nat × SubId)
  | .workerMsg w (.newSub k sub) => some (w, k, sub.connId, sub.subId)
  | _ => none

theorem Action.exists_of_monitorSub? {act : Action} {m k c : Nat} {i : SubId}
    (h : act.monitorSub? = some (m, k, c, i)) :
    ∃ sub : Subscription, act = .monitorMsg m (.newSub k sub) ∧ sub.connId = c ∧ sub.subId = i := by
  unfold monitorSub? at h
  split at h
  · rename_i sub
    cases h
    exact ⟨sub, rfl, rfl, rfl⟩
  · cases h

theorem Action.exists_of_workerSub? {act : Action} {w k c : Nat} {i : SubId}
    (h : act.workerSub? = some (w, k, c, i)) :
    ∃ sub : Subscription, act = .workerMsg w (.newSub k sub) ∧ sub.connId = c ∧ sub.subId = i := by
  unfold workerSub? at h
  split at h
  · rename_i sub
    cases h
    exact ⟨sub, rfl, rfl, rfl⟩
  · cases h

/-- The first subscription is installed and stays. A second REQ is refused by the worker while the
query of the first is running. -/
theorem installed_or_refused_of_two :
    (∃ s s₁ sub, Reachable oneSub s ∧ Step oneSub s (.monitorMsg 0 (.newSub 0 sub)) s₁ ∧
      .eose 0 1 idA ∈ s.log ∧
      ∀ acts s₂, Run oneSub s₁ acts s₂ → Undisturbed 1 idA acts →
        (s₂.installed oneSub 1 idA).map Subscription.request = some sub.request) ∧
    ∃ s s₁ sub, Reachable oneSub s ∧ Step oneSub s (.workerMsg 0 (.newSub 1 sub)) s₁ ∧
      sub.subId = idB ∧ ∀ acts s₂, Run oneSub s₁ acts s₂ → .eose 1 1 idB ∉ s₂.log := by
  have hfirst : ((execAll oneSub reqToMonitor { db := Db.init }).bind fun r =>
      (exec oneSub r.2 (.monitorMsg 0 1)).map fun r' =>
        (((r.2.monitors 0).monitors.conns.lookup 1).isNone, r'.1.monitorSub?)) =
      some (true, some (0, 0, 1, idA)) := by decide +kernel
  have hsecond : ((execAll oneSub secondToWorker { db := Db.init }).bind fun r =>
      (exec oneSub r.2 (.workerMsg 0 1 2)).map fun r' =>
        (decide (1 ≤ Map.size ((((r.2.workers 0).queries.removeSub 1 idB).conns.lookup 1).getD ∅)),
          r'.1.workerSub?)) = some (true, some (0, 1, 1, idB)) := by decide +kernel
  constructor
  · obtain ⟨⟨acts, s⟩, hrun, hnext⟩ := Option.bind_eq_some_iff.1 hfirst
    obtain ⟨⟨act, s₁⟩, hexec, heq⟩ := Option.map_eq_some_iff.1 hnext
    simp only [Prod.mk.injEq, Option.isNone_iff_eq_none] at heq
    obtain ⟨sub, rfl, hc, hi⟩ := Action.exists_of_monitorSub? heq.2
    have hreach := execAll_reachable (by simp [reqToMonitor, toWorker, Move.Valid]) hrun
    have hstep := exec_step (show Move.Valid _ (.monitorMsg 0 1) from trivial) hexec
    obtain ⟨heose, hroom, -⟩ := (installed_or_refused hreach).1 0 0 sub s₁ hstep
    have hempty : s.otherSubs oneSub sub.connId sub.subId = ∅ := by
      rw [hc, Set.eq_empty_iff_forall_notMem]
      rintro j ⟨-, hj⟩
      have hnone : s.installed oneSub 1 j = none := installed_eq_none_of_noEntry heq.1 j
      rw [hnone] at hj
      cases hj
    rw [hempty, Set.ncard_empty, hc, hi] at hroom
    rw [hc, hi] at heose
    exact ⟨s, s₁, sub, hreach, hstep, heose, hroom Nat.one_pos⟩
  · obtain ⟨⟨acts, s⟩, hrun, hnext⟩ := Option.bind_eq_some_iff.1 hsecond
    obtain ⟨⟨act, s₁⟩, hexec, heq⟩ := Option.map_eq_some_iff.1 hnext
    simp only [Prod.mk.injEq, decide_eq_true_eq] at heq
    obtain ⟨sub, rfl, hc, hi⟩ := Action.exists_of_workerSub? heq.2
    have hreach := execAll_reachable (by simp [secondToWorker, toWorker, Move.Valid]) hrun
    have hstep := exec_step (show Move.Valid _ (.workerMsg 0 1 2) from trivial) hexec
    have hfull : (s.workers 0).queries.Full 1 1 idB := heq.1
    rw [QueryScheduler.full_iff (hreach.inv.queries 0)] at hfull
    have hnever := (installed_or_refused hreach).2 0 1 sub s₁ hstep
    rw [hc, hi] at hnever
    exact ⟨s, s₁, sub, hreach, hstep, hi, (hnever hfull).2⟩

/-- The second REQ gets its EOSE and is not installed. -/
theorem eose_without_subscription :
    ∃ s s₁ sub, Reachable oneSub s ∧ Step oneSub s (.monitorMsg 0 (.newSub 1 sub)) s₁ ∧
      sub.connId = 1 ∧ sub.subId = idB ∧ .eose 1 1 idB ∈ s.log ∧
      s₁.installed oneSub 1 idB = none := by
  have heval : ((execAll oneSub secondToMonitor { db := Db.init }).bind fun r =>
      (exec oneSub r.2 (.monitorMsg 0 1)).map fun r' =>
        ((r'.2.installed oneSub 1 idB).isNone, r'.1.monitorSub?)) =
      some (true, some (0, 1, 1, idB)) := by decide +kernel
  obtain ⟨⟨acts, s⟩, hrun, hnext⟩ := Option.bind_eq_some_iff.1 heval
  obtain ⟨⟨act, s₁⟩, hexec, heq⟩ := Option.map_eq_some_iff.1 hnext
  simp only [Prod.mk.injEq, Option.isNone_iff_eq_none] at heq
  obtain ⟨sub, rfl, hc, hi⟩ := Action.exists_of_monitorSub? heq.2
  have hreach := execAll_reachable
    (by simp [secondToMonitor, reqToMonitor, toWorker, Move.Valid]) hrun
  have hstep := exec_step (show Move.Valid _ (.monitorMsg 0 1) from trivial) hexec
  have heose := hreach.eose_of_newSub hstep
  rw [hc, hi] at heose
  exact ⟨s, s₁, sub, hreach, hstep, hc, hi, heose, heq.1⟩

end Relay

end Strfry
