import Strfry.ReqSteps
import Strfry.ReqInstalled

/-!
# Live delivery when levIds come back

A new event gets the levId after the largest one in the database, so an event that is written after
the newest ones have been deleted gets a levId that another event has had. A monitor thread lowers its
`currEventId` when it sees that the newest levId has gone down, but it sees the database only when it
wakes up, and it lowers neither the `latestEventId` of the subscriptions nor those of their items.

`Outruns` says that the thread remembers no levId that would hide the event. It is a condition on the
state before the event is written, and it is enough: the event is sent when the thread handles a
DBChange after its next wake-up.
-/

set_option autoImplicit false

namespace Strfry

open Lib LookupTables

/-! ## An awaited event stays awaited -/

namespace ActiveMonitors

variable {s s' : ActiveMonitors} {p : MonitorPtr} {levId : Nat} {ev : PackedEvent}

/-- The subscription is kept, and its items are not changed. -/
theorem Awaits.of_kept (h : s.Awaits p levId ev) (hinv : s.Inv) (hinv' : s'.Inv)
    (hsub : ∀ sub, s.monitors.lookup p = some sub → s'.monitors.lookup p = some sub)
    (hitem : ∀ e item, e.1.mon = p → s'.tables.item? e = some item → s.tables.item? e = some item) :
    s'.Awaits p levId ev := by
  obtain ⟨e, item, sub, filter, rfl, hkey, hold, hlook, hfilter, hmatch, hlt, hlt'⟩ := h
  -- the entry is that of a subscription that is still there
  obtain ⟨sub', hlook', hentry⟩ := (hinv.entered e).1 (Option.isSome_iff_exists.2 ⟨item, hold⟩)
  obtain ⟨item', hitem'⟩ := Option.isSome_iff_exists.1
    ((hinv'.entered e).2 ⟨sub', hsub sub' hlook', hentry⟩)
  have heq := hitem e item' rfl hitem'
  rw [hold] at heq
  cases heq
  exact ⟨e, item, sub, filter, rfl, hkey, hitem', hsub sub hlook, hfilter, hmatch, hlt, hlt'⟩

theorem Awaits.restricts {keep : Nat → SubId → Prop} (h : s.Awaits p levId ev) (hinv : s.Inv)
    (hr : Restricts keep s s')
    (hkeep : ∀ sub, s.monitors.lookup p = some sub → keep sub.connId sub.subId) :
    s'.Awaits p levId ev := by
  apply h.of_kept hinv (hr.inv hinv)
  · intro sub hsub
    exact (hr.monitor p sub).2 ⟨hsub, hkeep sub hsub⟩
  · intro e item _ hitem
    exact ((hr.item e item).1 hitem).1

end ActiveMonitors

section Handle

variable {cfg : RelayConfig} {txn : Store} {q : MonitorPtr} {monitors : ActiveMonitors}
  {currEventId : WithTop Nat} {step : MonitorStep} {p : MonitorPtr} {c levId : Nat} {i : SubId}
  {ev : PackedEvent}

/-- The monitor at `p` is that of the subscription id, and it awaits the event. -/
def ActiveMonitors.AwaitsFor (s : ActiveMonitors) (c : Nat) (i : SubId) (levId : Nat)
    (ev : PackedEvent) : Prop :=
  ∃ p, s.conns.find₂ c i = some p ∧ s.Awaits p levId ev

/-- A message that concerns another subscription. -/
theorem monitorHandle_awaitsFor {msg : MsgReqMonitor} (hinv : monitors.Inv)
    (hq : monitors.monitors.lookup q = none)
    (h : monitorHandle cfg txn q monitors currEventId msg = some step)
    (hother : msg.serialFor c i = none) (hne : msg ≠ .dbChange)
    (hawaits : monitors.AwaitsFor c i levId ev) : step.monitors.AwaitsFor c i levId ev := by
  obtain ⟨p, hptr, ha⟩ := hawaits
  obtain ⟨sub₀, hsub₀, hc, hi⟩ := (hinv.owner c i p).1 hptr
  have hinv' := monitorHandle_inv hinv hq h
  have hkept : ∀ sub', step.monitors.monitors.lookup p = some sub' → sub' = sub₀ →
      step.monitors.conns.find₂ c i = some p := by
    rintro sub' hsub' rfl
    exact (hinv'.owner c i p).2 ⟨sub', hsub', hc, hi⟩
  cases msg with
  | newSub serial sub =>
    obtain ⟨accepted, hok, -⟩ := monitorHandle_newSub h
    obtain ⟨b, s', hok', -, hmon, hitem⟩ := ActiveMonitors.addSub_spec hinv cfg.maxSubsPerConnection
      hq { sub with latestEventId := txn.getMostRecentLevId } rfl
    rw [hok] at hok'
    cases hok'
    have hkey : ¬ (sub₀.connId = sub.connId ∧ sub₀.subId = sub.subId) := by
      rintro ⟨hc', hi'⟩
      rw [MsgReqMonitor.serialFor, if_pos ⟨hc'.symm.trans hc, hi'.symm.trans hi⟩] at hother
      cases hother
    have hsub : ∀ sub', monitors.monitors.lookup p = some sub' →
        step.monitors.monitors.lookup p = some sub' := by
      intro sub' hsub'
      rw [hsub₀] at hsub'
      cases hsub'
      exact (hmon p sub₀).2 (Or.inr ⟨hsub₀, hkey⟩)
    refine ⟨p, hkept sub₀ (hsub sub₀ hsub₀) rfl, ha.of_kept hinv hinv' hsub fun e item hp he => ?_⟩
    rcases hitem e item he with ⟨-, hm, -⟩ | hold
    · rw [← hp, hm, hq] at hsub₀
      cases hsub₀
    · exact hold
  | removeSub serial connId subId =>
    have hr := (monitorHandle_removeSub hinv h).2.1
    have hkey : ¬ (sub₀.connId = connId ∧ sub₀.subId = subId) := by
      rintro ⟨rfl, rfl⟩
      rw [MsgReqMonitor.serialFor, if_pos ⟨hc, hi⟩] at hother
      cases hother
    refine ⟨p, hkept sub₀ ((hr.monitor p sub₀).2 ⟨hsub₀, hkey⟩) rfl, ha.restricts hinv hr ?_⟩
    intro sub' hsub'
    rw [hsub₀] at hsub'
    cases hsub'
    exact hkey
  | closeConn serial connId =>
    have hr := (monitorHandle_closeConn hinv h).2.1
    have hkey : sub₀.connId ≠ connId := by
      rintro rfl
      rw [MsgReqMonitor.serialFor, if_pos hc] at hother
      cases hother
    refine ⟨p, hkept sub₀ ((hr.monitor p sub₀).2 ⟨hsub₀, hkey⟩) rfl, ha.restricts hinv hr ?_⟩
    intro sub' hsub'
    rw [hsub₀] at hsub'
    cases hsub'
    exact hkey
  | dbChange => exact absurd rfl hne

/-- Only a DBChange moves `currEventId`. -/
theorem monitorHandle_currEventId {msg : MsgReqMonitor} (hinv : monitors.Inv)
    (h : monitorHandle cfg txn q monitors currEventId msg = some step) (hne : msg ≠ .dbChange) :
    step.currEventId = currEventId := by
  cases msg with
  | newSub serial sub =>
    obtain ⟨accepted, -, hcur, -⟩ := monitorHandle_newSub h
    exact hcur
  | removeSub serial connId subId => exact (monitorHandle_removeSub hinv h).2.2.1
  | closeConn serial connId => exact (monitorHandle_closeConn hinv h).2.2.1
  | dbChange => exact absurd rfl hne

/-- A DBChange that sees earlier events only. -/
theorem monitorHandle_dbChange_awaitsFor (hinv : monitors.Inv)
    (h : monitorHandle cfg txn q monitors currEventId .dbChange = some step)
    (hlt : txn.getMostRecentLevId < levId) (hawaits : monitors.AwaitsFor c i levId ev) :
    step.monitors.AwaitsFor c i levId ev := by
  obtain ⟨p, hptr, ha⟩ := hawaits
  obtain ⟨hproc, hs, -⟩ := monitorHandle_dbChange hinv h
  refine ⟨p, by rw [hs.conns]; exact hptr, ha.processEvents hinv hproc fun r hr => ?_⟩
  exact (Table.le_lastKey (Table.mem_rowsFrom.1 hr).1).trans_lt hlt

theorem pairwise_rowsFrom (t : Table PackedEvent) (k : Nat) :
    (t.rowsFrom k).Pairwise fun a b => a.1 < b.1 := t.sorted.filter _

theorem startAfter_le {currEventId : WithTop Nat} (h : currEventId < (levId : WithTop Nat)) :
    startAfter currEventId ≤ levId := by
  cases currEventId with
  | top => exact absurd h (not_lt.2 le_top)
  | coe n => exact Nat.succ_le_of_lt (WithTop.coe_lt_coe.1 h)

/-- A DBChange that sees the event sends it. -/
theorem monitorHandle_dbChange_sent (hinv : monitors.Inv)
    (h : monitorHandle cfg txn q monitors currEventId .dbChange = some step)
    (hlt : currEventId < (levId : WithTop Nat)) (hrow : txn.event.get? levId = some ev)
    (hawaits : monitors.AwaitsFor c i levId ev) : liveEvent c i (levId, ev) ∈ step.sent := by
  obtain ⟨p, hptr, ha⟩ := hawaits
  obtain ⟨sub, hsub, rfl, rfl⟩ := (hinv.owner c i p).1 hptr
  apply processEvents_complete hinv hsub ha (pairwise_rowsFrom _ _) ?_ (monitorHandle_dbChange hinv h).1
  exact Table.mem_rowsFrom.2 ⟨Table.get?_eq_some_iff.1 hrow, startAfter_le hlt⟩

end Handle

namespace Relay

variable {cfg : RelayConfig} {s s' : Relay} {c : Nat} {i : SubId} {r : Nat × PackedEvent}

/-! ## An event on its way to a subscription -/

/-- The event is in the database. -/
def Stored (r : Nat × PackedEvent) (s : Relay) : Prop := s.db.event.get? r.1 = some r.2

/-- The monitor thread of the connection remembers no levId that hides the event: not as its
`currEventId`, not in a transaction that it has a DBChange to handle with, and not in the subscription
and the items of it under which the event is looked up. -/
structure Outruns (cfg : RelayConfig) (s : Relay) (c : Nat) (i : SubId) (r : Nat × PackedEvent) :
    Prop where
  currEventId : (s.monitors (c % cfg.numReqMonitor)).currEventId < (r.1 : WithTop Nat)
  txn : .dbChange ∈ (s.monitors (c % cfg.numReqMonitor)).newMsgs →
    (s.monitors (c % cfg.numReqMonitor)).txn.getMostRecentLevId < r.1
  older : ∀ p sub, (s.monitors (c % cfg.numReqMonitor)).monitors.conns.find₂ c i = some p →
    (s.monitors (c % cfg.numReqMonitor)).monitors.monitors.lookup p = some sub →
    sub.filterGroup.doesMatch r.2 = true →
    (s.monitors (c % cfg.numReqMonitor)).monitors.Awaits p r.1 r.2

/-- The monitor thread `m` will send the event when it handles a DBChange with it. -/
structure Due (s : Relay) (m c : Nat) (i : SubId) (r : Nat × PackedEvent) : Prop where
  currEventId : (s.monitors m).currEventId < (r.1 : WithTop Nat)
  txn : .dbChange ∈ (s.monitors m).newMsgs → (s.monitors m).txn.getMostRecentLevId < r.1 ∨
    (s.monitors m).txn.event.get? r.1 = some r.2
  awaits : (s.monitors m).monitors.AwaitsFor c i r.1 r.2

theorem RunWith.stored {acts : List Action} (hrun : RunWith cfg (fun _ t => Stored r t) s acts s')
    (h : Stored r s) : Stored r s' := by
  cases hrun with
  | refl => exact h
  | tail _ _ hok => exact hok

/-- The transaction of a thread that has woken up since the event was stored has the event. -/
theorem RunWith.txn {m : Nat} {acts : List Action}
    (hrun : RunWith cfg (fun _ t => Stored r t) s acts s') (h : Stored r s)
    (hwake : .monitorPop m ∈ acts) : (s'.monitors m).txn.event.get? r.1 = some r.2 := by
  induction hrun with
  | refl => cases hwake
  | @tail s₁ s₂ acts act hrun hstep hok ih =>
    rcases hstep.monitor_cases m with ⟨more, hpop, -, heq⟩ | ⟨-, -, rfl⟩ |
      ⟨msg, rest, p, step, rfl, next, unused, handled, rfl⟩
    · rw [heq]
      rcases List.mem_append.1 hwake with hwake | hwake
      · exact ih hwake
      · exact absurd (List.mem_singleton.1 hwake).symm hpop
    · simp only [setMonitor, Function.update_self]
      exact hrun.stored h
    · simp only [afterMonitor, setMonitor, send, Function.update_self]
      rcases List.mem_append.1 hwake with hwake | hwake
      · exact ih hwake
      · cases List.mem_singleton.1 hwake

/-- An event stays due until it is sent. -/
theorem Due.step {m : Nat} {act : Action} (h : Due s m c i r) (hinv : Inv cfg s)
    (hstored : Stored r s) (hstep : Step cfg s act s')
    (hother : ∀ msg, act = .monitorMsg m msg → msg.serialFor c i = none) :
    (∃ sent, s'.log = s.log ++ sent ∧ liveEvent c i r ∈ sent) ∨ Due s' m c i r := by
  rcases hstep.monitor_cases m with ⟨more, -, -, heq⟩ | ⟨-, -, rfl⟩ |
    ⟨msg, rest, p, step, rfl, next, unused, handled, rfl⟩
  · right
    refine ⟨?_, ?_, ?_⟩ <;> rw [heq]
    · exact h.currEventId
    · exact h.txn
    · exact h.awaits
  · -- the thread wakes up and sees the event
    right
    refine ⟨?_, ?_, ?_⟩ <;> simp only [setMonitor, Function.update_self]
    · exact (min_le_left _ _).trans_lt h.currEventId
    · exact fun _ => Or.inr hstored
    · exact h.awaits
  · have hmsgs : ∀ msg', msg' ∈ rest → msg' ∈ (s.monitors m).newMsgs := by
      intro msg' hmem
      rw [next]
      exact List.mem_cons_of_mem _ hmem
    by_cases hdb : msg = .dbChange
    · subst hdb
      rcases h.txn (by rw [next]; exact List.mem_cons_self) with hlt | hrow
      · -- an old transaction
        right
        refine ⟨?_, ?_, ?_⟩ <;> simp only [afterMonitor, setMonitor, send, Function.update_self]
        · rw [(monitorHandle_dbChange (hinv.monitors m) handled).2.2]
          exact WithTop.coe_lt_coe.2 hlt
        · exact fun _ => Or.inl hlt
        · exact monitorHandle_dbChange_awaitsFor (hinv.monitors m) handled hlt h.awaits
      · left
        exact ⟨_, rfl, monitorHandle_dbChange_sent (hinv.monitors m) handled h.currEventId hrow
          h.awaits⟩
    · right
      refine ⟨?_, ?_, ?_⟩ <;> simp only [afterMonitor, setMonitor, send, Function.update_self]
      · rw [monitorHandle_currEventId (hinv.monitors m) handled hdb]
        exact h.currEventId
      · exact fun hmem => h.txn (hmsgs _ hmem)
      · exact monitorHandle_awaitsFor (hinv.monitors m) unused handled (hother msg rfl) hdb h.awaits

/-- While the event is stored. -/
theorem Due.run {m : Nat} {acts : List Action} (h : Due s m c i r) (hinv : Inv cfg s)
    (hstored : Stored r s) (hrun : RunWith cfg (fun _ t => Stored r t) s acts s')
    (hother : ∀ msg, .monitorMsg m msg ∈ acts → msg.serialFor c i = none) :
    ∃ sent, s'.log = s.log ++ sent ∧ (liveEvent c i r ∈ sent ∨ Due s' m c i r) := by
  induction hrun with
  | refl => exact ⟨[], by simp, Or.inr h⟩
  | @tail s₁ s₂ acts act hrun hstep hok ih =>
    obtain ⟨sent, hlog, hor⟩ := ih fun msg hmem => hother msg (List.mem_append_left _ hmem)
    have hinv₁ := hrun.run.inv hinv
    obtain ⟨more, hmore⟩ := hstep.log_eq
    refine ⟨sent ++ more, by rw [hmore, hlog, List.append_assoc], ?_⟩
    rcases hor with hsent | hdue
    · exact Or.inl (List.mem_append_left _ hsent)
    · have hstored₁ : Stored r s₁ := hrun.stored hstored
      have hother₁ : ∀ msg, act = .monitorMsg m msg → msg.serialFor c i = none := by
        rintro msg rfl
        exact hother msg (List.mem_append_right _ (List.mem_singleton_self _))
      rcases hdue.step hinv₁ hstored₁ hstep hother₁ with ⟨sent', hlog', hmem⟩ | hdue'
      · rw [hlog'] at hmore
        rw [List.append_cancel_left hmore] at hmem
        exact Or.inl (List.mem_append_right _ hmem)
      · exact Or.inr hdue'

/-! ## The result -/

/-- An event that is written while the subscription is installed, and stays stored, is sent when the
monitor thread handles a DBChange after its next wake-up, if its levId outruns all that the thread
remembers. -/
theorem live_delivery {s₁ s₂ s₃ : Relay} {acts : List Action} {sub : Subscription}
    (hreach : Reachable cfg s) (hinst : s.installed cfg c i = some sub)
    (hmatch : sub.filterGroup.doesMatch r.2 = true) (hwrite : Step cfg s .commit s₁)
    (hstored : Stored r s₁) (hcond : Outruns cfg s c i r)
    (hrun : RunWith cfg (fun _ t => Stored r t) s₁ acts s₂) (hother : Undisturbed c i acts)
    (hwake : .monitorPop (c % cfg.numReqMonitor) ∈ acts)
    (hstep : Step cfg s₂ (.monitorMsg (c % cfg.numReqMonitor) .dbChange) s₃) :
    ∃ sent, s₃.log = s₁.log ++ sent ∧ liveEvent c i r ∈ sent := by
  have hinv := hreach.inv
  have hdue : Due s₁ (c % cfg.numReqMonitor) c i r := by
    obtain ⟨p, hsub, hc, hi⟩ := (ActiveMonitors.installed_eq_some_iff (hinv.monitors _)).1 hinst
    have hptr := ((hinv.monitors _).owner c i p).2 ⟨sub, hsub, hc, hi⟩
    cases hwrite with
    | commit txn =>
      exact ⟨hcond.currEventId, fun hmem => Or.inl (hcond.txn hmem), p, hptr,
        hcond.older p sub hptr hsub hmatch⟩
  have hinv₁ := hwrite.inv hinv
  obtain ⟨sent, hlog, hor⟩ := hdue.run hinv₁ hstored hrun fun msg hmem => hother _ msg hmem
  obtain ⟨more, hmore⟩ := hstep.log_eq
  refine ⟨sent ++ more, by rw [hmore, hlog, List.append_assoc], ?_⟩
  rcases hor with hsent | hdue₂
  · exact List.mem_append_left _ hsent
  · apply List.mem_append_right
    have hrow := hrun.txn hstored hwake
    cases hstep with
    | monitorMsg next unused handled =>
      rw [← List.append_cancel_left hmore]
      exact monitorHandle_dbChange_sent ((hrun.run.inv hinv₁).monitors _) handled
        hdue₂.currEventId hrow hdue₂.awaits

/-! ## Runs -/

/-- A relay whose client asks for all events. -/
def reuseRelay : RelayConfig := small [reqA "\x7b\x7d" (.object [])] 20

/-- The subscription is installed. -/
def installA : List Move :=
  toWorker (fromClient (reqA "\x7b\x7d" (.object []))) 0 2 ++ [.monitorPop 0, .monitorMsg 0 0]

/-- A first event has been sent and is deleted. -/
def sentAndDeleted : List Move :=
  installA ++ [.write ([1].map noteOf), .dbChange, .monitorPop 0, .monitorMsg 0 1, .delete [1]]

theorem valid_installA : ∀ mv ∈ installA, mv.Valid reuseRelay := by
  simp [installA, toWorker, Move.Valid]

theorem valid_sentAndDeleted : ∀ mv ∈ sentAndDeleted, mv.Valid reuseRelay := by
  intro mv hmv
  rcases List.mem_append.1 hmv with hmv | hmv
  · exact valid_installA mv hmv
  · have hsub := submitted_noteOf [1]
    fin_cases hmv
    · exact hsub
    all_goals trivial

/-- The thread wakes up. -/
theorem runWith_wakeUp {acts : List Action} (hstored : Stored r s)
    (h : execAll cfg [.dbChange, .monitorPop 0] s = some (acts, s')) :
    acts = [.dbChange, .monitorPop 0] ∧ RunWith cfg (fun _ t => Stored r t) s acts s' := by
  obtain ⟨⟨acts₁, s₁⟩, hrest, heq⟩ := Option.map_eq_some_iff.1 h
  cases heq
  rw [execAll] at hrest
  split at hrest
  · cases hrest
  · rename_i act s₁ hexec
    obtain rfl := exec_name rfl hexec
    cases hrest
    have hpop := exec_step (show Move.Valid _ (.monitorPop 0) from trivial) hexec
    refine ⟨rfl, .tail (.tail .refl .dbChange hstored) hpop ?_⟩
    have hact : Action.monitorPop 0 ≠ .commit := by rintro ⟨⟩
    rw [Stored, hpop.db_eq hact]
    exact hstored

/-- Whether the subscription is installed and matches the event. -/
def matched (b : UInt8) (s : Relay) : Bool :=
  (s.installed reuseRelay 1 idA).any fun sub => sub.filterGroup.doesMatch (noteOf b).packed

/-- An event under the levId 1 is written, the thread wakes up, and handles the DBChange. -/
theorem delivery_steps {mvs : List Move} {b : UInt8} {f : Relay → Bool} {g : Relay → Bool}
    (hv : ∀ mv ∈ mvs, mv.Valid reuseRelay)
    (h : ((execAll reuseRelay mvs { db := Db.init }).bind fun r₀ =>
      (exec reuseRelay r₀.2 (.write ([b].map noteOf))).bind fun r₁ =>
        (execAll reuseRelay [.dbChange, .monitorPop 0] r₁.2).bind fun r₂ =>
          (exec reuseRelay r₂.2 (.monitorMsg 0 1)).map fun r₃ =>
            (matched b r₀.2, f r₀.2, decide (r₁.2.db.event.get? 1 = some (noteOf b).packed),
              r₃.1.dbChange?, g r₃.2)) = some (true, true, true, some 0, true)) :
    ∃ s s₁ s₂ s₃ acts sub, Reachable reuseRelay s ∧ s.installed reuseRelay 1 idA = some sub ∧
      sub.filterGroup.doesMatch (noteOf b).packed = true ∧ f s = true ∧
      Step reuseRelay s .commit s₁ ∧ Stored (1, (noteOf b).packed) s₁ ∧
      RunWith reuseRelay (fun _ t => Stored (1, (noteOf b).packed) t) s₁ acts s₂ ∧
      Undisturbed 1 idA acts ∧ .monitorPop 0 ∈ acts ∧
      Step reuseRelay s₂ (.monitorMsg 0 .dbChange) s₃ ∧ g s₃ = true := by
  obtain ⟨⟨acts₀, s⟩, hrun, h⟩ := Option.bind_eq_some_iff.1 h
  obtain ⟨⟨act₁, s₁⟩, hwrite, h⟩ := Option.bind_eq_some_iff.1 h
  obtain ⟨⟨acts, s₂⟩, hwake, h⟩ := Option.bind_eq_some_iff.1 h
  obtain ⟨⟨act₃, s₃⟩, hhandle, heq⟩ := Option.map_eq_some_iff.1 h
  simp only [Prod.mk.injEq, decide_eq_true_eq] at heq
  obtain ⟨hmatched, hf, hrow, hact, hg⟩ := heq
  obtain ⟨sub, hinst, hmatch⟩ := (Option.any_eq_true _ _).1 hmatched
  have hreach := execAll_reachable hv hrun
  have hvalid : Move.Valid reuseRelay (.write ([b].map noteOf)) := submitted_noteOf [b]
  have hstep := exec_step hvalid hwrite
  obtain rfl := exec_name rfl hwrite
  obtain ⟨rfl, hwith⟩ := runWith_wakeUp (r := (1, (noteOf b).packed)) hrow hwake
  have hstep₃ := exec_step (show Move.Valid _ (.monitorMsg 0 1) from trivial) hhandle
  rw [Action.eq_of_dbChange? hact] at hstep₃
  exact ⟨s, s₁, s₂, s₃, _, sub, hreach, hinst, hmatch, hf, hstep, hrow, hwith, by simp [Undisturbed],
    by simp, hstep₃, hg⟩

/-- The thread has nothing to do, and its only monitor has one filter, which is looked up under
`other`. -/
def outruns? (b : UInt8) (s : Relay) : Bool :=
  decide ((s.monitors 0).currEventId < ((1 : Nat) : WithTop Nat)) &&
    (s.monitors 0).newMsgs.isEmpty &&
    decide ((s.monitors 0).monitors.conns.find₂ 1 idA = some 0) &&
    ((s.monitors 0).monitors.tables.item? (⟨0, 0⟩, .other)).any fun item =>
      decide (item.latestEventId < 1) && ((s.monitors 0).monitors.monitors.lookup 0).any fun sub =>
        decide (sub.latestEventId < ((1 : Nat) : WithTop Nat)) &&
          (sub.filterGroup.filters[0]?).any fun filter => filter.doesMatch (noteOf b).packed

theorem outruns_of_outruns? {b : UInt8} (h : outruns? b s = true) :
    Outruns reuseRelay s 1 idA (1, (noteOf b).packed) := by
  simp only [outruns?, Bool.and_eq_true, decide_eq_true_eq, List.isEmpty_iff, Option.any_eq_true] at h
  obtain ⟨⟨⟨hcur, hmsgs⟩, hptr⟩, item, hitem, hlt, sub, hsub, hlt', filter, hfilter, hmatch⟩ := h
  refine ⟨hcur, fun hmem => ?_, fun p sub' hptr' _ _ => ?_⟩
  · have hnil : (s.monitors (1 % reuseRelay.numReqMonitor)).newMsgs = [] := hmsgs
    rw [hnil] at hmem
    cases hmem
  · obtain rfl : p = 0 := Option.some.inj (hptr'.symm.trans hptr)
    exact ⟨_, item, sub, filter, rfl, by simp [PackedEvent.lookupKeys], hitem, hsub, hfilter, hmatch,
      hlt, hlt'⟩

/-- The first event after the subscription is installed. -/
theorem live_delivery_of_first :
    ∃ s s₁ s₂ s₃ acts sub, Reachable reuseRelay s ∧ s.installed reuseRelay 1 idA = some sub ∧
      sub.filterGroup.doesMatch (noteOf 1).packed = true ∧ Step reuseRelay s .commit s₁ ∧
      Stored (1, (noteOf 1).packed) s₁ ∧ Outruns reuseRelay s 1 idA (1, (noteOf 1).packed) ∧
      RunWith reuseRelay (fun _ t => Stored (1, (noteOf 1).packed) t) s₁ acts s₂ ∧
      Undisturbed 1 idA acts ∧ .monitorPop 0 ∈ acts ∧
      Step reuseRelay s₂ (.monitorMsg 0 .dbChange) s₃ ∧
      ∃ sent, s₃.log = s₁.log ++ sent ∧ liveEvent 1 idA (1, (noteOf 1).packed) ∈ sent := by
  obtain ⟨s, s₁, s₂, s₃, acts, sub, hreach, hinst, hmatch, hf, hwrite, hstored, hrun, hother, hwake,
    hstep, -⟩ := delivery_steps (b := 1) (f := outruns? 1) (g := fun _ => true) valid_installA
      (by decide +kernel)
  have hcond := outruns_of_outruns? hf
  exact ⟨s, s₁, s₂, s₃, acts, sub, hreach, hinst, hmatch, hwrite, hstored, hcond, hrun, hother,
    hwake, hstep, live_delivery hreach hinst hmatch hwrite hstored hcond hrun hother hwake hstep⟩

/-- After the newest event has been deleted, the next one gets its levId and is not sent. -/
theorem reused_levId_not_delivered :
    ∃ s s₁ s₂ s₃ acts sub, Reachable reuseRelay s ∧ s.installed reuseRelay 1 idA = some sub ∧
      sub.filterGroup.doesMatch (noteOf 2).packed = true ∧ Step reuseRelay s .commit s₁ ∧
      ¬ Stored (1, (noteOf 2).packed) s ∧ Stored (1, (noteOf 2).packed) s₁ ∧
      RunWith reuseRelay (fun _ t => Stored (1, (noteOf 2).packed) t) s₁ acts s₂ ∧
      Undisturbed 1 idA acts ∧ .monitorPop 0 ∈ acts ∧
      Step reuseRelay s₂ (.monitorMsg 0 .dbChange) s₃ ∧
      liveEvent 1 idA (1, (noteOf 2).packed) ∉ s₃.log := by
  obtain ⟨s, s₁, s₂, s₃, acts, sub, hreach, hinst, hmatch, hf, hwrite, hstored, hrun, hother, hwake,
    hstep, hlog⟩ := delivery_steps (b := 2)
      (f := fun s => decide (s.db.event.get? 1 ≠ some (noteOf 2).packed))
      (g := fun s => decide (liveEvent 1 idA (1, (noteOf 2).packed) ∉ s.log)) valid_sentAndDeleted
      (by decide +kernel)
  rw [decide_eq_true_eq] at hf hlog
  exact ⟨s, s₁, s₂, s₃, acts, sub, hreach, hinst, hmatch, hwrite, hf, hstored, hrun, hother, hwake,
    hstep, hlog⟩

end Relay

end Strfry
