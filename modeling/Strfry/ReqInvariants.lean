import Strfry.ReqPaths

/-!
# Invariants of the pools

`Relay.Inv` collects what holds in every reachable state: the invariants of the queries and monitors
of each thread, that a connection leaves traces in its own threads only, and that the numbers along
each path increase. `Relay.Sourced` says that what is on the way, or running, was asked for by the
client message with its number.
-/

set_option autoImplicit false

namespace Strfry

open Lib

/-! ## Paths -/

/-- The numbers in a worker thread: the running query, and the messages. -/
def ReqWorker.path (th : ReqWorker) (c : Nat) (i : SubId) : List Nat :=
  serialOf (th.queries.live c i) ++ (th.newMsgs ++ th.inbox).filterMap (MsgReqWorker.serialFor c i)

/-- The numbers in a monitor thread. -/
def ReqMonitor.path (th : ReqMonitor) (c : Nat) (i : SubId) : List Nat :=
  (th.newMsgs ++ th.inbox).filterMap (MsgReqMonitor.serialFor c i)

/-- The number of a client message if it is from the connection. -/
def ingesterSerial (c : Nat) (e : Nat × MsgIngester) : Option Nat :=
  if e.2.connId = c then some e.1 else none

/-- The numbers in an ingester thread. -/
def ingesterPath (msgs : List (Nat × MsgIngester)) (c : Nat) : List Nat :=
  msgs.filterMap (ingesterSerial c)

/-- The numbers of the messages that concern a subscription id, from the monitor thread on. -/
def Relay.path (cfg : RelayConfig) (s : Relay) (c : Nat) (i : SubId) : List Nat :=
  (s.monitors (c % cfg.numReqMonitor)).path c i ++ ((s.workers (c % cfg.numReqWorker)).path c i ++
    ingesterPath (s.ingesters (c % cfg.numIngester)) c)

theorem ReqMonitor.path_push (th : ReqMonitor) (msgs : List MsgReqMonitor) (c : Nat) (i : SubId) :
    ReqMonitor.path { th with inbox := th.inbox ++ msgs } c i =
      th.path c i ++ msgs.filterMap (MsgReqMonitor.serialFor c i) := by
  simp [ReqMonitor.path, List.filterMap_append]

/-! ## Where messages come from -/

/-- The number of the client message. -/
def MsgReqWorker.serial : MsgReqWorker → Nat
  | .newSub serial _ => serial
  | .removeSub serial _ _ => serial
  | .closeConn serial _ => serial

/-- The message of the worker that a message of the monitor goes back to. -/
def MsgReqMonitor.origin : MsgReqMonitor → Option MsgReqWorker
  | .newSub serial sub => some (.newSub serial sub.request)
  | .removeSub serial connId subId => some (.removeSub serial connId subId)
  | .closeConn serial connId => some (.closeConn serial connId)
  | .dbChange => none

/-- The message is what the ingester makes of the client message with its number. -/
def Forwarded (cfg : RelayConfig) (submitted : List MsgIngester) (msg : MsgReqWorker) : Prop :=
  ∃ m, submitted[msg.serial]? = some m ∧ (ingesterForward cfg msg.serial m).2 = some msg

/-- The client message with the number is a REQ for the subscription id. -/
def IsReq (cfg : RelayConfig) (submitted : List MsgIngester) (serial c : Nat) (i : SubId) : Prop :=
  ∃ sub, Forwarded cfg submitted (.newSub serial sub) ∧ sub.connId = c ∧ sub.subId = i

theorem Forwarded.append {cfg : RelayConfig} {submitted : List MsgIngester} {msg : MsgReqWorker}
    (h : Forwarded cfg submitted msg) (more : List MsgIngester) :
    Forwarded cfg (submitted ++ more) msg := by
  obtain ⟨m, hm, hf⟩ := h
  exact ⟨m, List.getElem?_append_left (List.getElem?_eq_some_iff.1 hm).1 ▸ hm, hf⟩

theorem IsReq.append {cfg : RelayConfig} {submitted : List MsgIngester} {serial c : Nat} {i : SubId}
    (h : IsReq cfg submitted serial c i) (more : List MsgIngester) :
    IsReq cfg (submitted ++ more) serial c i := by
  obtain ⟨sub, hf, hkey⟩ := h
  exact ⟨sub, hf.append more, hkey⟩

/-- What the ingester makes of a message: a disconnect, a REQ or a CLOSE. -/
theorem ingesterForward_cases {cfg : RelayConfig} {serial : Nat} {msg : MsgIngester}
    {out : MsgReqWorker} (h : (ingesterForward cfg serial msg).2 = some out) :
    (∃ c, msg = .closeConn c ∧ out = .closeConn serial c) ∨
      (∃ i g, out = .newSub serial { connId := msg.connId, subId := i, filterGroup := g }) ∨
      ∃ i, out = .removeSub serial msg.connId i := by
  have hreq : ∀ connId label r, (forwardOr connId label r).2 = some out → r = .ok out := by
    intro connId label r hr
    cases r with
    | ok m =>
      cases hr
      rfl
    | error e => cases hr
  cases msg with
  | closeConn connId =>
    cases h
    exact Or.inl ⟨connId, rfl, rfl⟩
  | clientMessage msg =>
    right
    rw [ingesterForward] at h
    split at h
    · split at h
      · split at h
        · have hok := hreq _ _ _ h
          unfold ingesterProcessReq at hok
          split at hok
          · cases hok
          split at hok
          · cases hok
          obtain ⟨id, -, hok⟩ := bind_eq_ok.1 hok
          obtain ⟨g, -, hok⟩ := bind_eq_ok.1 hok
          obtain ⟨subId, -, hok⟩ := bind_eq_ok.1 hok
          cases hok
          exact Or.inl ⟨subId, g, rfl⟩
        · split at h
          · have hok := hreq _ _ _ h
            unfold ingesterProcessClose at hok
            split at hok
            · cases hok
            obtain ⟨id, -, hok⟩ := bind_eq_ok.1 hok
            obtain ⟨subId, -, hok⟩ := bind_eq_ok.1 hok
            cases hok
            exact Or.inr ⟨subId, rfl⟩
          · cases h
      · cases h
    · cases h

/-- What the ingester makes of a client message has its number and its connection. -/
theorem ingesterForward_spec {cfg : RelayConfig} {serial : Nat} {msg : MsgIngester}
    {out : MsgReqWorker} (h : (ingesterForward cfg serial msg).2 = some out) :
    out.serial = serial ∧ out.connId = msg.connId ∧
      ∀ k sub, out = .newSub k sub → sub.request = sub := by
  rcases ingesterForward_cases h with ⟨c, rfl, rfl⟩ | ⟨i, g, rfl⟩ | ⟨i, rfl⟩
  · exact ⟨rfl, rfl, nofun⟩
  · refine ⟨rfl, rfl, ?_⟩
    rintro k sub ⟨⟩
    rfl
  · exact ⟨rfl, rfl, nofun⟩

/-- A message of the worker about a disconnect goes back to a disconnect. -/
theorem Forwarded.closeConn {cfg : RelayConfig} {submitted : List MsgIngester} {k c : Nat}
    (h : Forwarded cfg submitted (.closeConn k c)) : submitted[k]? = some (.closeConn c) := by
  obtain ⟨m, hm, hf⟩ := h
  rcases ingesterForward_cases hf with ⟨c', rfl, heq⟩ | ⟨i, g, heq⟩ | ⟨i, heq⟩
  · cases heq
    exact hm
  · cases heq
  · cases heq

theorem MsgReqWorker.serialFor_eq {c k : Nat} {i : SubId} {msg : MsgReqWorker}
    (h : msg.serialFor c i = some k) : msg.serial = k := by
  cases msg <;>
  · rw [serialFor] at h
    split at h
    · exact Option.some.inj h
    · cases h

/-- The messages that a worker has dispatched to the monitor thread `m`. -/
def WorkerStep.dispatchedTo (cfg : RelayConfig) (step : WorkerStep) (m : Nat) :
    List MsgReqMonitor :=
  (step.dispatched.toList.filter fun d => d.1 % cfg.numReqMonitor = m).map Prod.snd

theorem WorkerStep.Keyed.filterMap_dispatchedTo {cfg : RelayConfig} {step : WorkerStep}
    (h : step.Keyed) (m c : Nat) (i : SubId) :
    (step.dispatchedTo cfg m).filterMap (MsgReqMonitor.serialFor c i) =
      if c % cfg.numReqMonitor = m then step.serialFor c i else [] := by
  unfold dispatchedTo WorkerStep.serialFor
  cases hd : step.dispatched with
  | none => simp
  | some d =>
    cases hk : d.2.serialFor c i with
    | none => by_cases hm : d.1 % cfg.numReqMonitor = m <;> simp [hm, hk]
    | some k =>
      obtain rfl : d.1 = c := h d.1 d.2 c i k hd hk
      by_cases hm : d.1 % cfg.numReqMonitor = m <;> simp [hm, hk]

namespace Relay

variable {cfg : RelayConfig} {s : Relay}

/-! ## The parts of a state after each step -/

section Frames

@[simp] theorem workers_afterIngester (i : Nat) (rest : List (Nat × MsgIngester))
    (out : List Output × Option MsgReqWorker) (w : Nat) :
    (s.afterIngester cfg i rest out).workers w =
      { s.workers w with
        inbox := (s.workers w).inbox ++
          (out.2.toList.filter fun msg => msg.connId % cfg.numReqWorker = w) } := by
  unfold afterIngester
  cases out.2 with
  | none => simp [send]
  | some msg =>
    simp only [dispatchWorker, setWorker, send, Function.update_apply]
    by_cases hw : w = msg.connId % cfg.numReqWorker
    · simp [hw]
    · simp [hw, Ne.symm hw]

@[simp] theorem monitors_afterIngester (i : Nat) (rest : List (Nat × MsgIngester))
    (out : List Output × Option MsgReqWorker) :
    (s.afterIngester cfg i rest out).monitors = s.monitors := by
  unfold afterIngester
  cases out.2 <;> rfl

@[simp] theorem ingesters_afterIngester (i : Nat) (rest : List (Nat × MsgIngester))
    (out : List Output × Option MsgReqWorker) :
    (s.afterIngester cfg i rest out).ingesters = Function.update s.ingesters i rest := by
  unfold afterIngester
  cases out.2 <;> rfl

@[simp] theorem submitted_afterIngester (i : Nat) (rest : List (Nat × MsgIngester))
    (out : List Output × Option MsgReqWorker) :
    (s.afterIngester cfg i rest out).submitted = s.submitted := by
  unfold afterIngester
  cases out.2 <;> rfl

@[simp] theorem log_afterIngester (i : Nat) (rest : List (Nat × MsgIngester))
    (out : List Output × Option MsgReqWorker) :
    (s.afterIngester cfg i rest out).log = s.log ++ out.1 := by
  unfold afterIngester
  cases out.2 <;> rfl

@[simp] theorem db_afterIngester (i : Nat) (rest : List (Nat × MsgIngester))
    (out : List Output × Option MsgReqWorker) : (s.afterIngester cfg i rest out).db = s.db := by
  unfold afterIngester
  cases out.2 <;> rfl

variable {w : Nat} {th : ReqWorker} {step : WorkerStep}

@[simp] theorem workers_afterWorker :
    (s.afterWorker cfg w th step).workers =
      Function.update s.workers w { th with queries := step.queries } := by
  unfold afterWorker
  cases step.dispatched <;> rfl

@[simp] theorem monitors_afterWorker (m : Nat) :
    (s.afterWorker cfg w th step).monitors m =
      { s.monitors m with inbox := (s.monitors m).inbox ++ step.dispatchedTo cfg m } := by
  unfold afterWorker WorkerStep.dispatchedTo
  cases step.dispatched with
  | none => simp [send, setWorker]
  | some d =>
    simp only [dispatchMonitor, setWorker, setMonitor, send, Function.update_apply]
    by_cases hm : m = d.1 % cfg.numReqMonitor
    · simp [hm]
    · simp [hm, Ne.symm hm]

@[simp] theorem ingesters_afterWorker :
    (s.afterWorker cfg w th step).ingesters = s.ingesters := by
  unfold afterWorker
  cases step.dispatched <;> rfl

@[simp] theorem submitted_afterWorker :
    (s.afterWorker cfg w th step).submitted = s.submitted := by
  unfold afterWorker
  cases step.dispatched <;> rfl

@[simp] theorem log_afterWorker : (s.afterWorker cfg w th step).log = s.log ++ step.sent := by
  unfold afterWorker
  cases step.dispatched <;> rfl

@[simp] theorem db_afterWorker : (s.afterWorker cfg w th step).db = s.db := by
  unfold afterWorker
  cases step.dispatched <;> rfl

@[simp] theorem highest_afterWorker : (s.afterWorker cfg w th step).highest = s.highest := by
  unfold afterWorker
  cases step.dispatched <;> rfl

end Frames

/-! ## The invariant -/

/-- What every reachable state satisfies. -/
structure Inv (cfg : RelayConfig) (s : Relay) : Prop where
  queries : ∀ w, (s.workers w).queries.Inv
  monitors : ∀ m, (s.monitors m).monitors.Inv
  workerOwns : ∀ w c, c % cfg.numReqWorker ≠ w →
    (s.workers w).queries.conns.lookup c = none ∧ ∀ i, (s.workers w).path c i = []
  monitorOwns : ∀ m c, c % cfg.numReqMonitor ≠ m →
    (s.monitors m).monitors.conns.lookup c = none ∧ ∀ i, (s.monitors m).path c i = []
  ingesterOwns : ∀ j c, c % cfg.numIngester ≠ j → ingesterPath (s.ingesters j) c = []
  increasing : ∀ c i, (s.path cfg c i).Pairwise (· < ·)
  submitted : ∀ c i, ∀ k ∈ s.path cfg c i, ∃ msg, s.submitted[k]? = some msg ∧ msg.connId = c
  closed : ∀ (c j k : Nat) (msg : MsgIngester), s.submitted[j]? = some (.closeConn c) →
    s.submitted[k]? = some msg → msg.connId = c → k ≤ j

theorem inv_start (cfg : RelayConfig) (db : Db) : Inv cfg { db := db } where
  queries := fun _ => QueryScheduler.inv_empty
  monitors := fun _ => ActiveMonitors.inv_empty
  workerOwns := fun _ _ _ => ⟨rfl, fun _ => rfl⟩
  monitorOwns := fun _ _ _ => ⟨rfl, fun _ => rfl⟩
  ingesterOwns := fun _ _ _ => rfl
  increasing := fun _ _ => .nil
  submitted := nofun
  closed := nofun

/-- The part about the paths holds when they get shorter. -/
theorem Inv.of_sublist {s' : Relay} (h : Inv cfg s)
    (hpath : ∀ c i, (s'.path cfg c i).Sublist (s.path cfg c i))
    (hsub : s'.submitted = s.submitted) :
    (∀ c i, (s'.path cfg c i).Pairwise (· < ·)) ∧
      (∀ c i, ∀ k ∈ s'.path cfg c i, ∃ msg, s'.submitted[k]? = some msg ∧ msg.connId = c) ∧
      ∀ (c j k : Nat) (msg : MsgIngester), s'.submitted[j]? = some (.closeConn c) →
        s'.submitted[k]? = some msg → msg.connId = c → k ≤ j := by
  rw [hsub]
  exact ⟨fun c i => (h.increasing c i).sublist (hpath c i),
    fun c i k hk => h.submitted c i k ((hpath c i).subset hk), h.closed⟩

/-! ## The invariant after each step -/

theorem Inv.lt_length (h : Inv cfg s) {c k : Nat} {i : SubId} (hk : k ∈ s.path cfg c i) :
    k < s.submitted.length := by
  obtain ⟨msg, hmsg, -⟩ := h.submitted c i k hk
  exact (List.getElem?_eq_some_iff.1 hmsg).1

theorem ingesterPath_append (msgs : List (Nat × MsgIngester)) (k : Nat) (msg : MsgIngester)
    (c : Nat) : ingesterPath (msgs ++ [(k, msg)]) c =
      ingesterPath msgs c ++ if msg.connId = c then [k] else [] := by
  by_cases hc : msg.connId = c <;> simp [ingesterPath, ingesterSerial, hc]

theorem path_received (msg : MsgIngester) (c : Nat) (i : SubId) :
    (s.received cfg msg).path cfg c i =
      s.path cfg c i ++ if msg.connId = c then [s.submitted.length] else [] := by
  have hing : ingesterPath ((s.received cfg msg).ingesters (c % cfg.numIngester)) c =
      ingesterPath (s.ingesters (c % cfg.numIngester)) c ++
        if msg.connId = c then [s.submitted.length] else [] := by
    simp only [received, Function.update_apply]
    split
    · rename_i heq
      rw [ingesterPath_append, heq]
    · rename_i hne
      rw [if_neg fun hc => hne (by rw [hc]), List.append_nil]
  rw [path, path, hing]
  simp only [List.append_assoc]
  rfl

theorem Inv.receive (h : Inv cfg s) {msg : MsgIngester}
    (opened : .closeConn msg.connId ∉ s.submitted) : Inv cfg (s.received cfg msg) where
  queries := h.queries
  monitors := h.monitors
  workerOwns := h.workerOwns
  monitorOwns := h.monitorOwns
  ingesterOwns := by
    intro j c hc
    simp only [received, Function.update_apply]
    split
    · rename_i hj
      subst hj
      rw [ingesterPath_append, h.ingesterOwns _ c hc, if_neg fun heq => hc (by rw [heq])]
      rfl
    · exact h.ingesterOwns j c hc
  increasing := by
    intro c i
    rw [path_received]
    split
    · refine List.pairwise_append.2 ⟨h.increasing c i, List.pairwise_singleton _ _, ?_⟩
      intro a ha b hb
      rw [List.mem_singleton.1 hb]
      exact h.lt_length ha
    · rw [List.append_nil]
      exact h.increasing c i
  submitted := by
    intro c i k hk
    rw [path_received] at hk
    rcases List.mem_append.1 hk with hk | hk
    · obtain ⟨m, hm, hc⟩ := h.submitted c i k hk
      refine ⟨m, ?_, hc⟩
      show (s.submitted ++ [msg])[k]? = some m
      rw [List.getElem?_append_left (h.lt_length hk)]
      exact hm
    · split at hk
      · rename_i hc
        rw [List.mem_singleton.1 hk]
        exact ⟨msg, by simp [received], hc⟩
      · cases hk
  closed := by
    intro c j k m hj hk hc
    have hjlt : j < (s.submitted ++ [msg]).length := (List.getElem?_eq_some_iff.1 hj).1
    have hklt : k < (s.submitted ++ [msg]).length := (List.getElem?_eq_some_iff.1 hk).1
    rw [List.length_append, List.length_singleton] at hjlt hklt
    change (s.submitted ++ [msg])[j]? = _ at hj
    change (s.submitted ++ [msg])[k]? = _ at hk
    by_cases hjl : j < s.submitted.length
    · rw [List.getElem?_append_left hjl] at hj
      by_cases hkl : k < s.submitted.length
      · rw [List.getElem?_append_left hkl] at hk
        exact h.closed c j k m hj hk hc
      · -- the message that has come in is not from a connection that is closed
        obtain rfl : k = s.submitted.length := by omega
        rw [List.getElem?_concat_length] at hk
        cases hk
        rw [hc] at opened
        exact absurd (List.mem_of_getElem? hj) opened
    · omega

/-- The messages that the ingester has for the worker thread `w`. -/
def forwardedTo (cfg : RelayConfig) (serial : Nat) (msg : MsgIngester) (w : Nat) :
    List MsgReqWorker :=
  (ingesterForward cfg serial msg).2.toList.filter fun m => m.connId % cfg.numReqWorker = w

/-- They have the number and the connection of the message they were made of. -/
theorem filterMap_forwardedTo (cfg : RelayConfig) (serial : Nat) (msg : MsgIngester) (w c : Nat) (id : SubId) :
    ((forwardedTo cfg serial msg w).filterMap (MsgReqWorker.serialFor c id)).Sublist
      (if msg.connId = c ∧ c % cfg.numReqWorker = w then [serial] else []) := by
  unfold forwardedTo
  cases hf : (ingesterForward cfg serial msg).2 with
  | none => simp
  | some out =>
    obtain ⟨hserial, hconn, -⟩ := ingesterForward_spec hf
    cases hk : out.serialFor c id with
    | none => by_cases hw : out.connId % cfg.numReqWorker = w <;> simp [hw, hk]
    | some k =>
      have hc := MsgReqWorker.connId_of_serialFor hk
      have hks := MsgReqWorker.serialFor_eq hk
      by_cases hw : out.connId % cfg.numReqWorker = w
      · simp [hk, ← hconn, hc ▸ hw, hc, ← hks, hserial]
      · simp [hw]

theorem path_forwardedTo (th : ReqWorker) (msgs : List MsgReqWorker) (c : Nat) (id : SubId) :
    ReqWorker.path { th with inbox := th.inbox ++ msgs } c id =
      th.path c id ++ msgs.filterMap (MsgReqWorker.serialFor c id) := by
  simp [ReqWorker.path, List.filterMap_append]

theorem ingesterPath_cons (serial : Nat) (msg : MsgIngester) (rest : List (Nat × MsgIngester))
    (c : Nat) : ingesterPath ((serial, msg) :: rest) c =
      (if msg.connId = c then [serial] else []) ++ ingesterPath rest c := by
  by_cases hc : msg.connId = c <;> simp [ingesterPath, ingesterSerial, hc]

theorem Inv.path_ingest (h : Inv cfg s) {i serial : Nat} {msg : MsgIngester}
    {rest : List (Nat × MsgIngester)} (next : s.ingesters i = (serial, msg) :: rest) (c : Nat)
    (id : SubId) : ((s.afterIngester cfg i rest (ingesterForward cfg serial msg)).path cfg c
      id).Sublist (s.path cfg c id) := by
  have hout := filterMap_forwardedTo cfg serial msg (c % cfg.numReqWorker) c id
  simp only [path, workers_afterIngester, monitors_afterIngester, ingesters_afterIngester,
    path_forwardedTo, Function.update_apply, List.append_assoc]
  refine List.Sublist.append_left (List.Sublist.append_left ?_ _) _
  split
  · rename_i hi
    rw [hi, next, ingesterPath_cons]
    refine List.Sublist.append (hout.trans ?_) (List.Sublist.refl _)
    by_cases hc : msg.connId = c <;> simp [hc]
  · rename_i hi
    -- a thread that does not own the connection has no message of it
    have hnot : msg.connId ≠ c := by
      intro hc
      have hnil := h.ingesterOwns i c hi
      rw [next, ingesterPath_cons, if_pos hc] at hnil
      cases hnil
    rw [if_neg fun hk => hnot hk.1, List.sublist_nil, forwardedTo] at hout
    rw [hout]
    exact List.Sublist.refl _

theorem Inv.ingest (h : Inv cfg s) {i serial : Nat} {msg : MsgIngester}
    {rest : List (Nat × MsgIngester)} (next : s.ingesters i = (serial, msg) :: rest) :
    Inv cfg (s.afterIngester cfg i rest (ingesterForward cfg serial msg)) := by
  obtain ⟨hinc, hsubm, hclosed⟩ := h.of_sublist (h.path_ingest next) (submitted_afterIngester ..)
  refine ⟨fun w => ?_, fun m => ?_, fun w c hc => ?_, fun m c hc => ?_, fun j c hc => ?_, hinc, hsubm,
    hclosed⟩
  · rw [workers_afterIngester]
    exact h.queries w
  · rw [monitors_afterIngester]
    exact h.monitors m
  · rw [workers_afterIngester]
    refine ⟨(h.workerOwns w c hc).1, fun id => ?_⟩
    have hnil := filterMap_forwardedTo cfg serial msg w c id
    rw [if_neg fun hk => hc hk.2, List.sublist_nil, forwardedTo] at hnil
    rw [path_forwardedTo, hnil, (h.workerOwns w c hc).2 id]
    rfl
  · rw [monitors_afterIngester]
    exact h.monitorOwns m c hc
  · rw [ingesters_afterIngester, Function.update_apply]
    split
    · rename_i hj
      subst hj
      have hnil := h.ingesterOwns _ c hc
      rw [next, ingesterPath_cons, List.append_eq_nil_iff] at hnil
      exact hnil.2
    · exact h.ingesterOwns j c hc

/-- A step of a worker thread that moves numbers forward. -/
structure Moves (s : Relay) (w : Nat) (th : ReqWorker) (step : WorkerStep) : Prop where
  inv : step.queries.Inv
  keyed : step.Keyed
  noEntry : ∀ c, (s.workers w).queries.conns.lookup c = none →
    (∀ i, (s.workers w).path c i = []) → step.queries.conns.lookup c = none
  moves : ∀ c i, (step.serialFor c i ++
    ReqWorker.path { th with queries := step.queries } c i).Sublist ((s.workers w).path c i)

section Moves

variable {w : Nat} {th : ReqWorker} {step : WorkerStep}

theorem Moves.path_push (hm : Moves s w th step) (m c : Nat) (i : SubId) :
    ReqMonitor.path
      { s.monitors m with inbox := (s.monitors m).inbox ++ step.dispatchedTo cfg m } c i =
    (s.monitors m).path c i ++ if c % cfg.numReqMonitor = m then step.serialFor c i else [] := by
  rw [ReqMonitor.path_push, hm.keyed.filterMap_dispatchedTo]

/-- A worker thread that does not own the connection dispatches nothing that concerns it. -/
theorem Moves.eq_nil (hm : Moves s w th step) (h : Inv cfg s) {c : Nat}
    (hc : c % cfg.numReqWorker ≠ w) (i : SubId) : step.serialFor c i = [] ∧
      ReqWorker.path { th with queries := step.queries } c i = [] := by
  have hsub := hm.moves c i
  rw [(h.workerOwns w c hc).2 i, List.sublist_nil, List.append_eq_nil_iff] at hsub
  exact hsub

theorem Moves.path_sublist (hm : Moves s w th step) (h : Inv cfg s) (c : Nat) (i : SubId) :
    ((s.afterWorker cfg w th step).path cfg c i).Sublist (s.path cfg c i) := by
  simp only [path, workers_afterWorker, monitors_afterWorker, ingesters_afterWorker, hm.path_push,
    Function.update_apply, if_true, List.append_assoc]
  refine List.Sublist.append_left ?_ _
  split
  · rename_i hw
    rw [← List.append_assoc, hw]
    exact (hm.moves c i).append (List.Sublist.refl _)
  · rename_i hw
    rw [(hm.eq_nil h hw i).1]
    exact List.Sublist.refl _

theorem Inv.afterWorker (h : Inv cfg s) (hm : Moves s w th step) :
    Inv cfg (s.afterWorker cfg w th step) := by
  obtain ⟨hinc, hsubm, hclosed⟩ := h.of_sublist (hm.path_sublist h) submitted_afterWorker
  refine ⟨fun w' => ?_, fun m => ?_, fun w' c hc => ?_, fun m c hc => ?_, fun j c hc => ?_, hinc,
    hsubm, hclosed⟩
  · rw [workers_afterWorker, Function.update_apply]
    split
    · exact hm.inv
    · exact h.queries w'
  · rw [monitors_afterWorker]
    exact h.monitors m
  · rw [workers_afterWorker, Function.update_apply]
    split
    · rename_i hw
      subst hw
      obtain ⟨hlook, hnil⟩ := h.workerOwns w' c hc
      exact ⟨hm.noEntry c hlook hnil, fun i => (hm.eq_nil h hc i).2⟩
    · exact h.workerOwns w' c hc
  · rw [monitors_afterWorker]
    refine ⟨(h.monitorOwns m c hc).1, fun i => ?_⟩
    rw [hm.path_push, if_neg hc, (h.monitorOwns m c hc).2 i]
    rfl
  · rw [ingesters_afterWorker]
    exact h.ingesterOwns j c hc

end Moves

theorem Inv.moves_workerMsg (h : Inv cfg s) {w n : Nat} {txn : Store} {msg : MsgReqWorker}
    {rest : List MsgReqWorker} {q : QueryPtr} {step : WorkerStep}
    (next : (s.workers w).newMsgs = msg :: rest)
    (unused : (s.workers w).queries.queries.lookup q = none)
    (handled : workerHandle cfg txn q n (s.workers w).queries msg = some step) :
    Moves s w { s.workers w with newMsgs := rest } step := by
  have hsplit : ∀ c i, (s.workers w).path c i = (serialOf ((s.workers w).queries.live c i) ++
      (msg.serialFor c i).toList) ++
        (rest ++ (s.workers w).inbox).filterMap (MsgReqWorker.serialFor c i) := by
    intro c i
    rw [ReqWorker.path, next]
    cases hk : msg.serialFor c i <;> simp [hk]
  refine ⟨workerHandle_inv (h.queries w) unused handled,
    workerHandle_keyed (h.queries w) unused handled, fun c hnone hnil => ?_, fun c i => ?_⟩
  · refine workerHandle_noEntry hnone ?_ handled
    rintro serial sub rfl rfl
    have hpath := hnil sub.subId
    rw [hsplit] at hpath
    simp [MsgReqWorker.serialFor] at hpath
  · rw [hsplit, ReqWorker.path, ← List.append_assoc]
    exact (workerHandle_sublist (h.queries w) unused handled c i).append (List.Sublist.refl _)

theorem Inv.moves_workerProcess (h : Inv cfg s) {w n : Nat} {txn : Store} {step : WorkerStep}
    (handled : Strfry.workerProcess cfg txn n (s.workers w).queries = some step) :
    Moves s w { s.workers w with txn := none } step := by
  refine ⟨(workerProcess_spec (h.queries w) handled).1, workerProcess_keyed (h.queries w) handled,
    fun c hnone _ => workerProcess_noEntry hnone handled, fun c i => ?_⟩
  rw [ReqWorker.path, ReqWorker.path, ← List.append_assoc]
  exact (workerProcess_sublist (h.queries w) handled c i).append (List.Sublist.refl _)

/-- A step that leaves the numbers where they are. -/
structure Keeps (s s' : Relay) : Prop where
  workers : ∀ w, (s'.workers w).queries = (s.workers w).queries ∧
    ∀ c i, (s'.workers w).path c i = (s.workers w).path c i
  monitors : ∀ m, (s'.monitors m).monitors = (s.monitors m).monitors ∧
    ∀ c i, (s'.monitors m).path c i = (s.monitors m).path c i
  ingesters : s'.ingesters = s.ingesters
  submitted : s'.submitted = s.submitted
  log : s'.log = s.log

theorem Keeps.path_eq {s' : Relay} (hk : Keeps s s') (c : Nat) (i : SubId) :
    s'.path cfg c i = s.path cfg c i := by
  rw [path, path, (hk.workers _).2, (hk.monitors _).2, hk.ingesters]

theorem Keeps.path_sublist {s' : Relay} (hk : Keeps s s') (c : Nat) (i : SubId) :
    (s'.path cfg c i).Sublist (s.path cfg c i) := by
  rw [hk.path_eq]

theorem Inv.keeps {s' : Relay} (h : Inv cfg s) (hk : Keeps s s') : Inv cfg s' := by
  obtain ⟨hinc, hsubm, hclosed⟩ :=
    h.of_sublist hk.path_sublist hk.submitted
  refine ⟨fun w => ?_, fun m => ?_, fun w c hc => ?_, fun m c hc => ?_, fun j c hc => ?_, hinc,
    hsubm, hclosed⟩
  · rw [(hk.workers w).1]
    exact h.queries w
  · rw [(hk.monitors m).1]
    exact h.monitors m
  · rw [(hk.workers w).1]
    exact ⟨(h.workerOwns w c hc).1, fun i => ((hk.workers w).2 c i).trans ((h.workerOwns w c hc).2 i)⟩
  · rw [(hk.monitors m).1]
    exact ⟨(h.monitorOwns m c hc).1,
      fun i => ((hk.monitors m).2 c i).trans ((h.monitorOwns m c hc).2 i)⟩
  · rw [hk.ingesters]
    exact h.ingesterOwns j c hc

theorem keeps_workerPop {w : Nat} (done : (s.workers w).newMsgs = []) (txn : Option Store) :
    Keeps s (s.setWorker w
      { s.workers w with inbox := [], newMsgs := (s.workers w).inbox, txn := txn }) := by
  refine ⟨fun w' => ?_, fun m => ⟨rfl, fun _ _ => rfl⟩, rfl, rfl, rfl⟩
  simp only [setWorker, Function.update_apply]
  split
  · rename_i hw
    subst hw
    refine ⟨rfl, fun c i => ?_⟩
    rw [ReqWorker.path, ReqWorker.path, done, List.append_nil, List.nil_append]
  · exact ⟨rfl, fun _ _ => rfl⟩

theorem keeps_monitorPop {m : Nat} (done : (s.monitors m).newMsgs = []) (txn : Store)
    (currEventId : WithTop Nat) :
    Keeps s (s.setMonitor m
      { s.monitors m with
        inbox := [], newMsgs := (s.monitors m).inbox, txn := txn, currEventId := currEventId }) := by
  refine ⟨fun w => ⟨rfl, fun _ _ => rfl⟩, fun m' => ?_, rfl, rfl, rfl⟩
  simp only [setMonitor, Function.update_apply]
  split
  · rename_i hm
    subst hm
    refine ⟨rfl, fun c i => ?_⟩
    rw [ReqMonitor.path, ReqMonitor.path, done, List.append_nil, List.nil_append]
  · exact ⟨rfl, fun _ _ => rfl⟩

theorem keeps_notified (cfg : RelayConfig) (s : Relay) : Keeps s (s.notified cfg) := by
  refine ⟨fun w => ⟨rfl, fun _ _ => rfl⟩, fun m => ?_, rfl, rfl, rfl⟩
  simp only [notified]
  split
  · refine ⟨rfl, fun c i => ?_⟩
    rw [ReqMonitor.path_push]
    simp [MsgReqMonitor.serialFor]
  · exact ⟨rfl, fun _ _ => rfl⟩

theorem keeps_commit (db' : Db) : Keeps s (s.committed db') :=
  ⟨fun _ => ⟨rfl, fun _ _ => rfl⟩, fun _ => ⟨rfl, fun _ _ => rfl⟩, rfl, rfl, rfl⟩

section MonitorMsg

variable {m : Nat} {msg : MsgReqMonitor} {rest : List MsgReqMonitor} {p : MonitorPtr}
  {step : MonitorStep}

theorem path_monitorMsg (next : (s.monitors m).newMsgs = msg :: rest) (monitors : ActiveMonitors)
    (currEventId : WithTop Nat) (c : Nat) (i : SubId) :
    (s.monitors m).path c i = (msg.serialFor c i).toList ++
      ReqMonitor.path { s.monitors m with
        newMsgs := rest, monitors := monitors, currEventId := currEventId } c i := by
  rw [ReqMonitor.path, ReqMonitor.path, next]
  cases hk : msg.serialFor c i <;> simp [hk]

/-- A message that is handled leaves the path at its front. -/
theorem path_afterMonitor (next : (s.monitors m).newMsgs = msg :: rest) {c : Nat}
    (hm : c % cfg.numReqMonitor = m) (i : SubId) :
    s.path cfg c i = (msg.serialFor c i).toList ++
      (s.afterMonitor m { s.monitors m with newMsgs := rest } step).path cfg c i := by
  subst hm
  simp only [path, afterMonitor, setMonitor, send, Function.update_self]
  rw [path_monitorMsg next step.monitors step.currEventId c i, List.append_assoc]

theorem path_monitorMsg_sublist (next : (s.monitors m).newMsgs = msg :: rest) (c : Nat) (i : SubId) :
    ((s.afterMonitor m { s.monitors m with newMsgs := rest } step).path cfg c i).Sublist
      (s.path cfg c i) := by
  by_cases hm : c % cfg.numReqMonitor = m
  · rw [path_afterMonitor next hm]
    exact List.sublist_append_right _ _
  · simp only [path, afterMonitor, setMonitor, send, Function.update_of_ne hm]
    exact List.Sublist.refl _

theorem Inv.monitorMsg (h : Inv cfg s) (next : (s.monitors m).newMsgs = msg :: rest)
    (unused : (s.monitors m).monitors.monitors.lookup p = none)
    (handled : monitorHandle cfg (s.monitors m).txn p (s.monitors m).monitors
      (s.monitors m).currEventId msg = some step) :
    Inv cfg (s.afterMonitor m { s.monitors m with newMsgs := rest } step) := by
  have hsplit := path_monitorMsg next step.monitors step.currEventId
  obtain ⟨hinc, hsubm, hclosed⟩ := h.of_sublist (path_monitorMsg_sublist next) rfl
  refine ⟨h.queries, fun m' => ?_, h.workerOwns, fun m' c hc => ?_, h.ingesterOwns, hinc, hsubm,
    hclosed⟩
  · simp only [afterMonitor, setMonitor, send, Function.update_apply]
    split
    · exact monitorHandle_inv (h.monitors m) unused handled
    · exact h.monitors m'
  · simp only [afterMonitor, setMonitor, send, Function.update_apply]
    split
    · rename_i hm
      subst hm
      obtain ⟨hnone, hnil⟩ := h.monitorOwns m' c hc
      refine ⟨monitorHandle_noEntry (h.monitors m') handled hnone ?_, fun i => ?_⟩
      · rintro serial sub rfl rfl
        have hpath := hnil sub.subId
        rw [hsplit] at hpath
        simp [MsgReqMonitor.serialFor] at hpath
      · have hpath := hnil i
        rw [hsplit, List.append_eq_nil_iff] at hpath
        exact hpath.2
    · exact h.monitorOwns m' c hc

end MonitorMsg

/-- The step lemma. -/
theorem Step.inv {act : Action} {s' : Relay} (hstep : Step cfg s act s') (h : Inv cfg s) :
    Inv cfg s' := by
  cases hstep with
  | receive opened => exact h.receive opened
  | ingest next => exact h.ingest next
  | workerPop idle done ready => exact h.keeps (keeps_workerPop done _)
  | workerMsg opened next unused handled =>
    exact h.afterWorker (h.moves_workerMsg next unused handled)
  | workerProcess opened done handled => exact h.afterWorker (h.moves_workerProcess handled)
  | monitorPop done ready => exact h.keeps (keeps_monitorPop done _ _)
  | monitorMsg next unused handled => exact h.monitorMsg next unused handled
  | dbChange => exact h.keeps (keeps_notified cfg s)
  | commit txn => exact h.keeps (keeps_commit _)

/-- A step moves numbers forward along a path or drops them; a new message goes to the end. -/
theorem Step.path_sublist {act : Action} {s' : Relay} (hstep : Step cfg s act s') (h : Inv cfg s)
    (c : Nat) (i : SubId) :
    (s'.path cfg c i).Sublist (s.path cfg c i ++
      match act with
      | .receive msg => if msg.connId = c then [s.submitted.length] else []
      | _ => []) := by
  cases hstep with
  | @receive msg opened => exact (path_received msg c i) ▸ List.Sublist.refl _
  | ingest next => exact (h.path_ingest next c i).trans (List.sublist_append_left _ _)
  | workerPop idle done ready =>
    rw [List.append_nil]
    exact (keeps_workerPop done _).path_sublist c i
  | workerMsg opened next unused handled =>
    rw [List.append_nil]
    exact (h.moves_workerMsg next unused handled).path_sublist h c i
  | workerProcess opened done handled =>
    rw [List.append_nil]
    exact (h.moves_workerProcess handled).path_sublist h c i
  | monitorPop done ready =>
    rw [List.append_nil]
    exact (keeps_monitorPop done _ _).path_sublist c i
  | monitorMsg next unused handled =>
    rw [List.append_nil]
    exact path_monitorMsg_sublist next c i
  | dbChange =>
    rw [List.append_nil]
    exact (keeps_notified cfg s).path_sublist c i
  | commit txn =>
    rw [List.append_nil]
    exact (keeps_commit _).path_sublist c i

theorem Run.inv {acts : List Action} {s' : Relay} (hrun : Run cfg s acts s') (h : Inv cfg s) :
    Inv cfg s' := by
  induction hrun with
  | refl => exact h
  | tail _ hstep ih => exact hstep.inv ih

/-- The run lemma. -/
theorem Reachable.inv (h : Reachable cfg s) : Inv cfg s := by
  obtain ⟨db, acts, -, hrun⟩ := h
  exact hrun.inv (inv_start cfg db)

theorem Reachable.tail {act : Action} {s' : Relay} (h : Reachable cfg s)
    (hstep : Step cfg s act s') : Reachable cfg s' := by
  obtain ⟨db, acts, hdb, hrun⟩ := h
  exact ⟨db, _, hdb, hrun.tail hstep⟩

theorem Reachable.trans {acts : List Action} {s' : Relay} (h : Reachable cfg s)
    (hrun : Run cfg s acts s') : Reachable cfg s' := by
  induction hrun with
  | refl => exact h
  | tail _ hstep ih => exact ih.tail hstep

/-! ## Provenance -/

/-- Everything on its way, and every query, was asked for by the client message with its number. -/
structure Sourced (cfg : RelayConfig) (s : Relay) : Prop where
  ingester : ∀ j, ∀ e ∈ s.ingesters j, s.submitted[e.1]? = some e.2
  worker : ∀ w, ∀ msg ∈ (s.workers w).newMsgs ++ (s.workers w).inbox, Forwarded cfg s.submitted msg
  query : ∀ w c i h, (s.workers w).queries.live c i = some h →
    Forwarded cfg s.submitted (.newSub h.serial h.query.sub.request)
  monitor : ∀ m, ∀ msg ∈ (s.monitors m).newMsgs ++ (s.monitors m).inbox, ∀ o, msg.origin = some o →
    Forwarded cfg s.submitted o

theorem sourced_start (cfg : RelayConfig) (db : Db) : Sourced cfg { db := db } :=
  ⟨nofun, nofun, nofun, nofun⟩

/-- The queries of a worker, and what it dispatches, come from its queries and the message. -/
theorem workerProcess_sourced {txn : Store} {n : Nat} {queries : QueryScheduler} {step : WorkerStep}
    {submitted : List MsgIngester} (hinv : queries.Inv)
    (hq : ∀ c i h, queries.live c i = some h →
      Forwarded cfg submitted (.newSub h.serial h.query.sub.request))
    (hp : Strfry.workerProcess cfg txn n queries = some step) :
    (∀ c i h, step.queries.live c i = some h →
      Forwarded cfg submitted (.newSub h.serial h.query.sub.request)) ∧
    ∀ key msg, step.dispatched = some (key, msg) → ∀ o, msg.origin = some o →
      Forwarded cfg submitted o := by
  obtain ⟨-, ⟨-, hdisp, hlive⟩ | ⟨slice, h, query, calls, hs⟩⟩ := workerProcess_spec hinv hp
  · refine ⟨fun c i h hl => hq c i h ?_, fun key msg hd => ?_⟩
    · rw [← hlive]
      exact hl
    · rw [hdisp] at hd
      cases hd
  · have hsub := (DBQuery.process_advances n hs.ran.process).sub
    refine ⟨fun c i h' hl => ?_, fun key msg hd o ho => ?_⟩
    · rw [hs.ran.live'] at hl
      split at hl
      · split at hl
        · cases hl
        · cases hl
          rw [hsub]
          exact hq _ _ h hs.ran.live
      · exact hq c i h' hl
    · rw [hs.dispatched] at hd
      split at hd
      · cases hd
        cases ho
        rw [hs.ran.serial, hs.ran.sub]
        exact hq _ _ h hs.ran.live
      · cases hd

theorem addSub_sourced {txn : Store} {q : QueryPtr} {queries : QueryScheduler}
    {submitted : List MsgIngester} {serial : Nat} {sub : Subscription} (hinv : queries.Inv)
    (hunused : queries.queries.lookup q = none)
    (hq : ∀ c i h, queries.live c i = some h →
      Forwarded cfg submitted (.newSub h.serial h.query.sub.request))
    (hmsg : Forwarded cfg submitted (.newSub serial sub)) :
    ∀ c i h, (queries.addSub cfg.maxSubsPerConnection txn q serial sub).2.live c i = some h →
      Forwarded cfg submitted (.newSub h.serial h.query.sub.request) := by
  obtain ⟨b, s', heq, -, hlive, -⟩ :=
    QueryScheduler.addSub_spec hinv cfg.maxSubsPerConnection txn hunused serial sub
  intro c i h hl
  rw [heq, hlive] at hl
  split at hl
  · split at hl
    · cases hl
      obtain ⟨m, hm, hf⟩ := hmsg
      have hreq := (ingesterForward_spec hf).2.2 serial sub rfl
      refine ⟨m, hm, hf.trans ?_⟩
      rw [← hreq]
      rfl
    · cases hl
  · exact hq c i h hl

theorem workerHandle_sourced {txn : Store} {q : QueryPtr} {n : Nat} {queries : QueryScheduler}
    {msg : MsgReqWorker} {step : WorkerStep} {submitted : List MsgIngester} (hinv : queries.Inv)
    (hunused : queries.queries.lookup q = none)
    (hq : ∀ c i h, queries.live c i = some h →
      Forwarded cfg submitted (.newSub h.serial h.query.sub.request))
    (hmsg : Forwarded cfg submitted msg)
    (hw : workerHandle cfg txn q n queries msg = some step) :
    (∀ c i h, step.queries.live c i = some h →
      Forwarded cfg submitted (.newSub h.serial h.query.sub.request)) ∧
    ∀ key msg, step.dispatched = some (key, msg) → ∀ o, msg.origin = some o →
      Forwarded cfg submitted o := by
  cases msg with
  | newSub serial sub =>
    obtain ⟨step', hp, rfl⟩ := Option.map_eq_some_iff.1 hw
    have hsourced := workerProcess_sourced (addSub_inv hinv _ hunused serial sub)
      (addSub_sourced hinv hunused hq hmsg) hp
    exact hsourced
  | removeSub serial connId subId =>
    cases hw
    refine ⟨fun c i h hl => hq c i h ?_, ?_⟩
    · rw [QueryScheduler.live_removeSub hinv] at hl
      split at hl
      · cases hl
      · exact hl
    · rintro key msg ⟨⟩ o ⟨⟩
      exact hmsg
  | closeConn serial connId =>
    cases hw
    refine ⟨fun c i h hl => hq c i h ?_, ?_⟩
    · rw [QueryScheduler.live_closeConn hinv] at hl
      split at hl
      · cases hl
      · exact hl
    · rintro key msg ⟨⟩ o ⟨⟩
      exact hmsg

/-- A step of a worker thread. -/
theorem Sourced.afterWorker (h : Sourced cfg s) {w : Nat} {th : ReqWorker} {step : WorkerStep}
    (hsubset : ∀ msg ∈ th.newMsgs ++ th.inbox, msg ∈ (s.workers w).newMsgs ++ (s.workers w).inbox)
    (hlive : ∀ c i h, step.queries.live c i = some h →
      Forwarded cfg s.submitted (.newSub h.serial h.query.sub.request))
    (hdisp : ∀ key msg, step.dispatched = some (key, msg) → ∀ o, msg.origin = some o →
      Forwarded cfg s.submitted o) : Sourced cfg (s.afterWorker cfg w th step) := by
  refine ⟨fun j e he => ?_, fun w' msg hmsg => ?_, fun w' c i hq hl => ?_, fun m msg hmsg o ho => ?_⟩
  · rw [ingesters_afterWorker] at he
    rw [submitted_afterWorker]
    exact h.ingester j e he
  · rw [workers_afterWorker, Function.update_apply] at hmsg
    rw [submitted_afterWorker]
    split at hmsg
    · exact h.worker w msg (hsubset msg hmsg)
    · exact h.worker w' msg hmsg
  · rw [workers_afterWorker, Function.update_apply] at hl
    rw [submitted_afterWorker]
    split at hl
    · exact hlive c i hq hl
    · exact h.query w' c i hq hl
  · rw [monitors_afterWorker] at hmsg
    rw [submitted_afterWorker]
    rw [← List.append_assoc] at hmsg
    rcases List.mem_append.1 hmsg with hmsg | hmsg
    · exact h.monitor m msg hmsg o ho
    · obtain ⟨d, hd, rfl⟩ := List.mem_map.1 hmsg
      have hd' := Option.mem_toList.1 (List.mem_filter.1 hd).1
      exact hdisp d.1 d.2 hd' o ho

theorem Sourced.receive (h : Sourced cfg s) (msg : MsgIngester) : Sourced cfg (s.received cfg msg) where
  ingester := by
    intro j e he
    have hlt : ∀ e' ∈ s.ingesters j, (s.submitted ++ [msg])[e'.1]? = some e'.2 := by
      intro e' he'
      have := h.ingester j e' he'
      rw [List.getElem?_append_left (List.getElem?_eq_some_iff.1 this).1]
      exact this
    simp only [received, Function.update_apply] at he
    split at he
    · rename_i hj
      subst hj
      rcases List.mem_append.1 he with he | he
      · exact hlt e he
      · rw [List.mem_singleton.1 he]
        exact List.getElem?_concat_length
    · exact hlt e he
  worker := fun w m hm => (h.worker w m hm).append [msg]
  query := fun w c i hq hl => (h.query w c i hq hl).append [msg]
  monitor := fun m m' hm' o ho => (h.monitor m m' hm' o ho).append [msg]

theorem Sourced.ingest (h : Sourced cfg s) {i serial : Nat} {msg : MsgIngester}
    {rest : List (Nat × MsgIngester)} (next : s.ingesters i = (serial, msg) :: rest) :
    Sourced cfg (s.afterIngester cfg i rest (ingesterForward cfg serial msg)) := by
  refine ⟨fun j e he => ?_, fun w m hm => ?_, fun w c id hq hl => ?_, fun m m' hm' => ?_⟩
  · rw [ingesters_afterIngester, Function.update_apply] at he
    rw [submitted_afterIngester]
    split at he
    · apply h.ingester i
      rw [next]
      exact List.mem_cons_of_mem _ he
    · exact h.ingester j e he
  · rw [workers_afterIngester, ← List.append_assoc] at hm
    rw [submitted_afterIngester]
    rcases List.mem_append.1 hm with hm | hm
    · exact h.worker w m hm
    · have hf := Option.mem_toList.1 (List.mem_filter.1 hm).1
      have hserial := (ingesterForward_spec hf).1
      refine ⟨msg, ?_, by rw [hserial]; exact hf⟩
      rw [hserial]
      exact h.ingester i (serial, msg) (by rw [next]; exact List.mem_cons_self)
  · rw [workers_afterIngester] at hl
    rw [submitted_afterIngester]
    exact h.query w c id hq hl
  · rw [monitors_afterIngester] at hm'
    rw [submitted_afterIngester]
    exact h.monitor m m' hm'

/-- A step that adds no message but notices of changes. -/
theorem Sourced.of_subset {s' : Relay} (h : Sourced cfg s) (hingesters : s'.ingesters = s.ingesters)
    (hsub : s'.submitted = s.submitted)
    (hworker : ∀ w, (s'.workers w).queries = (s.workers w).queries ∧
      ∀ msg ∈ (s'.workers w).newMsgs ++ (s'.workers w).inbox,
        msg ∈ (s.workers w).newMsgs ++ (s.workers w).inbox)
    (hmonitor : ∀ m, ∀ msg ∈ (s'.monitors m).newMsgs ++ (s'.monitors m).inbox, msg ≠ .dbChange →
      msg ∈ (s.monitors m).newMsgs ++ (s.monitors m).inbox) : Sourced cfg s' := by
  refine ⟨?_, fun w msg hmsg => ?_, fun w c i hq hl => ?_, fun m msg hmsg o ho => ?_⟩
  · rw [hingesters, hsub]
    exact h.ingester
  · rw [hsub]
    exact h.worker w msg ((hworker w).2 msg hmsg)
  · rw [(hworker w).1] at hl
    rw [hsub]
    exact h.query w c i hq hl
  · rw [hsub]
    apply h.monitor m msg (hmonitor m msg hmsg ?_) o ho
    rintro rfl
    cases ho

/-- The step lemma of the provenance. -/
theorem Step.sourced {act : Action} {s' : Relay} (hstep : Step cfg s act s') (hinv : Inv cfg s)
    (h : Sourced cfg s) : Sourced cfg s' := by
  cases hstep with
  | receive opened => exact h.receive _
  | ingest next => exact h.ingest next
  | @workerPop w idle done ready =>
    refine h.of_subset rfl rfl (fun w' => ?_) (fun m msg hmsg _ => hmsg)
    simp only [setWorker, Function.update_apply]
    split
    · rename_i hw
      subst hw
      refine ⟨rfl, fun msg hmsg => ?_⟩
      rw [List.append_nil] at hmsg
      exact List.mem_append_right _ hmsg
    · exact ⟨rfl, fun msg hmsg => hmsg⟩
  | @workerMsg w txn msg rest q n step opened next unused handled =>
    have hmsg : Forwarded cfg s.submitted msg :=
      h.worker w msg (by rw [next]; exact List.mem_append_left _ List.mem_cons_self)
    obtain ⟨hlive, hdisp⟩ :=
      workerHandle_sourced (hinv.queries w) unused (h.query w) hmsg handled
    refine h.afterWorker (fun m hm => ?_) hlive hdisp
    rw [next, List.cons_append]
    exact List.mem_cons_of_mem _ hm
  | @workerProcess w txn n step opened done handled =>
    obtain ⟨hlive, hdisp⟩ := workerProcess_sourced (hinv.queries w) (h.query w) handled
    exact h.afterWorker (fun m hm => hm) hlive hdisp
  | @monitorPop m done ready =>
    refine h.of_subset rfl rfl (fun w => ⟨rfl, fun msg hmsg => hmsg⟩) (fun m' msg hmsg _ => ?_)
    simp only [setMonitor, Function.update_apply] at hmsg
    split at hmsg
    · rename_i hm
      subst hm
      rw [List.append_nil] at hmsg
      exact List.mem_append_right _ hmsg
    · exact hmsg
  | @monitorMsg m msg rest p step next unused handled =>
    refine h.of_subset rfl rfl (fun w => ⟨rfl, fun msg hmsg => hmsg⟩) (fun m' msg hmsg _ => ?_)
    simp only [afterMonitor, setMonitor, send, Function.update_apply] at hmsg
    split at hmsg
    · rename_i hm
      subst hm
      rw [next, List.cons_append]
      exact List.mem_cons_of_mem _ hmsg
    · exact hmsg
  | dbChange =>
    refine h.of_subset rfl rfl (fun w => ⟨rfl, fun msg hmsg => hmsg⟩) (fun m msg hmsg hne => ?_)
    simp only [notified] at hmsg
    split at hmsg
    · rw [← List.append_assoc] at hmsg
      rcases List.mem_append.1 hmsg with hmsg | hmsg
      · exact hmsg
      · exact absurd (List.mem_singleton.1 hmsg) hne
    · exact hmsg
  | commit txn =>
    exact h.of_subset rfl rfl (fun w => ⟨rfl, fun msg hmsg => hmsg⟩) (fun m msg hmsg _ => hmsg)

/-- The run lemma of the provenance. -/
theorem Reachable.sourced (h : Reachable cfg s) : Sourced cfg s := by
  obtain ⟨db, acts, -, hrun⟩ := h
  generalize hstart : ({ db := db } : Relay) = s₀ at hrun
  induction hrun with
  | refl =>
    subst hstart
    exact sourced_start cfg db
  | tail hrun hstep ih =>
    subst hstart
    exact hstep.sourced (hrun.inv (inv_start cfg db)) ih

end Relay

end Strfry
