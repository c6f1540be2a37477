import Strfry.CandidatePacking
import Strfry.Handoff

/-!
# What the handoff loses, and what it lets through

The handoff from the stored events to the live ones is exact when all timestamps fit in the 40 bits of a scan
candidate, and the plans have no more cursors than its other 24 bits count (`Relay.handoff_exactly_once`). A note
of a later time is lost to a query with two cursors (`Relay.late_note_not_sent`).

The worker tells the monitor of a CLOSE, but not of a REQ whose id is in use. The subscription that it replaces
goes on until the monitor gets the NewSub, and what is sent under the id is for the new filters alone if no
DBChange comes upon an event for the old ones until then (`Relay.resubscription_serves_new`). Otherwise it is not
(`Relay.replaced_subscription_sends`).
-/

set_option autoImplicit false

namespace Strfry

open Lib LookupTables

namespace Relay

variable {cfg : RelayConfig} {E : Set (Nat × PackedEvent)} {s s' : Relay}

/-! ## Exactly once -/

/-- The limits are larger than the number of events that match in the transaction of the worker. -/
def Limits (cfg : RelayConfig) (s : Relay) (sub : Subscription) : Prop :=
  ∀ txn, (s.workerOf cfg sub.connId).txn = some txn → ∀ f ∈ sub.filterGroup.filters,
    (txn.event.rows.filter fun r => f.doesMatch r.2).length < f.limit

/-- What is sent under an id that was not in use. As soon as the monitor has installed the subscription, each event
that matches and is still stored has been sent exactly once, up to the `currEventId` of the monitor. -/
theorem handoff_exactly_once {db : Db} {s₀ s₁ s₂ : Relay} {acts₀ acts : List Action} {w k : Nat}
    {sub : Subscription} (hdb : StoreReachable cfg.ord cfg.hex cfg.text db)
    (hwithin : ∀ r ∈ db.event.rows, r ∈ E) (hE : ∀ r ∈ E, r.2.createdAt < 2 ^ 40)
    (hcur : ∀ f ∈ sub.filterGroup.filters, DBScan.numCursors f ≤ 2 ^ 24)
    (hrun₀ : RunWith cfg (FreshIn E) { db := db } acts₀ s₀) (hlimit : Limits cfg s₀ sub)
    (hpath : (s₀.monitorOf cfg sub.connId).path sub.connId sub.subId = [])
    (hinst : s₀.installed cfg sub.connId sub.subId = none)
    (hstep : Step cfg s₀ (.workerMsg w (.newSub k sub)) s₁) (hrun : RunWith cfg (FreshIn E) s₁ acts s₂)
    (hother : ∀ w msg, .workerMsg w msg ∈ acts → msg.serialFor sub.connId sub.subId = none) :
    ∃ txn sent, (s₀.workerOf cfg sub.connId).txn = some txn ∧ s₂.log = s₀.log ++ sent ∧
      SentFor cfg E sub.filterGroup sub.connId sub.subId txn.event.lastKey s₂
        (sent.filter (Output.isFor sub.connId sub.subId)) ∧
      ((s₂.installed cfg sub.connId sub.subId).isSome → ∀ r ∈ s₂.db.event.rows,
        sub.filterGroup.doesMatch r.2 = true →
        (r.1 : WithTop Nat) ≤ (s₂.monitorOf cfg sub.connId).currEventId →
          (levIdsOf (sent.filter (Output.isFor sub.connId sub.subId))).count r.1 = 1) := by
  obtain ⟨txn, sent, htxn, hlog, hhand⟩ := handoff_of_run (A := True) (R := False) hdb hwithin hE
    (fun _ => hcur) hrun₀ (fun _ => hlimit) hpath (.inr hinst) hstep False.elim
    (hrun.imp fun _ _ hfresh => ⟨hfresh, False.elim⟩) hother
  refine ⟨txn, sent, htxn, hlog, hhand.sentFor, fun hsome r hr hm hle => ?_⟩
  -- sent at least once by `SentFor.live`, and at most once by `Handoff.once`
  have hmem := hhand.sentFor.live (hhand.settled not_false hsome) hsome r hr hm hle
  exact List.count_eq_one_of_mem hhand.once hmem

/-! ### Runs -/

/-- Whether the limits are larger than the number of events that match in the transaction of the worker, and the
plans have no more cursors than are counted. -/
def limits? (s : Relay) (sub : Subscription) : Bool :=
  ((s.workers 0).txn.all fun txn => sub.filterGroup.filters.all fun f =>
    decide ((txn.event.rows.filter fun r => f.doesMatch r.2).length < f.limit)) &&
      sub.filterGroup.filters.all fun f => decide (DBScan.numCursors f ≤ 2 ^ 24)

theorem limits_of_limits? {table : List (Bytes × Json)} {n : Nat} {sub : Subscription} (hc : sub.connId = 1)
    (h : limits? s sub = true) :
    Limits (small table n) s sub ∧ ∀ f ∈ sub.filterGroup.filters, DBScan.numCursors f ≤ 2 ^ 24 := by
  simp only [limits?, Bool.and_eq_true, Option.all_eq_true, List.all_eq_true, decide_eq_true_eq] at h
  refine ⟨fun txn htxn => h.1 txn ?_, h.2⟩
  rw [hc, workerOf_small] at htxn
  exact htxn

/-- Whether the id is not in use, neither at the monitor nor on its way there. -/
def unused? (s : Relay) : Bool :=
  ((s.monitors 0).path 1 idA).isEmpty && ((s.monitors 0).monitors.installed 1 idA).isNone

theorem unused_of_unused? {table : List (Bytes × Json)} {n : Nat} (h : unused? s = true) :
    (s.monitorOf (small table n) 1).path 1 idA = [] ∧ s.installed (small table n) 1 idA = none := by
  simp only [unused?, Bool.and_eq_true, List.isEmpty_iff, Option.isNone_iff_eq_none] at h
  rw [← monitorOf_small table n] at h
  exact h

/-- An event that is stored, one that is written while the NewSub is on its way, and one that is written later. -/
theorem handoff_exactly_once_of_three :
    ∃ s₀ s₁ s₂ acts₀ acts k sub txn sent,
      RunWith reuseRelay (FreshIn {r | r ∈ threeNotes}) { db := Db.init } acts₀ s₀ ∧
      Step reuseRelay s₀ (.workerMsg 0 (.newSub k sub)) s₁ ∧
      RunWith reuseRelay (FreshIn {r | r ∈ threeNotes}) s₁ acts s₂ ∧ s₂.log = s₀.log ++ sent ∧
      SentFor reuseRelay {r | r ∈ threeNotes} sub.filterGroup sub.connId sub.subId
        (Store.event txn).lastKey s₂ (sent.filter (Output.isFor sub.connId sub.subId)) ∧
      (s₂.installed reuseRelay sub.connId sub.subId).isSome ∧
      (∀ r ∈ s₂.db.event.rows, sub.filterGroup.doesMatch r.2 = true →
        (r.1 : WithTop Nat) ≤ (s₂.monitorOf reuseRelay sub.connId).currEventId →
          (levIdsOf (sent.filter (Output.isFor sub.connId sub.subId))).count r.1 = 1) ∧
      (s₂.monitorOf reuseRelay 1).currEventId = (3 : Nat) ∧
      levIdsOf (sent.filter (Output.isFor 1 idA)) = [1, 2, 3] := by
  have hsteps : aroundReq reuseRelay askForStored writeTwoMore 5 (fresh? threeNotes) (fresh? threeNotes)
      (fun s₀ _ s₂ sub => unused? s₀ && forA? sub && limits? s₀ sub &&
        ((s₂.monitors 0).monitors.installed 1 idA).isSome &&
        decide ((s₂.monitors 0).currEventId = ((3 : Nat) : WithTop Nat)) &&
        decide (sentBetween s₀ s₂ = [1, 2, 3])) = true := by decide +kernel
  obtain ⟨s₀, s₁, s₂, acts₀, acts, k, sub, hrun₀, hstep, hrun, hno, htest⟩ := steps_of_aroundReq
    valid_askForStored valid_writeTwoMore (fun _ _ => freshIn_of_fresh?) (fun _ _ => freshIn_of_fresh?) hsteps
  simp only [Bool.and_eq_true, decide_eq_true_eq, forA?] at htest
  obtain ⟨⟨⟨⟨⟨hunused, hc, hi⟩, hlimits⟩, hsome⟩, hcurr⟩, hsent⟩ := htest
  obtain ⟨hpath, hinst⟩ := unused_of_unused? hunused
  obtain ⟨hlimit, hcur⟩ := limits_of_limits? hc hlimits
  obtain ⟨txn, sent, -, hlog, hsentFor, hexactly⟩ := handoff_exactly_once .refl
    (fun r hr => absurd hr List.not_mem_nil) createdAt_threeNotes hcur hrun₀ hlimit
    (by rw [hc, hi]; exact hpath) (by rw [hc, hi]; exact hinst) hstep hrun
    fun w msg hmem => absurd hmem (hno w msg)
  have hinstalled : (s₂.installed reuseRelay sub.connId sub.subId).isSome := by
    rw [hc, hi]
    exact hsome
  rw [sentBetween_eq hlog] at hsent
  exact ⟨s₀, s₁, s₂, acts₀, acts, k, sub, txn, sent, hrun₀, hstep, hrun, hlog, hsentFor, hinstalled,
    hexactly hinstalled, hcurr, hsent⟩

theorem Run.log_eq {acts : List Action} (hrun : Run cfg s acts s') : ∃ sent, s'.log = s.log ++ sent := by
  induction hrun with
  | refl => exact ⟨[], (List.append_nil _).symm⟩
  | tail _ hstep ih =>
    obtain ⟨sent, hlog⟩ := ih
    obtain ⟨more, hmore⟩ := hstep.log_eq
    exact ⟨sent ++ more, by rw [hmore, hlog, List.append_assoc]⟩

/-- The client asks for two kinds of events, from a time on. -/
def askSince : Bytes × Json :=
  reqA "\x7b\"kinds\":[1,2],\"since\":5\x7d"
    (.object [(ascii "kinds", .array [.unsigned 1, .unsigned 2]), (ascii "since", .unsigned 5)])

def sinceRelay : RelayConfig := small [askSince] 20

/-- The note is stored when the client asks. -/
def askForLate : List Move :=
  [.write [lateNote], .receive (fromClient askSince), .ingest 0, .workerPop 0]

/-- The monitor gets the subscription. -/
def installNewSub : List Move := [.workerProcess 0 5, .monitorPop 0, .monitorMsg 0 1]

theorem valid_askForLate : ∀ mv ∈ askForLate, mv.Valid sinceRelay := by
  intro mv hmv
  fin_cases hmv
  · exact submitted_lateNote
  all_goals trivial

theorem valid_installNewSub (cfg : RelayConfig) : ∀ mv ∈ installNewSub, mv.Valid cfg := by
  intro mv hmv
  fin_cases hmv <;> trivial

/-- The note is of cursor `0` of the query, but its candidate says that it is of cursor `1` and of the time `0`. That
is before the `since` of the filter, so the query drops it. The monitor has installed the subscription, and its
`currEventId` is the levId of the note. -/
theorem late_note_not_sent :
    ∃ s₀ s₁ s₂ acts₀ acts k sub sent,
      RunWith sinceRelay (FreshIn {r | r ∈ [(1, lateNote.packed)]}) { db := Db.init } acts₀ s₀ ∧
      (s₀.monitorOf sinceRelay sub.connId).path sub.connId sub.subId = [] ∧
      s₀.installed sinceRelay sub.connId sub.subId = none ∧ Limits sinceRelay s₀ sub ∧
      Step sinceRelay s₀ (.workerMsg 0 (.newSub k sub)) s₁ ∧
      RunWith sinceRelay (FreshIn {r | r ∈ [(1, lateNote.packed)]}) s₁ acts s₂ ∧
      (∀ w msg, .workerMsg w msg ∈ acts → msg.serialFor sub.connId sub.subId = none) ∧
      s₂.log = s₀.log ++ sent ∧ (s₂.installed sinceRelay sub.connId sub.subId).isSome ∧
      (1, lateNote.packed) ∈ s₂.db.event.rows ∧ sub.filterGroup.doesMatch lateNote.packed = true ∧
      (s₂.monitorOf sinceRelay sub.connId).currEventId = (1 : Nat) ∧
      1 ∉ levIdsOf (sent.filter (Output.isFor sub.connId sub.subId)) := by
  -- the run as a computation, from which the steps are read off
  have hsteps : aroundReq sinceRelay askForLate installNewSub 5 (fresh? [(1, lateNote.packed)])
      (fresh? [(1, lateNote.packed)])
      (fun s₀ _ s₂ sub => unused? s₀ && forA? sub && limits? s₀ sub &&
        ((s₂.monitors 0).monitors.installed 1 idA).isSome &&
        (s₂.db.event.rows.any fun r => decide (r = (1, lateNote.packed))) &&
        sub.filterGroup.doesMatch lateNote.packed &&
        decide ((s₂.monitors 0).currEventId = ((1 : Nat) : WithTop Nat)) &&
        decide (sentBetween s₀ s₂ = [])) = true := by decide +kernel
  obtain ⟨s₀, s₁, s₂, acts₀, acts, k, sub, hrun₀, hstep, hrun, hno, htest⟩ := steps_of_aroundReq
    valid_askForLate (valid_installNewSub _) (fun _ _ => freshIn_of_fresh?) (fun _ _ => freshIn_of_fresh?) hsteps
  simp only [Bool.and_eq_true, decide_eq_true_eq, forA?, List.any_eq_true, exists_eq_right] at htest
  obtain ⟨⟨⟨⟨⟨⟨⟨hunused, hc, hi⟩, hlimits⟩, hsome⟩, hrow⟩, hm⟩, hcurr⟩, hsent⟩ := htest
  obtain ⟨hpath, hinst⟩ := unused_of_unused? hunused
  obtain ⟨hlimit, -⟩ := limits_of_limits? hc hlimits
  obtain ⟨more, hmore⟩ := hstep.log_eq
  obtain ⟨sent, hlog⟩ := hrun.run.log_eq
  have hall : s₂.log = s₀.log ++ (more ++ sent) := by rw [hlog, hmore, List.append_assoc]
  rw [sentBetween_eq hall] at hsent
  refine ⟨s₀, s₁, s₂, acts₀, acts, k, sub, more ++ sent, hrun₀, ?_, ?_, hlimit, hstep, hrun,
    fun w msg hmem => absurd hmem (hno w msg), hall, ?_, hrow, hm, ?_, ?_⟩
  · rw [hc, hi]
    exact hpath
  · rw [hc, hi]
    exact hinst
  · rw [hc, hi]
    exact hsome
  · rw [hc]
    exact hcurr
  · rw [hc, hi, hsent]
    exact List.not_mem_nil

/-! ## A subscription that is replaced -/

theorem not_full_iff (hinv : Inv cfg s) {maxSubs c : Nat} {i : SubId} :
    ¬ (s.workerOf cfg c).queries.Full maxSubs c i ↔ (s.otherQueries cfg c i).ncard < maxSubs := by
  rw [workerOf, QueryScheduler.full_iff (hinv.queries _), not_le]
  rfl

/-- A REQ for an id that may be in use, which the worker does not refuse. If no DBChange comes upon an event that the
replaced subscription matches, until the monitor has the new one, what is sent under the id matches the new filters,
and no event is sent twice. -/
theorem resubscription_serves_new {db : Db} {s₀ s₁ s₂ : Relay} {acts₀ acts : List Action} {w k : Nat}
    {sub : Subscription} (hdb : StoreReachable cfg.ord cfg.hex cfg.text db)
    (hwithin : ∀ r ∈ db.event.rows, r ∈ E) (hE : ∀ r ∈ E, r.2.createdAt < 2 ^ 40)
    (hrun₀ : RunWith cfg (FreshIn E) { db := db } acts₀ s₀)
    (hpath : (s₀.monitorOf cfg sub.connId).path sub.connId sub.subId = [])
    (hroom : (s₀.otherQueries cfg sub.connId sub.subId).ncard < cfg.maxSubsPerConnection)
    (hstep : Step cfg s₀ (.workerMsg w (.newSub k sub)) s₁)
    (hrun : RunWith cfg (fun t t' => FreshIn E t t' ∧ Quiet cfg sub.connId sub.subId t t') s₁ acts s₂)
    (hother : ∀ w msg, .workerMsg w msg ∈ acts → msg.serialFor sub.connId sub.subId = none) :
    ∃ sent, s₂.log = s₀.log ++ sent ∧
      (levIdsOf (sent.filter (Output.isFor sub.connId sub.subId))).Nodup ∧
      ∀ o ∈ sent.filter (Output.isFor sub.connId sub.subId), o.Shows E sub.filterGroup := by
  -- the worker takes the REQ; without the limits only that nothing wrong is sent is followed
  have hfull := (not_full_iff (hrun₀.run.inv (inv_start cfg db))).mpr hroom
  obtain ⟨txn, sent, -, hlog, hhand⟩ := handoff_of_run (A := False) (R := True) hdb hwithin hE False.elim hrun₀
    False.elim hpath (.inl trivial) hstep (fun _ hboth => hfull hboth.1)
    (hrun.imp fun _ _ hok => ⟨hok.1, fun _ => hok.2⟩) hother
  exact ⟨sent, hlog, hhand.once, hhand.shows⟩

/-! ### Runs -/

/-- The client asks for the events of another kind. -/
def askOtherKind : Bytes × Json :=
  reqA "\x7b\"kinds\":[2]\x7d" (.object [(ascii "kinds", .array [.unsigned 2])])

def changingRelay : RelayConfig := small [reqA "\x7b\x7d" (.object []), askOtherKind] 20

/-- The client has a subscription, and asks for something else under its id. A note is written, of which the monitor
has a DBChange when the worker gets the REQ. -/
def askForElse (first second : MsgIngester) : List Move :=
  toWorker first 0 5 ++ [.monitorPop 0, .monitorMsg 0 0, .receive second, .ingest 0, .write ([1].map noteOf),
    .dbChange, .workerPop 0]

/-- The monitor handles the DBChange, and then gets the subscription. One more note is written before, and one
after. -/
def changeAndInstall : List Move :=
  [.write ([2].map noteOf), .workerProcess 0 5, .monitorPop 0, .monitorMsg 0 1, .monitorMsg 0 1,
    .write ([3].map noteOf), .dbChange, .monitorPop 0, .monitorMsg 0 2]

theorem valid_askForElse (first second : MsgIngester) :
    ∀ mv ∈ askForElse first second, mv.Valid changingRelay := by
  have hsub := submitted_noteOf [1]
  intro mv hmv
  simp only [askForElse, toWorker, List.mem_append, List.mem_cons, List.not_mem_nil, or_false] at hmv
  rcases hmv with (rfl | rfl | rfl | rfl | rfl) | rfl | rfl | rfl | rfl | rfl | rfl | rfl
  all_goals first | exact hsub | trivial

theorem valid_changeAndInstall : ∀ mv ∈ changeAndInstall, mv.Valid changingRelay := by
  have hsub₂ := submitted_noteOf [2]
  have hsub₃ := submitted_noteOf [3]
  intro mv hmv
  fin_cases hmv
  · exact hsub₂
  · trivial
  · trivial
  · trivial
  · trivial
  · exact hsub₃
  all_goals trivial

/-- Whether a DBChange that is next comes upon no event that the installed subscription matches, when the
subscription id is not settled. -/
def quiet? (s : Relay) : Bool :=
  match (s.monitors 0).newMsgs with
  | .dbChange :: _ => settled? s || ((s.monitors 0).monitors.installed 1 idA).all fun sub =>
      ((s.monitors 0).txn.event.rowsFrom (startAfter (s.monitors 0).currEventId)).all fun r =>
        !sub.filterGroup.doesMatch r.2
  | _ => true

theorem quiet_of_quiet? {table : List (Bytes × Json)} {n : Nat} (h : quiet? s = true) (s' : Relay) :
    Quiet (small table n) 1 idA s s' := by
  intro hnext
  rw [monitorOf_small] at hnext
  rw [quiet?, hnext, Bool.or_eq_true] at h
  refine h.imp settled?_eq_true_iff.mp fun hall sub hsub r hr => ?_
  rw [monitorOf_small] at hr
  rw [installed, ← monitorOf, monitorOf_small] at hsub
  simp only [Option.all_eq_true, List.all_eq_true, Bool.not_eq_true'] at hall
  exact hall sub hsub r hr

/-- Whether the connection has room for a query under the subscription id. -/
def room? (maxSubs : Nat) (s : Relay) : Bool :=
  decide (¬ maxSubs ≤ Map.size ((((s.workers 0).queries.removeSub 1 idA).conns.lookup 1).getD ∅))

theorem room_of_room? {table : List (Bytes × Json)} {maxSubs : Nat} (hinv : Inv (small table maxSubs) s)
    (h : room? maxSubs s = true) : (s.otherQueries (small table maxSubs) 1 idA).ncard < maxSubs := by
  rw [room?, decide_eq_true_eq] at h
  apply (not_full_iff hinv).mp
  rw [workerOf_small]
  exact h

theorem freshIn_and_quiet (h : (fresh? threeNotes s s' && quiet? s) = true) :
    FreshIn {r | r ∈ threeNotes} s s' ∧ Quiet changingRelay 1 idA s s' := by
  rw [Bool.and_eq_true] at h
  exact ⟨freshIn_of_fresh? h.1, quiet_of_quiet? h.2 s'⟩

/-- The client asks for another kind, and then for all events. The DBChange comes upon a note that the replaced
subscription does not match. -/
theorem resubscription_serves_new_of_three :
    ∃ s₀ s₁ s₂ acts₀ acts k sub sent,
      RunWith changingRelay (FreshIn {r | r ∈ threeNotes}) { db := Db.init } acts₀ s₀ ∧
      (s₀.installed changingRelay sub.connId sub.subId).isSome ∧
      Step changingRelay s₀ (.workerMsg 0 (.newSub k sub)) s₁ ∧
      RunWith changingRelay (fun t t' => FreshIn {r | r ∈ threeNotes} t t' ∧
        Quiet changingRelay sub.connId sub.subId t t') s₁ acts s₂ ∧
      s₂.log = s₀.log ++ sent ∧
      (levIdsOf (sent.filter (Output.isFor sub.connId sub.subId))).Nodup ∧
      (∀ o ∈ sent.filter (Output.isFor sub.connId sub.subId),
        o.Shows {r | r ∈ threeNotes} sub.filterGroup) ∧
      levIdsOf (sent.filter (Output.isFor 1 idA)) = [1, 2, 3] := by
  have hsteps : aroundReq changingRelay (askForElse (fromClient askOtherKind) askForAll) changeAndInstall 5
      (fresh? threeNotes) (fun t t' => fresh? threeNotes t t' && quiet? t)
      (fun s₀ _ s₂ sub => ((s₀.monitors 0).path 1 idA).isEmpty &&
        ((s₀.monitors 0).monitors.installed 1 idA).isSome && forA? sub && room? 20 s₀ &&
        decide (sentBetween s₀ s₂ = [1, 2, 3])) = true := by decide +kernel
  obtain ⟨s₀, s₁, s₂, acts₀, acts, k, sub, hrun₀, hstep, hrun, hno, htest⟩ := steps_of_aroundReq
    (valid_askForElse _ _) valid_changeAndInstall (fun _ _ => freshIn_of_fresh?)
    (fun _ _ => freshIn_and_quiet) hsteps
  simp only [Bool.and_eq_true, decide_eq_true_eq, forA?, List.isEmpty_iff] at htest
  obtain ⟨⟨⟨⟨hpath, hinst⟩, hc, hi⟩, hroom⟩, hsent⟩ := htest
  have hother := room_of_room? (hrun₀.run.inv (inv_start changingRelay Db.init)) hroom
  rw [← hc, ← hi] at hrun hother
  obtain ⟨sent, hlog, honce, hshows⟩ := resubscription_serves_new .refl
    (fun r hr => absurd hr List.not_mem_nil) createdAt_threeNotes hrun₀ (by rw [hc, hi]; exact hpath) hother
    hstep hrun fun w msg hmem => absurd hmem (hno w msg)
  rw [sentBetween_eq hlog] at hsent
  refine ⟨s₀, s₁, s₂, acts₀, acts, k, sub, sent, hrun₀, ?_, hstep, hrun, hlog, honce, hshows, hsent⟩
  rw [hc, hi]
  exact hinst

/-- The client asks for all events, and then for another kind. The monitor still has the first subscription when it
handles the DBChange, and sends the note under the id. -/
theorem replaced_subscription_sends :
    ∃ s₀ s₁ s₂ acts₀ acts k sub sent p,
      RunWith changingRelay (FreshIn {r | r ∈ threeNotes}) { db := Db.init } acts₀ s₀ ∧
      (s₀.monitorOf changingRelay sub.connId).path sub.connId sub.subId = [] ∧
      (s₀.installed changingRelay sub.connId sub.subId).isSome ∧
      (s₀.otherQueries changingRelay sub.connId sub.subId).ncard < changingRelay.maxSubsPerConnection ∧
      Step changingRelay s₀ (.workerMsg 0 (.newSub k sub)) s₁ ∧
      RunWith changingRelay (FreshIn {r | r ∈ threeNotes}) s₁ acts s₂ ∧
      (∀ w msg, .workerMsg w msg ∈ acts → msg.serialFor sub.connId sub.subId = none) ∧
      s₂.log = s₀.log ++ sent ∧ .event .live sub.connId sub.subId 1 (some p) ∈ sent ∧
      sub.filterGroup.doesMatch p = false := by
  -- the DBChange is ahead of the NewSub in the inbox, and the note is for the first filter alone
  have hsteps : aroundReq changingRelay (askForElse askForAll (fromClient askOtherKind)) installNewSub 5
      (fresh? threeNotes) (fresh? threeNotes)
      (fun s₀ _ s₂ sub => ((s₀.monitors 0).path 1 idA).isEmpty &&
        ((s₀.monitors 0).monitors.installed 1 idA).isSome && forA? sub && room? 20 s₀ &&
        decide (.event .live 1 idA 1 (some (noteOf 1).packed) ∈ s₂.log.drop s₀.log.length) &&
        !sub.filterGroup.doesMatch (noteOf 1).packed) = true := by decide +kernel
  obtain ⟨s₀, s₁, s₂, acts₀, acts, k, sub, hrun₀, hstep, hrun, hno, htest⟩ := steps_of_aroundReq
    (valid_askForElse _ _) (valid_installNewSub _) (fun _ _ => freshIn_of_fresh?)
    (fun _ _ => freshIn_of_fresh?) hsteps
  simp only [Bool.and_eq_true, decide_eq_true_eq, forA?, List.isEmpty_iff, Bool.not_eq_true'] at htest
  obtain ⟨⟨⟨⟨⟨hpath, hinst⟩, hc, hi⟩, hroom⟩, hsent⟩, hm⟩ := htest
  have hother := room_of_room? (hrun₀.run.inv (inv_start changingRelay Db.init)) hroom
  obtain ⟨more, hmore⟩ := hstep.log_eq
  obtain ⟨sent, hlog⟩ := hrun.run.log_eq
  have hall : s₂.log = s₀.log ++ (more ++ sent) := by rw [hlog, hmore, List.append_assoc]
  rw [hall, List.drop_left] at hsent
  refine ⟨s₀, s₁, s₂, acts₀, acts, k, sub, more ++ sent, (noteOf 1).packed, hrun₀, ?_, ?_, ?_, hstep, hrun,
    fun w msg hmem => absurd hmem (hno w msg), hall, ?_, hm⟩
  · rw [hc, hi]
    exact hpath
  · rw [hc, hi]
    exact hinst
  · rw [hc, hi]
    exact hother
  · rw [hc, hi]
    exact hsent

end Relay

end Strfry
