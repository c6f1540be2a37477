import Strfry.SubscriptionParts

/-!
# From the stored events to the live ones

Along a run no event is sent twice to a subscription, and all events that match and stay stored have been sent up
to the `currEventId` of the monitor (`Relay.stored_to_live`). For a REQ with the id of a subscription that is
installed this needs that the monitor handles no DBChange until it has the new one
(`Relay.resubscription_replaces`).
-/

set_option autoImplicit false

namespace Strfry

open Lib LookupTables

namespace Relay

variable {cfg : RelayConfig} {E : Set (Nat × PackedEvent)} {g : NostrFilterGroup} {s s' : Relay}
  {c : Nat} {i : SubId} {out : List Output} {L : Nat} {A R : Prop}

/-! ## Runs -/

theorem RunWith.trans {Q : Relay → Relay → Prop} {s₁ s₂ : Relay} {acts acts' : List Action}
    (h : RunWith cfg Q s acts s₁) (h' : RunWith cfg Q s₁ acts' s₂) : RunWith cfg Q s (acts ++ acts') s₂ := by
  induction h' with
  | refl =>
    rw [List.append_nil]
    exact h
  | tail _ hstep hok ih =>
    rw [← List.append_assoc]
    exact ih.tail hstep hok

theorem Step.between {act : Action} (hstep : Step cfg s act s') (hinv : Inv cfg s) (hsnap : Snapshots E s)
    (hfresh : FreshIn E s s') (hground : Grounded E s') (hE : ∀ r ∈ E, r.2.createdAt < 2 ^ 40) (c : Nat) :
    Between cfg E c s s' where
  fresh := hfresh
  highest := hstep.highest_le
  since := fun _ _ h => h.step hstep hfresh hground hE
  txn := by
    intro txn htxn
    rcases hstep.txn_cases (c % cfg.numReqWorker) with heq | heq | heq
    · exact .inl (heq.symm.trans htxn)
    · cases heq.symm.trans htxn
    · cases heq.symm.trans htxn
      exact .inr rfl
  sees := hsnap.monitor _
  monitors := hinv.monitors _

theorem RunWith.imp {Q Q' : Relay → Relay → Prop} {acts : List Action} (h : RunWith cfg Q s acts s')
    (hQ : ∀ t t', Q t t' → Q' t t') : RunWith cfg Q' s acts s' := by
  induction h with
  | refl => exact .refl
  | tail _ hstep hok ih => exact ih.tail hstep (hQ _ _ hok)

/-- The run lemma. -/
theorem Handoff.run {db : Db} {s₁ s₂ : Relay} {acts₀ acts : List Action}
    (hdb : StoreReachable cfg.ord cfg.hex cfg.text db) (hwithin : ∀ r ∈ db.event.rows, r ∈ E)
    (hE : ∀ r ∈ E, r.2.createdAt < 2 ^ 40) (hcur : A → ∀ f ∈ g.filters, DBScan.numCursors f ≤ 2 ^ 24)
    (hrun₀ : RunWith cfg (FreshIn E) { db := db } acts₀ s₁) (h : Handoff cfg A R E g c i s₁ out L)
    (hrun : RunWith cfg (fun t t' => FreshIn E t t' ∧ (R → Quiet cfg c i t t')) s₁ acts s₂)
    (hother : ∀ w msg, .workerMsg w msg ∈ acts → msg.serialFor c i = none) :
    ∃ sent, s₂.log = s₁.log ++ sent ∧
      Handoff cfg A R E g c i s₂ (out ++ sent.filter (Output.isFor c i)) L := by
  induction hrun with
  | refl =>
    refine ⟨[], (List.append_nil _).symm, ?_⟩
    rw [List.filter_nil, List.append_nil]
    exact h
  | @tail s₂ s₃ acts act hrun hstep hok ih =>
    obtain ⟨hfresh, hquiet⟩ := hok
    obtain ⟨sent, hlog, hhand⟩ := ih fun w msg hmem => hother w msg (List.mem_append_left _ hmem)
    have hall := hrun₀.trans (hrun.imp fun _ _ hok => hok.1)
    have hinv := hall.run.inv (inv_start cfg db)
    have hb := hstep.between hinv (snapshots_of_run hdb hwithin hE hall) hfresh
      (grounded_of_run hdb hwithin (hall.tail hstep hfresh)).2 hE c
    have hkey : KeyStep cfg s₂ act s₃ c i := hstep.key hinv fun w msg heq =>
      hother w msg (heq ▸ List.mem_append_right _ (List.mem_singleton_self _))
    obtain ⟨more, hmore, hhand'⟩ := hhand.step hb hcur hkey hquiet
    refine ⟨sent ++ more, by rw [hmore, hlog, List.append_assoc], ?_⟩
    rw [List.filter_append, ← List.append_assoc]
    exact hhand'

/-! ### The start -/

/-- What is said of the database does not depend on the threads. -/
theorem Since.setWorker {history : History} {w : Nat} {th : ReqWorker} :
    Since E L history (s.setWorker w th) ↔ Since E L history s :=
  ⟨fun h => ⟨h.now, h.snapshot, h.payload, h.ever, h.levId, h.latest, h.kept⟩,
    fun h => ⟨h.now, h.snapshot, h.payload, h.ever, h.levId, h.latest, h.kept⟩⟩

/-- The queries of a worker thread may be changed before the step. -/
theorem Between.setWorker (hb : Between cfg E c s s') (w : Nat) (queries : QueryScheduler) :
    Between cfg E c (s.setWorker w { s.workers w with queries := queries }) s' where
  fresh := ⟨hb.fresh.new, hb.fresh.within⟩
  highest := hb.highest
  since := fun L history h => hb.since L history (Since.setWorker.mp h)
  txn := by
    intro txn htxn
    refine (hb.txn txn htxn).imp_left fun hold => ?_
    rw [← hold]
    simp only [workerOf, Relay.setWorker, Function.update_apply]
    split
    · rename_i hw
      rw [hw]
    · rfl
  sees := ⟨hb.sees.lastKey_le, hb.sees.rows, hb.sees.within, hb.sees.currEventId⟩
  monitors := hb.monitors

theorem afterWorker_setWorker {w : Nat} (th th' : ReqWorker) (step : WorkerStep) :
    (s.setWorker w th').afterWorker cfg w th step = s.afterWorker cfg w th step := by
  simp only [afterWorker, Relay.setWorker, Function.update_idem]

/-- A worker gets the NewSub. If an older subscription with the same id is installed, the worker must not refuse
the new one. -/
theorem handoff_start {w k : Nat} {sub : Subscription}
    (hpath : (s.monitorOf cfg sub.connId).path sub.connId sub.subId = [])
    (hinst : R ∨ s.installed cfg sub.connId sub.subId = none)
    (htaken : R → ¬ ((s.workerOf cfg sub.connId).queries.Full cfg.maxSubsPerConnection sub.connId sub.subId ∧
      Settled cfg s' sub.connId sub.subId))
    (hb : Between cfg E sub.connId s s') (hinv : Inv cfg s) (hsnap : Snapshots E s)
    (hcur : A → ∀ f ∈ sub.filterGroup.filters, DBScan.numCursors f ≤ 2 ^ 24)
    (hlimit : A → ∀ txn, (s.workerOf cfg sub.connId).txn = some txn → ∀ f ∈ sub.filterGroup.filters,
      (txn.event.rows.filter fun r => f.doesMatch r.2).length < f.limit)
    (hstep : Step cfg s (.workerMsg w (.newSub k sub)) s') :
    ∃ txn sent, (s.workerOf cfg sub.connId).txn = some txn ∧ s'.log = s.log ++ sent ∧
      Handoff cfg A R E sub.filterGroup sub.connId sub.subId s'
        (sent.filter (Output.isFor sub.connId sub.subId)) txn.event.lastKey := by
  cases hstep with
  | @workerMsg w txn msg rest q n step opened next unused handled =>
    have hw : sub.connId % cfg.numReqWorker = w := by
      by_contra hw
      have hnil := (hinv.workerOwns w _ hw).2 sub.subId
      rw [ReqWorker.path, next, List.cons_append, List.append_eq_nil_iff,
        List.filterMap_cons_some (b := k)] at hnil
      · cases hnil.2
      · rw [MsgReqWorker.serialFor, if_pos ⟨rfl, rfl⟩]
    subst hw
    have hm := hinv.moves_workerMsg next unused handled
    obtain ⟨step', hp, rfl⟩ := Option.map_eq_some_iff.mp handled
    obtain ⟨b, queries', heq, hinv', hlive, -⟩ := QueryScheduler.addSub_spec (hinv.queries _)
      cfg.maxSubsPerConnection txn unused k sub
    have hfull : b = false ↔ (s.workers (sub.connId % cfg.numReqWorker)).queries.Full cfg.maxSubsPerConnection
        sub.connId sub.subId := by
      rw [← QueryScheduler.addSub_refused_iff cfg.maxSubsPerConnection txn _ q k sub, heq]
    rw [heq] at hp hm hb htaken
    rw [heq]
    obtain ⟨history, hhistory⟩ := hsnap.worker _ txn opened
    -- the state in which the query is known, and has not run
    let s₀ := s.setWorker (sub.connId % cfg.numReqWorker)
      { s.workers (sub.connId % cfg.numReqWorker) with queries := queries' }
    have hqueries : (s₀.workerOf cfg sub.connId).queries = queries' := by
      simp only [s₀, workerOf, Relay.setWorker, Function.update_self]
    have hopened : (s₀.workerOf cfg sub.connId).txn = some txn := by
      simp only [s₀, workerOf, Relay.setWorker, Function.update_self]
      exact opened
    have hlive₀ := hlive sub.connId sub.subId
    rw [if_pos ⟨rfl, rfl⟩, ← hqueries] at hlive₀
    -- the step goes on from there
    have hcase := key_of_notice (filter_tooMany b sub.connId _ _)
      (workerProcess_key hinv' hp sub.connId sub.subId)
    rw [← hqueries] at hcase
    have hkey : KeyStep cfg s₀ (.workerMsg (sub.connId % cfg.numReqWorker) (.newSub k sub))
        (s₀.afterWorker cfg (sub.connId % cfg.numReqWorker)
          { s.workers (sub.connId % cfg.numReqWorker) with newMsgs := rest } _) sub.connId sub.subId :=
      keyStep_afterWorker (fun hw => absurd rfl hw) hopened hm.keyed hcase
    rw [afterWorker_setWorker] at hkey
    have hstart : Handoff cfg A R E sub.filterGroup sub.connId sub.subId s₀ [] txn.event.lastKey := by
      cases b with
      | true =>
        have hanswering : Answering cfg A E sub.filterGroup s₀ [] txn.event.lastKey history
            (QueryScheduler.newQuery txn k sub).query [] :=
          ⟨Since.setWorker.mpr hhistory.toSince, rfl, rfl, DBQuery.sound_start history _,
            fun hA f hf => (hhistory.ncard_le f).trans_lt (hlimit hA txn opened f hf),
            fun hA => tracks_start hhistory.ok (List.ne_nil_of_mem hhistory.mem) _ (hcur hA),
            fun o ho => absurd ho List.not_mem_nil, fun o ho => absurd ho List.not_mem_nil, List.Sublist.refl _,
            fun r _ hcall => absurd hcall List.not_mem_nil⟩
        suffices hquery : Querying cfg A R E sub.filterGroup sub.connId sub.subId s₀ [] txn.event.lastKey history
            (QueryScheduler.newQuery txn k sub) [] from hquery.handoff
        refine ⟨hanswering, fun txn' htxn => ?_, hlive₀, rfl, rfl, hpath, hinst⟩
        cases hopened.symm.trans htxn
        exact hhistory.mem
      | false =>
        have hnone := hinst.resolve_left fun hR => htaken hR ⟨hfull.mp rfl, hkey.settled ⟨hlive₀, hpath⟩⟩
        exact ⟨List.nodup_nil, fun o ho => absurd ho List.not_mem_nil, .ended ⟨hlive₀, hpath, hnone,
          hhistory.latest, fun _ hne => absurd rfl hne, .inl rfl⟩⟩
    have hb₀ := hb.setWorker (sub.connId % cfg.numReqWorker) queries'
    obtain ⟨sent, hlog, hhand⟩ := hstart.step hb₀ hcur hkey fun _ heq => by
      rw [monitorOf, monitorOf, monitors_afterWorker] at heq
      exact absurd heq.symm (List.cons_ne_self _ _)
    exact ⟨txn, sent, opened, hlog, hhand⟩

/-! ## From stored to live -/

/-- What a client has been sent for a subscription whose query was made for the levIds up to `L`. After the
EOSE it has all events of the query that are still stored, and while the subscription is installed, all that
the monitor has seen. -/
structure SentFor (cfg : RelayConfig) (E : Set (Nat × PackedEvent)) (g : NostrFilterGroup) (c : Nat)
    (i : SubId) (L : Nat) (s : Relay) (out : List Output) : Prop where
  once : (levIdsOf out).Nodup
  matching : ∀ x ∈ levIdsOf out, ∃ r ∈ E, r.1 = x ∧ g.doesMatch r.2 = true
  order : InOrder out
  stored : (∃ k, .eose k c i ∈ out) → ∀ r ∈ s.db.event.rows, g.doesMatch r.2 = true → r.1 ≤ L →
    r.1 ∈ levIdsOf out
  live : Settled cfg s c i → (s.installed cfg c i).isSome → ∀ r ∈ s.db.event.rows,
    g.doesMatch r.2 = true → (r.1 : WithTop Nat) ≤ (s.monitorOf cfg c).currEventId → r.1 ∈ levIdsOf out

theorem Handoff.sentFor (h : Handoff cfg True R E g c i s out L) : SentFor cfg E g c i L s out := by
  cases h.progress with
  | querying hp =>
    refine ⟨h.once, fun _ => exists_of_shows h.shows, .inl hp.stored, ?_, fun hset => ?_⟩
    · rintro ⟨k, hk⟩
      cases hp.stored _ hk
    · cases hset.live.symm.trans hp.live
  | waiting hp =>
    refine ⟨h.once, fun _ => exists_of_shows h.shows, .inr hp.order, fun _ => hp.all trivial, fun hset => ?_⟩
    cases hset.path.symm.trans hp.path
  | monitored hp =>
    refine ⟨h.once, fun _ => exists_of_shows h.shows, .inr hp.order, fun _ r hr hm hle => ?_,
      fun _ _ r hr hm hle => ?_⟩
    · exact hp.all trivial r hr hm (hle.trans hp.le)
    · exact hp.all trivial r hr hm (WithTop.coe_le_coe.mp (hle.trans hp.curr))
  | ended hp =>
    refine ⟨h.once, fun _ => exists_of_shows h.shows, ?_, ?_, fun _ hsome => ?_⟩
    · rcases hp.order with rfl | horder
      · exact .inl fun o ho => absurd ho List.not_mem_nil
      · exact .inr horder
    · rintro ⟨k, hk⟩
      exact hp.all trivial (List.ne_nil_of_mem hk)
    · rw [hp.installed] at hsome
      cases hsome

/-- Without an older subscription, one that is installed is the new one. -/
theorem Handoff.settled (h : Handoff cfg A R E g c i s out L) (hR : ¬ R) (hsome : (s.installed cfg c i).isSome) :
    Settled cfg s c i := by
  -- before the monitor gets the NewSub nothing is installed
  have hnone : (R ∨ s.installed cfg c i = none) → Settled cfg s c i := by
    intro hor
    rw [hor.resolve_left hR] at hsome
    cases hsome
  cases h.progress with
  | querying hp => exact hnone hp.installed
  | waiting hp => exact hnone hp.installed
  | monitored hp => exact ⟨hp.gone, hp.path⟩
  | ended hp => exact ⟨hp.gone, hp.path⟩

/-- A step that leaves the database alone. -/
theorem freshIn_of_db_eq (h : s'.db = s.db) (hground : Grounded E s) : FreshIn E s s' where
  new := by
    rw [h]
    exact fun r hr => .inl hr
  within := by
    rw [h]
    exact hground.within

/-- From the step in which a worker gets the NewSub. -/
theorem handoff_of_run {db : Db} {s₀ s₁ s₂ : Relay} {acts₀ acts : List Action} {w k : Nat}
    {sub : Subscription} (hdb : StoreReachable cfg.ord cfg.hex cfg.text db)
    (hwithin : ∀ r ∈ db.event.rows, r ∈ E) (hE : ∀ r ∈ E, r.2.createdAt < 2 ^ 40)
    (hcur : A → ∀ f ∈ sub.filterGroup.filters, DBScan.numCursors f ≤ 2 ^ 24)
    (hrun₀ : RunWith cfg (FreshIn E) { db := db } acts₀ s₀)
    (hlimit : A → ∀ txn, (s₀.workerOf cfg sub.connId).txn = some txn → ∀ f ∈ sub.filterGroup.filters,
      (txn.event.rows.filter fun r => f.doesMatch r.2).length < f.limit)
    (hpath : (s₀.monitorOf cfg sub.connId).path sub.connId sub.subId = [])
    (hinst : R ∨ s₀.installed cfg sub.connId sub.subId = none)
    (hstep : Step cfg s₀ (.workerMsg w (.newSub k sub)) s₁)
    (htaken : R → ¬ ((s₀.workerOf cfg sub.connId).queries.Full cfg.maxSubsPerConnection sub.connId sub.subId ∧
      Settled cfg s₁ sub.connId sub.subId))
    (hrun : RunWith cfg (fun t t' => FreshIn E t t' ∧ (R → Quiet cfg sub.connId sub.subId t t')) s₁ acts s₂)
    (hother : ∀ w msg, .workerMsg w msg ∈ acts → msg.serialFor sub.connId sub.subId = none) :
    ∃ txn sent, (s₀.workerOf cfg sub.connId).txn = some txn ∧ s₂.log = s₀.log ++ sent ∧
      Handoff cfg A R E sub.filterGroup sub.connId sub.subId s₂
        (sent.filter (Output.isFor sub.connId sub.subId)) txn.event.lastKey := by
  have hinv := hrun₀.run.inv (inv_start cfg db)
  have hsnap := snapshots_of_run hdb hwithin hE hrun₀
  have hact : Action.workerMsg w (.newSub k sub) ≠ .commit := by rintro ⟨⟩
  -- the REQ itself commits nothing
  have hfresh := freshIn_of_db_eq (hstep.db_eq hact) (grounded_of_run hdb hwithin hrun₀).2
  have hrun₁ := hrun₀.tail hstep hfresh
  have hb := hstep.between hinv hsnap hfresh (grounded_of_run hdb hwithin hrun₁).2 hE sub.connId
  obtain ⟨txn, sent, htxn, hlog, hhand⟩ := handoff_start hpath hinst htaken hb hinv hsnap hcur hlimit hstep
  obtain ⟨more, hmore, hhand'⟩ := hhand.run hdb hwithin hE hcur hrun₁ hrun hother
  refine ⟨txn, sent ++ more, htxn, by rw [hmore, hlog, List.append_assoc], ?_⟩
  rw [List.filter_append]
  exact hhand'

/-- A limit that is larger than the number of events that match in the run is larger than the number of those in
a transaction. -/
theorem Answerable.limit_of_run (hg : Answerable E g) {db : Db} {acts : List Action}
    (hdb : StoreReachable cfg.ord cfg.hex cfg.text db) (hwithin : ∀ r ∈ db.event.rows, r ∈ E)
    (hE : ∀ r ∈ E, r.2.createdAt < 2 ^ 40) (hrun : RunWith cfg (FreshIn E) { db := db } acts s) {txn : Store}
    (htxn : (s.workerOf cfg c).txn = some txn) {f : NostrFilter} (hf : f ∈ g.filters) :
    (txn.event.rows.filter fun r => f.doesMatch r.2).length < f.limit := by
  -- the events of the transaction are among those of the run, and each has its own levId
  obtain ⟨history, hhistory⟩ := (snapshots_of_run hdb hwithin hE hrun).worker _ txn htxn
  have hnodup : ((txn.event.rows.filter fun r => f.doesMatch r.2).map Prod.fst).Nodup :=
    txn.event.nodup_keys.sublist (List.Sublist.map _ List.filter_sublist)
  have hsub : (((txn.event.rows.filter fun r => f.doesMatch r.2).map Prod.fst).toFinset : Set Nat) ⊆
      {levId | ∃ r ∈ E, r.1 = levId ∧ f.doesMatch r.2 = true} := by
    intro levId hmem
    obtain ⟨r, hr, rfl⟩ := List.mem_map.mp (List.mem_toFinset.mp hmem)
    obtain ⟨hrow, hm⟩ := List.mem_filter.mp hr
    exact ⟨r, (hhistory.ever r ⟨txn, hhistory.mem, hrow⟩).1, rfl, hm⟩
  have hle := Set.ncard_le_ncard hsub (hg.finite f hf)
  rw [Set.ncard_coe_finset, List.toFinset_card_of_nodup hnodup, List.length_map] at hle
  exact hle.trans_lt (hg.limit f hf)

/-- No event is sent twice, and none is lost, on the way from the stored events to the live ones. -/
theorem stored_to_live {db : Db} {s₀ s₁ s₂ : Relay} {acts₀ acts : List Action} {w k : Nat}
    {sub : Subscription} (hdb : StoreReachable cfg.ord cfg.hex cfg.text db)
    (hwithin : ∀ r ∈ db.event.rows, r ∈ E) (hE : ∀ r ∈ E, r.2.createdAt < 2 ^ 40)
    (hg : Answerable E sub.filterGroup) (hrun₀ : RunWith cfg (FreshIn E) { db := db } acts₀ s₀)
    (hpath : (s₀.monitorOf cfg sub.connId).path sub.connId sub.subId = [])
    (hinst : s₀.installed cfg sub.connId sub.subId = none)
    (hstep : Step cfg s₀ (.workerMsg w (.newSub k sub)) s₁) (hrun : RunWith cfg (FreshIn E) s₁ acts s₂)
    (hother : ∀ w msg, .workerMsg w msg ∈ acts → msg.serialFor sub.connId sub.subId = none) :
    ∃ txn sent, (s₀.workerOf cfg sub.connId).txn = some txn ∧ s₂.log = s₀.log ++ sent ∧
      SentFor cfg E sub.filterGroup sub.connId sub.subId txn.event.lastKey s₂
        (sent.filter (Output.isFor sub.connId sub.subId)) ∧
      ((s₂.installed cfg sub.connId sub.subId).isSome → Settled cfg s₂ sub.connId sub.subId) := by
  obtain ⟨txn, sent, htxn, hlog, hhand⟩ := handoff_of_run (A := True) (R := False) hdb hwithin hE
    (fun _ => hg.cursors) hrun₀ (fun _ _ htxn _ => hg.limit_of_run hdb hwithin hE hrun₀ htxn) hpath (.inr hinst)
    hstep False.elim (hrun.imp fun _ _ hfresh => ⟨hfresh, False.elim⟩) hother
  exact ⟨txn, sent, htxn, hlog, hhand.sentFor, hhand.settled not_false⟩

/-- A REQ with the id of a subscription that is installed replaces it, if the worker does not refuse it, and the
monitor handles no DBChange until it has the new subscription. -/
theorem resubscription_replaces {db : Db} {s₀ s₁ s₂ : Relay} {acts₀ acts : List Action} {w k : Nat}
    {sub : Subscription} (hdb : StoreReachable cfg.ord cfg.hex cfg.text db)
    (hwithin : ∀ r ∈ db.event.rows, r ∈ E) (hE : ∀ r ∈ E, r.2.createdAt < 2 ^ 40)
    (hg : Answerable E sub.filterGroup) (hrun₀ : RunWith cfg (FreshIn E) { db := db } acts₀ s₀)
    (hpath : (s₀.monitorOf cfg sub.connId).path sub.connId sub.subId = [])
    (hstep : Step cfg s₀ (.workerMsg w (.newSub k sub)) s₁)
    (htaken : ¬ Settled cfg s₁ sub.connId sub.subId)
    (hrun : RunWith cfg (fun t t' => FreshIn E t t' ∧ Calm cfg sub.connId sub.subId t t') s₁ acts s₂)
    (hother : ∀ w msg, .workerMsg w msg ∈ acts → msg.serialFor sub.connId sub.subId = none) :
    ∃ txn sent, (s₀.workerOf cfg sub.connId).txn = some txn ∧ s₂.log = s₀.log ++ sent ∧
      SentFor cfg E sub.filterGroup sub.connId sub.subId txn.event.lastKey s₂
        (sent.filter (Output.isFor sub.connId sub.subId)) := by
  obtain ⟨txn, sent, htxn, hlog, hhand⟩ := handoff_of_run (A := True) (R := True) hdb hwithin hE
    (fun _ => hg.cursors) hrun₀ (fun _ _ htxn _ => hg.limit_of_run hdb hwithin hE hrun₀ htxn) hpath (.inl trivial)
    hstep (fun _ hboth => htaken hboth.2) (hrun.imp fun _ _ hok => ⟨hok.1, fun _ => hok.2.quiet⟩) hother
  exact ⟨txn, sent, htxn, hlog, hhand.sentFor⟩

/-! ### Three events -/

/-- A list of moves after each of which a check succeeds. -/
def execIf (cfg : RelayConfig) (check : Relay → Relay → Bool) :
    List Move → Relay → Option (List Action × Relay)
  | [], s => some ([], s)
  | mv :: mvs, s =>
    match exec cfg s mv with
    | none => none
    | some (act, s') => if check s s' then (execIf cfg check mvs s').map fun r => (act :: r.1, r.2) else none

theorem execIf_run {check : Relay → Relay → Bool} {Q : Relay → Relay → Prop}
    (hcheck : ∀ t t', check t t' = true → Q t t') {mvs : List Move} {acts : List Action}
    (hv : ∀ mv ∈ mvs, mv.Valid cfg) (h : execIf cfg check mvs s = some (acts, s')) :
    RunWith cfg Q s acts s' := by
  induction mvs generalizing s acts with
  | nil =>
    cases h
    exact .refl
  | cons mv mvs ih =>
    rw [execIf] at h
    split at h
    · cases h
    · rename_i act s₁ hexec
      split at h
      · rename_i hok
        obtain ⟨⟨acts', s₂⟩, hrest, heq⟩ := Option.map_eq_some_iff.mp h
        cases heq
        have hstep := exec_step (hv mv List.mem_cons_self) hexec
        exact (RunWith.refl.tail hstep (hcheck _ _ hok)).trans
          (ih (fun mv' hmv' => hv mv' (List.mem_cons_of_mem _ hmv')) hrest)
      · cases h

/-- A REQ that is handled by the worker. -/
def Action.newSub? : Action → Option (Nat × Nat × Subscription)
  | .workerMsg w (.newSub k sub) => some (w, k, sub)
  | _ => none

theorem Action.eq_of_newSub? {act : Action} {w k : Nat} {sub : Subscription}
    (h : act.newSub? = some (w, k, sub)) : act = .workerMsg w (.newSub k sub) := by
  unfold newSub? at h
  split at h
  · cases h
    rfl
  · cases h

/-- A message that is handled by a worker. -/
def Action.isWorkerMsg : Action → Bool
  | .workerMsg _ _ => true
  | _ => false

/-- Between the moves the worker gets a REQ, whose query has `n` iterations, and no worker gets another message
after it. The test is made on the states before the REQ, after it and at the end. -/
def aroundReq (cfg : RelayConfig) (before after : List Move) (n : Nat) (check check' : Relay → Relay → Bool)
    (test : Relay → Relay → Relay → Subscription → Bool) : Bool :=
  (execIf cfg check before { db := Db.init }).any fun r₀ =>
    (exec cfg r₀.2 (.workerMsg 0 1 n)).any fun r₁ =>
      (execIf cfg check' after r₁.2).any fun r₂ =>
        r₁.1.newSub?.any fun x =>
          decide (x.1 = 0) && r₂.1.all (fun a => !a.isWorkerMsg) && test r₀.2 r₁.2 r₂.2 x.2.2

theorem steps_of_aroundReq {before after : List Move} {n : Nat} {check check' : Relay → Relay → Bool}
    {Q Q' : Relay → Relay → Prop} {test : Relay → Relay → Relay → Subscription → Bool}
    (hbefore : ∀ mv ∈ before, mv.Valid cfg) (hafter : ∀ mv ∈ after, mv.Valid cfg)
    (hcheck : ∀ t t', check t t' = true → Q t t') (hcheck' : ∀ t t', check' t t' = true → Q' t t')
    (h : aroundReq cfg before after n check check' test = true) :
    ∃ s₀ s₁ s₂ acts₀ acts k sub, RunWith cfg Q { db := Db.init } acts₀ s₀ ∧
      Step cfg s₀ (.workerMsg 0 (.newSub k sub)) s₁ ∧ RunWith cfg Q' s₁ acts s₂ ∧
      (∀ w msg, .workerMsg w msg ∉ acts) ∧ test s₀ s₁ s₂ sub = true := by
  obtain ⟨⟨acts₀, s₀⟩, hrun₀, h⟩ := (Option.any_eq_true _ _).mp h
  obtain ⟨⟨act, s₁⟩, hexec, h⟩ := (Option.any_eq_true _ _).mp h
  obtain ⟨⟨acts, s₂⟩, hrun, h⟩ := (Option.any_eq_true _ _).mp h
  obtain ⟨⟨w, k, sub⟩, hact, h⟩ := (Option.any_eq_true _ _).mp h
  simp only [Bool.and_eq_true, decide_eq_true_eq] at h
  obtain ⟨⟨hw, hothers⟩, htest⟩ := h
  subst hw
  have hstep := exec_step (show Move.Valid cfg (.workerMsg 0 1 n) from trivial) hexec
  have hname : act = .workerMsg 0 (.newSub k sub) := Action.eq_of_newSub? hact
  rw [hname] at hstep
  refine ⟨s₀, s₁, s₂, acts₀, acts, k, sub, execIf_run hcheck hbefore hrun₀, hstep,
    execIf_run hcheck' hafter hrun, fun w msg hmem => ?_, htest⟩
  have hno := List.all_eq_true.mp hothers _ hmem
  cases hno

/-- The events of the runs. -/
def threeNotes : List (Nat × PackedEvent) :=
  [(1, (noteOf 1).packed), (2, (noteOf 2).packed), (3, (noteOf 3).packed)]

/-- Whether the step gives no levId twice, and has no other events. -/
def fresh? (events : List (Nat × PackedEvent)) (s s' : Relay) : Bool :=
  s'.db.event.rows.all fun r =>
    (s.db.event.rows.any (fun r' => decide (r = r')) || decide (s.highest < r.1)) &&
      events.any fun r' => decide (r = r')

theorem freshIn_of_fresh? {events : List (Nat × PackedEvent)} (h : fresh? events s s' = true) :
    FreshIn {r | r ∈ events} s s' := by
  simp only [fresh?, List.all_eq_true, Bool.and_eq_true, Bool.or_eq_true, List.any_eq_true,
    decide_eq_true_eq] at h
  refine ⟨fun r hr => (h r hr).1.imp_left ?_, fun r hr => ?_⟩
  · rintro ⟨r', hr', rfl⟩
    exact hr'
  · obtain ⟨r', hr', rfl⟩ := (h r hr).2
    exact hr'

/-- Whether the subscription id `a` of the connection 1 is settled. -/
def settled? (s : Relay) : Bool :=
  ((s.workers 0).queries.live 1 idA).isNone && ((s.monitors 0).path 1 idA).isEmpty

theorem workerOf_small (table : List (Bytes × Json)) (n : Nat) (s : Relay) :
    s.workerOf (small table n) 1 = s.workers 0 := by
  rw [workerOf, small, Nat.mod_one]

theorem monitorOf_small (table : List (Bytes × Json)) (n : Nat) (s : Relay) :
    s.monitorOf (small table n) 1 = s.monitors 0 := by
  rw [monitorOf, small, Nat.mod_one]

theorem settled?_eq_true_iff {table : List (Bytes × Json)} {n : Nat} :
    settled? s = true ↔ Settled (small table n) s 1 idA := by
  simp only [settled?, Bool.and_eq_true, Option.isNone_iff_eq_none, List.isEmpty_iff]
  rw [← workerOf_small table n, ← monitorOf_small table n]
  exact ⟨fun h => ⟨h.1, h.2⟩, fun h => ⟨h.live, h.path⟩⟩

/-- Whether a DBChange is next only when the subscription id is settled. -/
def calm? (s : Relay) : Bool :=
  match (s.monitors 0).newMsgs with
  | .dbChange :: _ => settled? s
  | _ => true

theorem calm_of_calm? (h : calm? s = true) (s' : Relay) : Calm reuseRelay 1 idA s s' := by
  intro hnext
  have hnext' : (s.monitors 0).newMsgs = .dbChange :: (s'.monitorOf reuseRelay 1).newMsgs := hnext
  rw [calm?, hnext'] at h
  exact settled?_eq_true_iff.mp h

theorem freshIn_and_calm (h : (fresh? threeNotes s s' && calm? s) = true) :
    FreshIn {r | r ∈ threeNotes} s s' ∧ Calm reuseRelay 1 idA s s' := by
  rw [Bool.and_eq_true] at h
  exact ⟨freshIn_of_fresh? h.1, calm_of_calm? h.2 s'⟩

/-- Whether the subscription is for `a`. -/
def forA? (sub : Subscription) : Bool := decide (sub.connId = 1) && decide (sub.subId = idA)

/-- Whether the subscription is for `a`, and has no more cursors and no less limit than is needed. -/
def asked? (sub : Subscription) : Bool :=
  forA? sub && sub.filterGroup.filters.all fun f => decide (3 < f.limit) && decide (DBScan.numCursors f ≤ 2 ^ 24)

/-- Three events are less than the limit. -/
theorem answerable_of_asked? {sub : Subscription} (h : asked? sub = true) :
    sub.connId = 1 ∧ sub.subId = idA ∧ Answerable {r | r ∈ threeNotes} sub.filterGroup := by
  simp only [asked?, forA?, Bool.and_eq_true, decide_eq_true_eq, List.all_eq_true] at h
  obtain ⟨⟨hc, hi⟩, hfilters⟩ := h
  have hsubset : ∀ f : NostrFilter, {levId | ∃ r ∈ {r | r ∈ threeNotes}, r.1 = levId ∧
      f.doesMatch r.2 = true} ⊆ ({1, 2, 3} : Finset Nat) := by
    rintro f levId ⟨r, hr, rfl, -⟩
    rcases List.mem_cons.mp hr with rfl | hr
    · decide
    rcases List.mem_cons.mp hr with rfl | hr
    · decide
    cases List.mem_singleton.mp hr
    decide
  refine ⟨hc, hi, fun f _ => (Finset.finite_toSet _).subset (hsubset f), fun f hf => ?_,
    fun f hf => (hfilters f hf).2⟩
  have hle := Set.ncard_le_ncard (hsubset f) (Finset.finite_toSet _)
  rw [Set.ncard_coe_finset] at hle
  exact lt_of_le_of_lt hle (hfilters f hf).1

theorem createdAt_threeNotes : ∀ r ∈ {r | r ∈ threeNotes}, r.2.createdAt < 2 ^ 40 := by
  have hall : ∀ r ∈ threeNotes, r.2.createdAt < 2 ^ 40 := by decide
  exact hall

/-- The levIds of the events that the client has been sent between two states. -/
def sentBetween (s s' : Relay) : List Nat :=
  levIdsOf ((s'.log.drop s.log.length).filter (Output.isFor 1 idA))

theorem sentBetween_eq {sent : List Output} (h : s'.log = s.log ++ sent) :
    sentBetween s s' = levIdsOf (sent.filter (Output.isFor 1 idA)) := by
  rw [sentBetween, h, List.drop_left]

/-- The client asks for all events. -/
def askForAll : MsgIngester := fromClient (reqA "\x7b\x7d" (.object []))

/-- One event is stored when the client asks. -/
def askForStored : List Move :=
  [.write ([1].map noteOf), .receive askForAll, .ingest 0, .workerPop 0]

/-- The client asks, and asks again when the subscription is installed. -/
def askAgain : List Move :=
  .write ([1].map noteOf) :: toWorker askForAll 0 5 ++
    [.monitorPop 0, .monitorMsg 0 0, .receive askForAll, .ingest 0, .workerPop 0]

/-- A second event is written before the monitor has the subscription, and a third one when it is installed. -/
def writeTwoMore : List Move :=
  [.write ([2].map noteOf), .workerProcess 0 5, .monitorPop 0, .monitorMsg 0 1, .write ([3].map noteOf), .dbChange,
    .monitorPop 0, .monitorMsg 0 2]

theorem valid_askForStored : ∀ mv ∈ askForStored, mv.Valid reuseRelay := by
  have hsub := submitted_noteOf [1]
  intro mv hmv
  fin_cases hmv
  · exact hsub
  all_goals trivial

theorem valid_askAgain : ∀ mv ∈ askAgain, mv.Valid reuseRelay := by
  have hsub := submitted_noteOf [1]
  intro mv hmv
  fin_cases hmv
  · exact hsub
  all_goals trivial

theorem valid_writeTwoMore : ∀ mv ∈ writeTwoMore, mv.Valid reuseRelay := by
  have hsub₂ := submitted_noteOf [2]
  have hsub₃ := submitted_noteOf [3]
  intro mv hmv
  fin_cases hmv
  · exact hsub₂
  · trivial
  · trivial
  · trivial
  · exact hsub₃
  all_goals trivial

/-- An event that is stored, one that is written while the query runs, and one that is written later. -/
theorem stored_to_live_of_three :
    ∃ s₀ s₁ s₂ acts₀ acts k sub txn sent,
      RunWith reuseRelay (FreshIn {r | r ∈ threeNotes}) { db := Db.init } acts₀ s₀ ∧
      Step reuseRelay s₀ (.workerMsg 0 (.newSub k sub)) s₁ ∧
      RunWith reuseRelay (FreshIn {r | r ∈ threeNotes}) s₁ acts s₂ ∧ s₂.log = s₀.log ++ sent ∧
      SentFor reuseRelay {r | r ∈ threeNotes} sub.filterGroup sub.connId sub.subId
        (Store.event txn).lastKey s₂ (sent.filter (Output.isFor sub.connId sub.subId)) ∧
      levIdsOf (sent.filter (Output.isFor 1 idA)) = [1, 2, 3] := by
  have hsteps : aroundReq reuseRelay askForStored writeTwoMore 5 (fresh? threeNotes) (fresh? threeNotes)
      (fun s₀ _ s₂ sub => ((s₀.monitors 0).path 1 idA).isEmpty &&
        ((s₀.monitors 0).monitors.installed 1 idA).isNone && asked? sub &&
        decide (sentBetween s₀ s₂ = [1, 2, 3])) = true := by decide +kernel
  obtain ⟨s₀, s₁, s₂, acts₀, acts, k, sub, hrun₀, hstep, hrun, hno, htest⟩ := steps_of_aroundReq
    valid_askForStored valid_writeTwoMore (fun _ _ => freshIn_of_fresh?) (fun _ _ => freshIn_of_fresh?) hsteps
  simp only [Bool.and_eq_true, decide_eq_true_eq, List.isEmpty_iff, Option.isNone_iff_eq_none] at htest
  obtain ⟨⟨⟨hpath, hinst⟩, hasked⟩, hsent⟩ := htest
  obtain ⟨hc, hi, hg⟩ := answerable_of_asked? hasked
  obtain ⟨txn, sent, -, hlog, hsentFor, -⟩ := stored_to_live .refl (fun r hr => absurd hr List.not_mem_nil)
    createdAt_threeNotes hg hrun₀ (by rw [hc, hi]; exact hpath) (by rw [hc, hi]; exact hinst) hstep hrun
    fun w msg hmem => absurd hmem (hno w msg)
  rw [sentBetween_eq hlog] at hsent
  exact ⟨s₀, s₁, s₂, acts₀, acts, k, sub, txn, sent, hrun₀, hstep, hrun, hlog, hsentFor, hsent⟩

/-- The same events after the client has asked for all a second time. -/
theorem resubscription_replaces_first :
    ∃ s₀ s₁ s₂ acts₀ acts k sub txn sent,
      RunWith reuseRelay (FreshIn {r | r ∈ threeNotes}) { db := Db.init } acts₀ s₀ ∧
      (s₀.installed reuseRelay sub.connId sub.subId).isSome ∧
      Step reuseRelay s₀ (.workerMsg 0 (.newSub k sub)) s₁ ∧
      RunWith reuseRelay (fun t t' => FreshIn {r | r ∈ threeNotes} t t' ∧
        Calm reuseRelay sub.connId sub.subId t t') s₁ acts s₂ ∧ s₂.log = s₀.log ++ sent ∧
      SentFor reuseRelay {r | r ∈ threeNotes} sub.filterGroup sub.connId sub.subId
        (Store.event txn).lastKey s₂ (sent.filter (Output.isFor sub.connId sub.subId)) ∧
      levIdsOf (sent.filter (Output.isFor 1 idA)) = [1, 2, 3] := by
  have hsteps : aroundReq reuseRelay askAgain writeTwoMore 5 (fresh? threeNotes)
      (fun t t' => fresh? threeNotes t t' && calm? t)
      (fun s₀ s₁ s₂ sub => ((s₀.monitors 0).path 1 idA).isEmpty &&
        ((s₀.monitors 0).monitors.installed 1 idA).isSome && !settled? s₁ && asked? sub &&
        decide (sentBetween s₀ s₂ = [1, 2, 3])) = true := by decide +kernel
  obtain ⟨s₀, s₁, s₂, acts₀, acts, k, sub, hrun₀, hstep, hrun, hno, htest⟩ := steps_of_aroundReq
    valid_askAgain valid_writeTwoMore (fun _ _ => freshIn_of_fresh?) (fun _ _ => freshIn_and_calm) hsteps
  simp only [Bool.and_eq_true, decide_eq_true_eq, List.isEmpty_iff, Bool.not_eq_true'] at htest
  obtain ⟨⟨⟨⟨hpath, hinst⟩, htaken⟩, hasked⟩, hsent⟩ := htest
  obtain ⟨hc, hi, hg⟩ := answerable_of_asked? hasked
  have hsettled : ¬ Settled reuseRelay s₁ 1 idA := by
    intro hset
    rw [settled?_eq_true_iff.mpr hset] at htaken
    cases htaken
  have hrun' : RunWith reuseRelay (fun t t' => FreshIn {r | r ∈ threeNotes} t t' ∧
      Calm reuseRelay sub.connId sub.subId t t') s₁ acts s₂ := by
    rw [hc, hi]
    exact hrun
  obtain ⟨txn, sent, -, hlog, hsentFor⟩ := resubscription_replaces .refl
    (fun r hr => absurd hr List.not_mem_nil) createdAt_threeNotes hg hrun₀ (by rw [hc, hi]; exact hpath) hstep
    (by rw [hc, hi]; exact hsettled) hrun' fun w msg hmem => absurd hmem (hno w msg)
  rw [sentBetween_eq hlog] at hsent
  refine ⟨s₀, s₁, s₂, acts₀, acts, k, sub, txn, sent, hrun₀, ?_, hstep, hrun', hlog, hsentFor, hsent⟩
  rw [hc, hi]
  exact hinst

end Relay

end Strfry
