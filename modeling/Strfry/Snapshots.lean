import Strfry.CandidatePacking
import Strfry.LevIdReuse
import Strfry.PausedQuery

/-!
# The snapshots of the threads

Each thread sees the database as it was when it opened its transaction. When no levId is ever used for a second
event, a snapshot can be compared with the database of a later state: an event that is stored now, with a levId
that had been given away when the snapshot was taken, is in the snapshot, and in every state in between
(`Since.kept`). `Relay.FreshIn` is that condition on a step, and `Snapshots` what it gives for the
transactions of all threads.
-/

set_option autoImplicit false

namespace Strfry

open Lib

namespace Relay

variable {cfg : RelayConfig} {E : Set (Nat × PackedEvent)} {s s' : Relay}

/-- A new event in the database has a levId that no event has had. All events of the run are in a set. -/
structure FreshIn (E : Set (Nat × PackedEvent)) (s s' : Relay) : Prop where
  new : ∀ r ∈ s'.db.event.rows, r ∈ s.db.event.rows ∨ s.highest < r.1
  within : ∀ r ∈ s'.db.event.rows, r ∈ E

/-- What holds of the database of a run. -/
structure Grounded (E : Set (Nat × PackedEvent)) (s : Relay) : Prop where
  store : StoreInv s.db.toStore
  levId_pos : ∀ r ∈ s.db.event.rows, 0 < r.1
  lastKey_le : s.db.event.lastKey ≤ s.highest
  within : ∀ r ∈ s.db.event.rows, r ∈ E

/-- The largest levId only grows, and is not less than those in the database. -/
theorem Step.highest_le {act : Action} (hstep : Step cfg s act s') : s.highest ≤ s'.highest := by
  cases hstep with
  | @ingest i serial msg rest next =>
    unfold afterIngester
    cases (ingesterForward cfg serial msg).2 <;> exact le_rfl
  | workerMsg opened next unused handled => exact highest_afterWorker.ge
  | workerProcess opened done handled => exact highest_afterWorker.ge
  | commit txn => exact le_max_left _ _
  | receive | workerPop | monitorPop | monitorMsg | dbChange => exact le_rfl

theorem Step.lastKey_le {act : Action} (hstep : Step cfg s act s')
    (h : s.db.event.lastKey ≤ s.highest) : s'.db.event.lastKey ≤ s'.highest := by
  by_cases hact : act = .commit
  · subst hact
    cases hstep with
    | commit txn => exact le_max_right _ _
  · rw [hstep.db_eq hact]
    exact h.trans hstep.highest_le

/-- The run lemma. -/
theorem grounded_of_run {db : Db} {acts : List Action}
    (hdb : StoreReachable cfg.ord cfg.hex cfg.text db) (hwithin : ∀ r ∈ db.event.rows, r ∈ E)
    (hrun : RunWith cfg (FreshIn E) { db := db } acts s) :
    StoreReachable cfg.ord cfg.hex cfg.text s.db ∧ Grounded E s := by
  have hground : ∀ t : Relay, StoreReachable cfg.ord cfg.hex cfg.text t.db →
      t.db.event.lastKey ≤ t.highest → (∀ r ∈ t.db.event.rows, r ∈ E) → Grounded E t :=
    fun t hreach hle hin => ⟨hreach.storeInv, hreach.levId_pos, hle, hin⟩
  induction hrun with
  | refl => exact ⟨hdb, hground _ hdb le_rfl hwithin⟩
  | @tail s₁ s₂ acts act hrun hstep hfresh ih =>
    obtain ⟨hreach, hgrounded⟩ := ih
    have hreach' : StoreReachable cfg.ord cfg.hex cfg.text s₂.db := by
      by_cases hact : act = .commit
      · subst hact
        cases hstep with
        | commit txn => exact hreach.tail txn
      · rw [hstep.db_eq hact]
        exact hreach
    exact ⟨hreach', hground _ hreach' (hstep.lastKey_le hgrounded.lastKey_le) hfresh.within⟩

/-! ## Histories of a run -/

/-- The history goes up to now, and starts at a state that had given away the levIds up to `L`. -/
structure Since (E : Set (Nat × PackedEvent)) (L : Nat) (history : History) (s : Relay) : Prop where
  now : s.db.toStore ∈ history
  snapshot : ∀ st ∈ history, SnapshotOk st
  payload : ∀ st ∈ history, ∀ levId,
    (st.eventPayload.get? levId).isSome = (st.event.get? levId).isSome
  ever : ∀ r, history.Ever r → r ∈ E ∧ r.1 ≤ s.highest
  levId : ∀ r r', history.Ever r → history.Ever r' → r.1 = r'.1 → r = r'
  latest : L ≤ s.highest
  kept : ∀ r ∈ s.db.event.rows, r.1 ≤ L → history.Always r

/-- The history starts with the transaction: it has no other events under the levIds that had been given away. -/
structure Opened (E : Set (Nat × PackedEvent)) (txn : Store) (history : History) (s : Relay) : Prop
    extends Since E txn.event.lastKey history s where
  mem : txn ∈ history
  first : ∀ r, history.Ever r → r.1 ≤ txn.event.lastKey → r ∈ txn.event.rows

section Since

variable {L : Nat} {history : History} {txn : Store}

theorem Since.ok (h : Since E L history s) : history.Ok := ⟨h.snapshot, h.levId⟩

theorem Grounded.snapshotOk (h : Grounded E s) (hE : ∀ r ∈ E, r.2.createdAt < 2 ^ 40) :
    SnapshotOk s.db.toStore :=
  ⟨h.levId_pos, fun r hr => hE r (h.within r hr)⟩

/-- A history that starts now. -/
theorem since_start (h : Grounded E s) (hE : ∀ r ∈ E, r.2.createdAt < 2 ^ 40) :
    Since E s.db.event.lastKey [s.db.toStore] s := by
  have hever : ∀ r, History.Ever [s.db.toStore] r → r ∈ s.db.event.rows := by
    rintro r ⟨st, hst, hr⟩
    rw [List.mem_singleton.mp hst] at hr
    exact hr
  refine ⟨List.mem_singleton_self _, ?_, ?_, fun r hr => ?_, fun r r' hr hr' hlev => ?_, h.lastKey_le, ?_⟩
  · intro st hst
    rw [List.mem_singleton.mp hst]
    exact h.snapshotOk hE
  · intro st hst
    rw [List.mem_singleton.mp hst]
    exact h.store.payload
  · exact ⟨h.within r (hever r hr), (Table.le_lastKey (hever r hr)).trans h.lastKey_le⟩
  · exact Prod.ext hlev (Table.eq_of_mem (hlev ▸ hever r hr) (hever r' hr'))
  · intro r hr _ st hst
    rw [List.mem_singleton.mp hst]
    exact hr

/-- After a step, the history goes on with the database that there is then. -/
theorem Since.step {act : Action} (h : Since E L history s) (hstep : Step cfg s act s')
    (hfresh : FreshIn E s s') (hground : Grounded E s') (hE : ∀ r ∈ E, r.2.createdAt < 2 ^ 40) :
    Since E L (s'.db.toStore :: history) s' := by
  -- an event of the new state is one of the old state, or its levId is new
  have hold : ∀ r ∈ s'.db.event.rows, history.Ever r ∨ s.highest < r.1 := by
    intro r hr
    rcases hfresh.new r hr with hr | hlt
    · exact .inl ⟨_, h.now, hr⟩
    · exact .inr hlt
  have hever : ∀ r, History.Ever (s'.db.toStore :: history) r →
      history.Ever r ∨ (r ∈ s'.db.event.rows ∧ s.highest < r.1) := by
    rintro r ⟨st, hst, hr⟩
    rcases List.mem_cons.mp hst with rfl | hst
    · rcases hold r hr with hr' | hlt
      · exact .inl hr'
      · exact .inr ⟨hr, hlt⟩
    · exact .inl ⟨st, hst, hr⟩
  refine ⟨List.mem_cons_self, ?_, ?_, fun r hr => ?_, fun r r' hr hr' hlev => ?_,
    h.latest.trans hstep.highest_le, fun r hr hle => ?_⟩
  · intro st hst
    rcases List.mem_cons.mp hst with rfl | hst
    · exact hground.snapshotOk hE
    · exact h.snapshot st hst
  · intro st hst
    rcases List.mem_cons.mp hst with rfl | hst
    · exact hground.store.payload
    · exact h.payload st hst
  · rcases hever r hr with hr | ⟨hr, -⟩
    · exact ⟨(h.ever r hr).1, (h.ever r hr).2.trans hstep.highest_le⟩
    · exact ⟨hfresh.within r hr, (Table.le_lastKey hr).trans hground.lastKey_le⟩
  · rcases hever r hr with hold | ⟨hnew, hlt⟩
    · rcases hever r' hr' with hold' | ⟨-, hlt'⟩
      · exact h.levId r r' hold hold' hlev
      · exact absurd (h.ever r hold).2 (by omega)
    · rcases hever r' hr' with hold' | ⟨hnew', -⟩
      · exact absurd (h.ever r' hold').2 (by omega)
      · exact Prod.ext hlev (Table.eq_of_mem (hlev ▸ hnew) hnew')
  · -- an event with an old levId was stored before
    have hwas : r ∈ s.db.event.rows := by
      rcases hfresh.new r hr with hr | hlt
      · exact hr
      · exact absurd (hle.trans h.latest) (not_le.mpr hlt)
    intro st hst
    rcases List.mem_cons.mp hst with rfl | hst
    · exact hr
    · exact h.kept r hwas hle st hst

theorem opened_start (h : Grounded E s) (hE : ∀ r ∈ E, r.2.createdAt < 2 ^ 40) :
    Opened E s.db.toStore [s.db.toStore] s where
  toSince := since_start h hE
  mem := List.mem_singleton_self _
  first := by
    rintro r ⟨st, hst, hr⟩ -
    rw [List.mem_singleton.mp hst] at hr
    exact hr

theorem Opened.step {act : Action} (h : Opened E txn history s) (hstep : Step cfg s act s')
    (hfresh : FreshIn E s s') (hground : Grounded E s') (hE : ∀ r ∈ E, r.2.createdAt < 2 ^ 40) :
    Opened E txn (s'.db.toStore :: history) s' where
  toSince := h.toSince.step hstep hfresh hground hE
  mem := List.mem_cons_of_mem _ h.mem
  first := by
    rintro r ⟨st, hst, hr⟩ hle
    rcases List.mem_cons.mp hst with rfl | hst
    · -- an event with an old levId was stored before
      rcases hfresh.new r hr with hold | hlt
      · exact h.first r ⟨_, h.now, hold⟩ hle
      · exact absurd (hle.trans h.latest) (not_le.mpr hlt)
    · exact h.first r ⟨st, hst, hr⟩ hle

/-- What a query can find is what matches in the transaction. -/
theorem Opened.ncard_le (h : Opened E txn history s) (f : NostrFilter) :
    (history.matchingUpTo f txn.event.lastKey).ncard ≤
      (txn.event.rows.filter fun r => f.doesMatch r.2).length := by
  have hsub : history.matchingUpTo f txn.event.lastKey ⊆
      (((txn.event.rows.filter fun r => f.doesMatch r.2).map Prod.fst).toFinset : Set Nat) := by
    rintro levId ⟨⟨r, hr, rfl, hm⟩, hle⟩
    have hrow := h.first r hr (WithTop.coe_le_coe.mp hle)
    exact List.mem_toFinset.mpr (List.mem_map_of_mem (List.mem_filter.mpr ⟨hrow, hm⟩))
  refine (Set.ncard_le_ncard hsub (Finset.finite_toSet _)).trans ?_
  rw [Set.ncard_coe_finset]
  exact (List.toFinset_card_le _).trans (List.length_map _).le

end Since

/-! ## The transactions -/

/-- The transaction of a worker thread stays, ends, or is a new one. -/
theorem Step.txn_cases {act : Action} (hstep : Step cfg s act s') (w : Nat) :
    (s'.workers w).txn = (s.workers w).txn ∨ (s'.workers w).txn = none ∨
      (s'.workers w).txn = some s'.db.toStore := by
  have hset : ∀ (w' : Nat) (th : ReqWorker),
      (w = w' → th.txn = (s.workers w).txn ∨ th.txn = none ∨ th.txn = some s'.db.toStore) →
        (Function.update s.workers w' th w).txn = (s.workers w).txn ∨
          (Function.update s.workers w' th w).txn = none ∨
            (Function.update s.workers w' th w).txn = some s'.db.toStore := by
    intro w' th h
    by_cases hw : w = w'
    · subst hw
      rw [Function.update_self]
      exact h rfl
    · rw [Function.update_of_ne hw]
      exact .inl rfl
  cases hstep with
  | receive | monitorPop | monitorMsg | dbChange | commit => exact .inl rfl
  | ingest next =>
    left
    rw [workers_afterIngester]
  | @workerPop w' idle done ready =>
    apply hset w'
    rintro rfl
    exact .inr (.inr rfl)
  | @workerMsg w' txn msg rest q n step opened next unused handled =>
    simp only [workers_afterWorker]
    rw [db_afterWorker] at hset
    rw [db_afterWorker]
    apply hset w'
    rintro rfl
    exact .inl rfl
  | @workerProcess w' txn n step opened done handled =>
    simp only [workers_afterWorker]
    rw [db_afterWorker] at hset
    rw [db_afterWorker]
    apply hset w'
    rintro rfl
    exact .inr (.inl rfl)

/-- What the transaction of a monitor thread has of the events that are stored now, and how far the thread has
come in it. -/
structure Sees (E : Set (Nat × PackedEvent)) (s : Relay) (th : ReqMonitor) : Prop where
  lastKey_le : th.txn.event.lastKey ≤ s.highest
  rows : ∀ r ∈ s.db.event.rows, r.1 ≤ th.txn.event.lastKey → r ∈ th.txn.event.rows
  within : ∀ r ∈ th.txn.event.rows, r ∈ E
  currEventId : th.newMsgs ≠ [] → th.currEventId ≤ (th.txn.event.lastKey : WithTop Nat)

/-- The transactions of all threads. -/
structure Snapshots (E : Set (Nat × PackedEvent)) (s : Relay) : Prop where
  worker : ∀ w txn, (s.workers w).txn = some txn →
    ∃ history, Opened E txn history s
  monitor : ∀ m, Sees E s (s.monitors m)

/-- A commit takes nothing from what a transaction has of the events that are stored. -/
theorem Sees.step {act : Action} {th : ReqMonitor} (h : Sees E s th) (hstep : Step cfg s act s')
    (hfresh : FreshIn E s s') : Sees E s' th where
  lastKey_le := h.lastKey_le.trans hstep.highest_le
  rows := by
    intro r hr hle
    rcases hfresh.new r hr with hr | hlt
    · exact h.rows r hr hle
    · exact absurd (hle.trans h.lastKey_le) (not_le.mpr hlt)
  within := h.within
  currEventId := h.currEventId

theorem snapshots_start {db : Db} (hground : Grounded E { db := db }) : Snapshots E { db := db } where
  worker := nofun
  monitor m := by
    refine ⟨Nat.zero_le _, fun r hr hle => ?_, fun r hr => absurd hr List.not_mem_nil, nofun⟩
    exact absurd (hground.levId_pos r hr) (not_lt.mpr hle)

theorem Snapshots.step {act : Action} (h : Snapshots E s) (hstep : Step cfg s act s') (hinv : Inv cfg s)
    (hfresh : FreshIn E s s') (hground : Grounded E s') (hE : ∀ r ∈ E, r.2.createdAt < 2 ^ 40) :
    Snapshots E s' := by
  refine ⟨fun w txn htxn => ?_, fun m => ?_⟩
  · rcases hstep.txn_cases w with heq | heq | heq
    · rw [heq] at htxn
      obtain ⟨history, hopened⟩ := h.worker w txn htxn
      exact ⟨_, hopened.step hstep hfresh hground hE⟩
    · rw [heq] at htxn
      cases htxn
    · rw [heq] at htxn
      cases htxn
      exact ⟨_, opened_start hground hE⟩
  · have hold := (h.monitor m).step hstep hfresh
    rcases hstep.monitor_cases m with ⟨more, -, -, heq⟩ | ⟨-, -, rfl⟩ |
      ⟨msg, rest, p, step, rfl, next, unused, handled, rfl⟩
    · rw [heq]
      exact ⟨hold.lastKey_le, hold.rows, hold.within, hold.currEventId⟩
    · -- a new transaction
      simp only [setMonitor, Function.update_self]
      exact ⟨hground.lastKey_le, fun r hr _ => hr, hground.within, fun _ => min_le_right _ _⟩
    · simp only [afterMonitor, setMonitor, send, Function.update_self]
      refine ⟨hold.lastKey_le, hold.rows, hold.within, fun _ => ?_⟩
      have hcurr := hold.currEventId (by rw [next]; exact List.cons_ne_nil _ _)
      by_cases hdb : msg = .dbChange
      · subst hdb
        rw [(monitorHandle_dbChange (hinv.monitors m) handled).2.2]
        exact le_rfl
      · rw [monitorHandle_currEventId (hinv.monitors m) handled hdb]
        exact hcurr

/-- The run lemma. -/
theorem snapshots_of_run {db : Db} {acts : List Action}
    (hdb : StoreReachable cfg.ord cfg.hex cfg.text db) (hwithin : ∀ r ∈ db.event.rows, r ∈ E)
    (hE : ∀ r ∈ E, r.2.createdAt < 2 ^ 40) (hrun : RunWith cfg (FreshIn E) { db := db } acts s) :
    Snapshots E s := by
  induction hrun with
  | refl =>
    have hstart : RunWith cfg (FreshIn E) { db := db } [] { db := db } := .refl
    exact snapshots_start (grounded_of_run hdb hwithin hstart).2
  | tail hrun hstep hfresh ih =>
    have hinv := hrun.run.inv (inv_start cfg db)
    exact ih.step hstep hinv hfresh (grounded_of_run hdb hwithin (hrun.tail hstep hfresh)).2 hE

end Relay

end Strfry
