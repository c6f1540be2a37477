import Strfry.EventVerify
import Strfry.PausedQuery

/-!
# Packed scan candidates

A candidate of a scan keeps the timestamp of its event and the number of its cursor in one 64-bit word,
40 bits for the one and 24 for the other. Nothing that lets an event into the store checks that its
timestamp fits: import does not look at it, and `verifyEventTimestamp` accepts any 64-bit value once the
sum of the clock and the configured limit overflows.

`ScanRun` is a scan over commits: an iteration may run on any of the committed states. As long as the
timestamps and the numbers of the cursors fit, the scan is `Orderly`.
-/

set_option autoImplicit false

namespace Strfry

open Lib

section Packing

/-- The three values come back from a candidate that was made of them. -/
def ComesBack (levId created scanIndex : Nat) : Prop :=
  (CandidateEvent.make levId created scanIndex).levId = levId ∧
    (CandidateEvent.make levId created scanIndex).created = created ∧
    (CandidateEvent.make levId created scanIndex).scanIndex = scanIndex

theorem comesBack_iff (levId created scanIndex : Nat) :
    ComesBack levId created scanIndex ↔ created < 2 ^ 40 ∧ scanIndex < 2 ^ 24 := by
  constructor
  · rintro ⟨-, hcreated, hindex⟩
    have hc : created < 2 ^ 40 := by
      rw [← hcreated, CandidateEvent.created, show 0xFFFFFFFFFF = 2 ^ 40 - 1 by norm_num,
        Nat.and_two_pow_sub_one_eq_mod]
      exact Nat.mod_lt _ (by norm_num)
    rw [CandidateEvent.scanIndex_make hc] at hindex
    exact ⟨hc, hindex ▸ Nat.mod_lt _ (by norm_num)⟩
  · rintro ⟨hc, hi⟩
    refine ⟨rfl, CandidateEvent.created_make hc, ?_⟩
    rw [CandidateEvent.scanIndex_make hc, Nat.mod_eq_of_lt hi]

end Packing

section Runs

variable {S : StdSort} {ord : IndexOrder} {hex : HexCodec} {text : JsonText} {f : NostrFilter}

/-- The levIds of a reachable store start at one. -/
theorem StoreReachable.levId_pos {db : Db} (h : StoreReachable ord hex text db) :
    ∀ r ∈ db.event.rows, 0 < r.1 := by
  induction h with
  | refl =>
    intro r hr
    cases hr
  | @tail db db' hreach hstep ih =>
    intro r hr
    cases hstep with
    | write S cache hsub hok =>
      by_cases hold : r ∈ db.event.rows
      · exact ih r hold
      · have hrun := writeEvents_run (StoreReachable.storeInv hreach) hsub.writable hok
        exact (Nat.zero_le _).trans_lt (hrun.gt_lastKey hr hold)
    | delete cache hok =>
      rw [deleteEvents_eq_ok hok] at hr
      exact ih r (Db.mem_deleteLoop.1 hr).1
    | negentropy heq =>
      rw [show db'.event = db.event from congrArg Store.event heq] at hr
      exact ih r hr

/-- A scan for `f` while transactions are committed. An iteration runs on one of the committed states. -/
inductive ScanRun (S : StdSort) (ord : IndexOrder) (hex : HexCodec) (text : JsonText)
    (f : NostrFilter) : History → DBScan → Prop
  | make {db : Db} : StoreReachable ord hex text db → ScanRun S ord hex text f [db.toStore] (.make f)
  | commit {history : History} {s : DBScan} {db : Db} : ScanRun S ord hex text f history s →
      StoreReachable ord hex text db → ScanRun S ord hex text f (db.toStore :: history) s
  | iter {history : History} {s s' : DBScan} {st : Store} {σ : Type}
      {handleEvent : σ → Nat → Bool × σ} {state state' : σ} : ScanRun S ord hex text f history s →
      st ∈ history → s.iter S ord st handleEvent state = .next s' state' →
      ScanRun S ord hex text f history s'

/-- What a scan does whose candidates have lost nothing. -/
structure Orderly (S : StdSort) (ord : IndexOrder) (history : History) (s : DBScan) : Prop where
  /-- A candidate has the timestamp of a stored event, and belongs to one of the cursors. -/
  candidates : ∀ x ∈ s.eventQueue, x.scanIndex < s.cursors.length ∧
    ∃ r, history.Ever r ∧ x.levId = r.1 ∧ x.created = r.2.createdAt
  /-- No iteration uses a cursor that does not exist. -/
  proceeds : ∀ st ∈ history, ∀ (σ : Type) (handleEvent : σ → Nat → Bool × σ) (state : σ),
    s.iter S ord st handleEvent state ≠ .stuck
  /-- On one snapshot, the candidates come newest first. -/
  newestFirst : ∀ st, history = [st] → s.nextInitIndex = s.cursors.length →
    SortedBy CandidateEvent.cmp s.eventQueue

/-- Every timestamp in a snapshot of the history fits its bits. -/
def TimestampsFit (history : History) : Prop :=
  ∀ st ∈ history, ∀ r ∈ st.event.rows, r.2.createdAt < 2 ^ 40

/-- What is kept along a run. -/
structure ScanRun.Inv (ord : IndexOrder) (f : NostrFilter) (history : History) (s : DBScan) : Prop where
  traces : s.Traces ord history f
  snapshots : ∀ st ∈ history, SnapshotOk st
  ordered : ∀ st, history = [st] → s.OrderInv ord st

theorem ScanRun.ne_nil {history : History} {s : DBScan} (h : ScanRun S ord hex text f history s) :
    history ≠ [] := by
  induction h with
  | make => exact List.cons_ne_nil _ _
  | commit => exact List.cons_ne_nil _ _
  | iter _ _ _ ih => exact ih

theorem ScanRun.inv {history : History} {s : DBScan} (h : ScanRun S ord hex text f history s)
    (hf : f.WF) (hcur : DBScan.numCursors f ≤ 2 ^ 24) (hfit : TimestampsFit history) :
    ScanRun.Inv ord f history s := by
  have hsnapshot : ∀ {db : Db} {history : History}, StoreReachable ord hex text db →
      TimestampsFit (db.toStore :: history) → SnapshotOk db.toStore := fun hreach hfit =>
    ⟨hreach.levId_pos, hfit _ List.mem_cons_self⟩
  induction h with
  | make hreach =>
    refine ⟨DBScan.traces_make ord _ hcur, fun st hst => ?_, fun st _ => DBScan.orderInv_make ord st f⟩
    rw [List.mem_singleton.mp hst]
    exact hsnapshot hreach hfit
  | @commit history s db hrun hreach ih =>
    -- a commit: the traces are those of a longer history
    have hold := ih fun st hst => hfit st (List.mem_cons_of_mem _ hst)
    refine ⟨hold.traces.cons _, fun st hst => ?_, fun st heq => ?_⟩
    · rcases List.mem_cons.mp hst with rfl | hst
      · exact hsnapshot hreach hfit
      · exact hold.snapshots st hst
    · rw [List.cons.injEq] at heq
      exact absurd heq.2 hrun.ne_nil
  | @iter history s s' st σ handleEvent state state' hrun hst hiter ih =>
    -- an iteration: what it does is said once, in `DBScan.iter_spec`
    obtain ⟨htraces, hsnapshots, hordered⟩ := ih hfit
    have hexact := (DBScan.exact_make hf st).samePlan htraces.same
    have hspec := DBScan.iter_spec S (hsnapshots st hst) hexact htraces.inv handleEvent state
    rw [hiter] at hspec
    have horder : ∀ st', history = [st'] → st' = st := by
      rintro st' rfl
      exact (List.mem_singleton.mp hst).symm
    cases hspec with
    | init _ hlt hinv hplan hnext hperm hord =>
      refine ⟨htraces.of_subset hst hinv hplan fun x hx => hperm.mem_iff.1 hx, hsnapshots,
        fun st' heq => ?_⟩
      have h := hordered st' heq
      rw [horder st' heq] at h ⊢
      exact hord h
    | pop ev rest _ _ hnext hq hres hinv hplan hn hperm hord =>
      refine ⟨htraces.of_subset hst hinv hplan
        fun x hx => hperm.mem_iff.2 (List.mem_cons_of_mem _ hx), hsnapshots, fun st' heq => ?_⟩
      have h := hordered st' heq
      rw [horder st' heq] at h ⊢
      exact hord h

theorem ScanRun.Inv.orderly {history : History} {s : DBScan} (h : ScanRun.Inv ord f history s)
    (hf : f.WF) : Orderly S ord history s where
  candidates := by
    intro x hx
    obtain ⟨r, hr, -, hrank⟩ := h.traces.queue x hx
    have hpair : (x.created, x.levId) = (r.2.createdAt, r.1) := hrank
    rw [Prod.mk.injEq] at hpair
    exact ⟨(h.traces.inv.queued x hx).trans_le h.traces.inv.init_le, r, hr, hpair.2, hpair.1⟩
  proceeds := by
    intro st hst σ handleEvent state hstuck
    have hexact := (DBScan.exact_make hf st).samePlan h.traces.same
    have hspec := DBScan.iter_spec S (h.snapshots st hst) hexact h.traces.inv handleEvent state
    rw [hstuck] at hspec
    cases hspec
  newestFirst := fun st heq hnext => (h.ordered st heq).sorted hnext

/-- A candidate gives back what it was made of exactly when the timestamp has 40 bits and the number of
the cursor 24, and a scan of such events with such cursors is orderly. -/
theorem candidates_come_back_iff {g : NostrFilterGroup} (hf : f ∈ g.filters) :
    (∀ levId (p : PackedEvent) scanIndex, scanIndex < (DBScan.make f).cursors.length →
      (ComesBack levId p.createdAt scanIndex ↔ p.createdAt < 2 ^ 40 ∧ scanIndex < 2 ^ 24)) ∧
    ∀ history s, ScanRun S ord hex text f history s → TimestampsFit history →
      (DBScan.make f).cursors.length ≤ 2 ^ 24 → Orderly S ord history s := by
  refine ⟨fun levId p scanIndex _ => comesBack_iff levId p.createdAt scanIndex, ?_⟩
  intro history s hrun hfit hcur
  have hnum : DBScan.numCursors f ≤ 2 ^ 24 := by
    rw [DBScan.make, List.length_map] at hcur
    exact hcur
  exact (hrun.inv (g.wf f hf) hnum hfit).orderly (g.wf f hf)

/-- The first iteration of a scan. -/
def firstIteration (f : NostrFilter) (st : Store) : Option DBScan :=
  match (DBScan.make f).iter .insertion byteOrder st (fun (n : Nat) _ => (false, n)) 0 with
  | .next s _ => some s
  | _ => none

theorem iter_of_firstIteration {st : Store} {s : DBScan} (h : firstIteration f st = some s) : ∃ n,
    (DBScan.make f).iter .insertion byteOrder st (fun (n : Nat) _ => (false, n)) 0 = .next s n := by
  rw [firstIteration] at h
  split at h
  · next s' n hfirst =>
    cases h
    exact ⟨n, hfirst⟩
  · contradiction

/-- A scan of two notes that has its candidates. -/
theorem candidates_come_back_twoNotes :
    (ComesBack 7 1700000000 0 ↔ 1700000000 < 2 ^ 40 ∧ 0 < 2 ^ 24) ∧
      ∃ (db : Db) (s : DBScan), s.eventQueue.map CandidateEvent.levId = [2, 1] ∧
        ScanRun .insertion byteOrder hexCodec emptyObjectText { limit := 5, indexOnlyScans := true }
          [db.toStore] s ∧
        Orderly .insertion byteOrder [db.toStore] s := by
  have hiff := @candidates_come_back_iff .insertion byteOrder hexCodec emptyObjectText
    { limit := 5, indexOnlyScans := true } (.unrestricted 5) (List.mem_singleton_self _)
  have heval : ((writeEvents .insertion byteOrder hexCodec emptyObjectText {} Db.init twoNotes).2.map fun r =>
      r.1.event.rows.all (fun row => decide (row.2.createdAt < 2 ^ 40)) &&
        (firstIteration { limit := 5, indexOnlyScans := true } r.1.toStore).any fun s =>
          decide (s.eventQueue.map CandidateEvent.levId = [2, 1])) = .ok true := by
    decide +kernel
  obtain ⟨⟨db, evs⟩, hok, hfacts⟩ := map_eq_ok.1 heval
  rw [Bool.and_eq_true, List.all_eq_true] at hfacts
  obtain ⟨hfit, hany⟩ := hfacts
  obtain ⟨s, hfirst, hqueue⟩ := (Option.any_eq_true _ _).mp hany
  obtain ⟨n, hiter⟩ := iter_of_firstIteration hfirst
  have hreach : StoreReachable byteOrder hexCodec emptyObjectText db :=
    .single (.write .insertion {} submitted_twoNotes hok)
  have hrun : ScanRun .insertion byteOrder hexCodec emptyObjectText { limit := 5, indexOnlyScans := true }
      [db.toStore] s := .iter (.make hreach) (List.mem_singleton_self _) hiter
  refine ⟨hiff.1 7 (plainEvent (List.replicate 32 1) (List.replicate 32 9) 1700000000 1 rfl rfl) 0
    (by decide), db, s, of_decide_eq_true hqueue, hrun, hiff.2 _ _ hrun ?_ (by decide)⟩
  intro st hst r hr
  rw [List.mem_singleton.mp hst] at hr
  exact of_decide_eq_true (hfit r hr)

/-- A note whose timestamp has 41 bits. -/
def lateNote : EventToWrite :=
  ⟨repeatedEvent 1 9 (2 ^ 40) 1, [], .pending, 0, 0⟩

theorem submitted_lateNote : Submitted hexCodec [lateNote] := by
  intro ev hev
  rw [List.mem_singleton.mp hev]
  exact ⟨rfl, fromJson_plainEvent _ _ _ _ _ _⟩

/-- Whether the second iteration of a scan for `f` uses a cursor that does not exist. -/
def secondIterationStuck (f : NostrFilter) (st : Store) : Bool :=
  match (DBScan.make f).iter .insertion byteOrder st (fun (n : Nat) _ => (false, n)) 0 with
  | .next s n =>
    match s.iter .insertion byteOrder st (fun (n : Nat) _ => (false, n)) n with
    | .stuck => true
    | _ => false
  | _ => false

theorem exists_stuck {st : Store} (h : secondIterationStuck f st = true) : ∃ s n,
    (DBScan.make f).iter .insertion byteOrder st (fun (n : Nat) _ => (false, n)) 0 = .next s n ∧
    s.iter .insertion byteOrder st (fun (n : Nat) _ => (false, n)) n = .stuck := by
  rw [secondIterationStuck] at h
  split at h
  · next s n hfirst =>
    split at h
    · next hsecond => exact ⟨s, n, hfirst, hsecond⟩
    · contradiction
  · contradiction

/-- The largest limit lets the note in, and a query for everything then uses a cursor that does not
exist. -/
theorem late_note_breaks_scan :
    verifyEventTimestamp { VerifyConfig.default with rejectEventsNewerThanSeconds := 2 ^ 64 - 1 }
      1700000000 lateNote.packed = .ok () ∧
    ¬ ComesBack 1 lateNote.packed.createdAt 0 ∧
    ∃ db evs s, (writeEvents .insertion byteOrder hexCodec emptyObjectText {} Db.init [lateNote]).2 =
        .ok (db, evs) ∧
      ScanRun .insertion byteOrder hexCodec emptyObjectText { limit := 5, indexOnlyScans := true }
        [db.toStore] s ∧
      ∃ n, s.iter .insertion byteOrder db.toStore (fun (n : Nat) _ => (false, n)) n = .stuck := by
  refine ⟨by decide, fun h => absurd ((comesBack_iff _ _ _).mp h).1 (by decide), ?_⟩
  have heval : ((writeEvents .insertion byteOrder hexCodec emptyObjectText {} Db.init
      [lateNote]).2.map fun r =>
        secondIterationStuck { limit := 5, indexOnlyScans := true } r.1.toStore) = .ok true := by
    decide +kernel
  obtain ⟨⟨db, evs⟩, hok, hstuck⟩ := map_eq_ok.1 heval
  obtain ⟨s, n, hfirst, hsecond⟩ := exists_stuck hstuck
  have hreach : StoreReachable byteOrder hexCodec emptyObjectText db :=
    .single (.write .insertion {} submitted_lateNote hok)
  exact ⟨db, evs, s, hok, .iter (.make hreach) (List.mem_singleton_self _) hfirst, n, hsecond⟩

end Runs

end Strfry
