import Strfry.QueryAnswers
import Strfry.StoreInvariants

/-!
# Queries that are paused

Between two slices of a query transactions are committed, and the next slice runs on another
snapshot. What a paused scan holds does not refer to a snapshot: the candidates in its queue are
events that were stored once (`Traces`), and of an event that stays stored the scan can tell,
whatever else comes and goes, that it still owes it (`Owes`): it is in the queue, or an entry of it
is ahead of a cursor. A slice on any snapshot keeps these two, hands out events that matched when
they were stored, and hands out none twice (`Tracks`).

Limits are no matter as long as they exceed the number of events that have matched and are not newer than the
subscription. With more
than `2 ^ 24` cursors a query loses events even without any writes.
-/

set_option autoImplicit false

namespace Strfry

open Lib

/-! ## Histories -/

/-- The committed states since a query was made, the newest one first. -/
abbrev History := List Store

namespace History

/-- The event has been stored under the levId at some time. -/
def Ever (history : History) (r : Nat × PackedEvent) : Prop :=
  ∃ st ∈ history, r ∈ st.event.rows

/-- The event was stored under the levId all the time. -/
def Always (history : History) (r : Nat × PackedEvent) : Prop :=
  ∀ st ∈ history, r ∈ st.event.rows

/-- The levIds under which an event that matches has ever been stored. -/
def everMatching (history : History) (f : NostrFilter) : Set Nat :=
  {levId | ∃ r, history.Ever r ∧ r.1 = levId ∧ f.doesMatch r.2 = true}

/-- Those of them that are not newer than a subscription. -/
def matchingUpTo (history : History) (f : NostrFilter) (latestEventId : WithTop Nat) : Set Nat :=
  {levId | levId ∈ history.everMatching f ∧ (levId : WithTop Nat) ≤ latestEventId}

/-- What is assumed of a history: a levId is never used for two events, timestamps have 40 bits, and
levIds start at one. -/
structure Ok (history : History) : Prop where
  snapshot : ∀ st ∈ history, SnapshotOk st
  levId : ∀ r r', history.Ever r → history.Ever r' → r.1 = r'.1 → r = r'

variable {history : History} {st : Store} {r : Nat × PackedEvent}

theorem Ever.cons (h : history.Ever r) (st : Store) : Ever (st :: history) r := by
  obtain ⟨st', hst', hr⟩ := h
  exact ⟨st', List.mem_cons_of_mem _ hst', hr⟩

theorem Always.of_cons (h : Always (st :: history) r) : history.Always r :=
  fun st' hst' => h st' (List.mem_cons_of_mem _ hst')

theorem Ok.of_cons (h : Ok (st :: history)) : history.Ok where
  snapshot := fun st' hst' => h.snapshot st' (List.mem_cons_of_mem _ hst')
  levId := fun r r' hr hr' => h.levId r r' (hr.cons st) (hr'.cons st)

/-- Finitely many events have ever been stored. -/
theorem finite_everMatching (history : History) (f : NostrFilter) :
    (history.everMatching f).Finite := by
  apply (history.flatMap fun st => st.event.rows.map Prod.fst).finite_toSet.subset
  rintro levId ⟨r, ⟨st, hst, hr⟩, rfl, -⟩
  exact List.mem_flatMap.2 ⟨st, hst, List.mem_map_of_mem hr⟩

theorem matchingUpTo_subset (history : History) (f : NostrFilter) (latestEventId : WithTop Nat) :
    history.matchingUpTo f latestEventId ⊆ history.everMatching f := fun _ hmem => hmem.1

theorem finite_matchingUpTo (history : History) (f : NostrFilter) (latestEventId : WithTop Nat) :
    (history.matchingUpTo f latestEventId).Finite :=
  (history.finite_everMatching f).subset (history.matchingUpTo_subset f latestEventId)

theorem everMatching_subset_cons (st : Store) (history : History) (f : NostrFilter) :
    history.everMatching f ⊆ everMatching (st :: history) f := by
  rintro levId ⟨r, hr, hrest⟩
  exact ⟨r, hr.cons st, hrest⟩

end History

/-! ## Scans between snapshots -/

namespace DBScan

/-- A scan for the filter `f` whose candidates have been stored once. -/
structure Candidates (history : History) (f : NostrFilter) (s : DBScan) : Prop where
  same : SamePlan (.make f) s
  queue : ∀ x ∈ s.eventQueue, ∃ r, history.Ever r ∧ PlanKey f r.2 ∧ x.rank = rowRank r

/-- Such a scan that keeps count of the candidates of each cursor. -/
structure Traces (ord : IndexOrder) (history : History) (f : NostrFilter) (s : DBScan) : Prop
    extends Candidates history f s where
  inv : s.ScanInv ord

/-- The event is in the queue, or an entry of it is ahead of a cursor. -/
def Owes (ord : IndexOrder) (s : DBScan) (r : Nat × PackedEvent) : Prop :=
  rowRank r ∈ s.eventQueue.map CandidateEvent.rank ∨
    ∃ c ∈ s.cursors, ∃ k ∈ r.2.indexKeys s.indexDbi,
      c.Due ord s.indexDbi s.f ⟨k.1, k.2, (r.1 : Nat)⟩

section Scan

variable {ord : IndexOrder} {history : History} {f : NostrFilter} {s s' : DBScan} {st : Store}
  {r : Nat × PackedEvent}

/-- On a snapshot that has the event, the scan owes it exactly if it is pending. -/
theorem owes_iff_mem_pending (hr : r ∈ st.event.rows) :
    s.Owes ord r ↔ rowRank r ∈ s.pending ord st := by
  rw [Owes, pending, List.mem_append, List.mem_flatMap]
  apply or_congr_right
  apply exists_congr
  intro c
  apply and_congr_right
  intro _
  rw [List.mem_map]
  constructor
  · rintro ⟨k, hk, hdue⟩
    refine ⟨⟨k.1, k.2, (r.1 : Nat)⟩, mem_remaining.2 ⟨?_, hdue⟩, ?_⟩
    · exact Store.mem_index.2 ⟨r.1, r.2, hr, hk, rfl⟩
    · have hnum : k.2 = r.2.createdAt := PackedEvent.num_of_mem_indexKeys hk
      rw [Entry.rank, rowRank, hnum]
      rfl
  · rintro ⟨e, he, hrank⟩
    obtain ⟨hidx, hdue⟩ := mem_remaining.1 he
    obtain ⟨levId, p, hrow, hk, hv⟩ := Store.mem_index.1 hidx
    -- the entry is one of this event, since the levIds are equal
    have hlev : levId = r.1 := by
      have hpair : (e.num, e.row) = (r.2.createdAt, r.1) := hrank
      have hsnd := congrArg Prod.snd hpair
      rw [Entry.row, hv] at hsnd
      exact hsnd
    subst hlev
    have hp : p = r.2 := Table.eq_of_mem (k := r.1) hrow hr
    subst hp
    refine ⟨(e.key, e.num), hk, ?_⟩
    rw [← hv]
    exact hdue

/-- An entry of a cursor's string is one of an event that is stored. -/
theorem Candidates.of_entry (h : Candidates history f s) (hst : st ∈ history) {e : Entry Bytes}
    (he : e ∈ st.index s.indexDbi) (hkey : e.key ∈ s.cursors.map ScanCursor.search) :
    ∃ r, history.Ever r ∧ PlanKey f r.2 ∧ e.rank = rowRank r := by
  obtain ⟨levId, p, hrow, hk, hv⟩ := Store.mem_index.1 he
  have hdbi : s.indexDbi = (plan f).1 := h.same.indexDbi
  rw [hdbi] at hk
  rw [h.same.searches, searches_make] at hkey
  refine ⟨(levId, p), ⟨st, hst, hrow⟩, ⟨_, hk, hkey⟩, ?_⟩
  have hnum : e.num = p.createdAt := PackedEvent.num_of_mem_indexKeys hk
  rw [Entry.rank, Entry.row, hv, hnum]
  rfl

/-- What is pending on a snapshot of the history has been stored once. -/
theorem Traces.pending (h : Traces ord history f s) (hst : st ∈ history) {x : Nat ×ₗ Nat}
    (hx : x ∈ s.pending ord st) : ∃ r, history.Ever r ∧ PlanKey f r.2 ∧ x = rowRank r := by
  rcases List.mem_append.1 hx with hx | hx
  · obtain ⟨y, hy, rfl⟩ := List.mem_map.1 hx
    exact h.queue y hy
  · obtain ⟨c, hc, hx⟩ := List.mem_flatMap.1 hx
    obtain ⟨e, he, rfl⟩ := List.mem_map.1 hx
    obtain ⟨hidx, ⟨⟨hkey, -⟩, -⟩⟩ := mem_remaining.1 he
    exact h.of_entry hst hidx (hkey ▸ List.mem_map_of_mem hc)

/-- A scan whose pending entries were pending before. -/
theorem Traces.of_subset (h : Traces ord history f s) (hst : st ∈ history) (hinv : s'.ScanInv ord)
    (hplan : SamePlan s s') (hsub : ∀ x ∈ s'.pending ord st, x ∈ s.pending ord st) :
    Traces ord history f s' where
  inv := hinv
  same := h.same.trans hplan
  queue := fun _ hx => h.pending hst
    (hsub _ (List.mem_append_left _ (List.mem_map_of_mem hx)))

theorem traces_make (ord : IndexOrder) (history : History) (h : numCursors f ≤ 2 ^ 24) :
    Traces ord history f (.make f) where
  inv := scanInv_make ord h
  same := .refl _
  queue := fun _ hx => (List.not_mem_nil hx).elim

/-- A new scan owes every event that matches. -/
theorem owes_make (hst : SnapshotOk st) (hr : r ∈ st.event.rows) (hm : f.doesMatch r.2 = true) :
    (make f).Owes ord r := by
  obtain ⟨-, ⟨hsince, huntil⟩, -⟩ := (f.doesMatch_iff _).1 hm
  rw [owes_iff_mem_pending hr]
  exact (mem_pending_make hst).2 ⟨r, hr, planKey_of_doesMatch hm, ⟨hsince, Or.inr huntil⟩, rfl⟩

theorem Traces.cons (h : Traces ord history f s) (st : Store) : Traces ord (st :: history) f s where
  inv := h.inv
  same := h.same
  queue := by
    intro x hx
    obtain ⟨r, hr, hrest⟩ := h.queue x hx
    exact ⟨r, hr.cons st, hrest⟩

/-- A candidate that is passed on is an event that matched when it was stored. -/
theorem Candidates.matched (h : Candidates history f s) (hok : history.Ok) (hf : f.WF)
    (hst : st ∈ history) {x : CandidateEvent} (hx : x ∈ s.eventQueue)
    (hsend : s.doSend st x = true) :
    ∃ r, history.Ever r ∧ r.1 = x.levId ∧ f.doesMatch r.2 = true := by
  obtain ⟨r, hr, hkey, hrank⟩ := h.queue x hx
  have hpair : (x.created, x.levId) = (r.2.createdAt, r.1) := hrank
  obtain ⟨hcreated, hlev⟩ := Prod.mk.injEq .. ▸ hpair
  refine ⟨r, hr, hlev.symm, ?_⟩
  rw [doSend, show s.f = f from h.same.f, hcreated] at hsend
  split at hsend
  · rename_i hio
    exact doesMatch_of_planKey hf (h.same.indexOnly.symm.trans hio) hkey hsend
  · -- the event is looked up, and what is found under the levId is this event
    split at hsend
    · rename_i packed hget
      have hrow := Table.get?_eq_some_iff.1 hget
      have hsame := hok.levId (x.levId, packed) r ⟨st, hst, hrow⟩ hr hlev
      rw [← hsame]
      exact hsend
    · cases hsend

end Scan

end DBScan

/-! ## Queries between snapshots -/

/-- A query in the middle of the filter `f`: of the events that stay stored and match, it has passed
on those that the scan does not owe. -/
structure FilterTracks (ord : IndexOrder) (history : History) (f : NostrFilter) (q : DBQuery)
    (calls : List Nat) : Prop where
  scan : (q.scanner.getD (.make f)).Traces ord history f
  curr : ∀ levId ∈ q.sentEventsCurr, levId ∈ history.matchingUpTo f q.sub.latestEventId
  owed : ∀ r, history.Always r → f.doesMatch r.2 = true →
    (r.1 : WithTop Nat) ≤ q.sub.latestEventId →
    r.1 ∈ calls ∨ (q.scanner.getD (.make f)).Owes ord r

/-- The callbacks that a query has made: none twice, and each for an event that has matched. -/
structure Matched (history : History) (q : DBQuery) (calls : List Nat) : Prop where
  nodup : calls.Nodup
  full : q.sentEventsFull = calls.toFinset
  sound : ∀ levId ∈ calls, (levId : WithTop Nat) ≤ q.sub.latestEventId ∧
    ∃ f ∈ q.filters, levId ∈ history.everMatching f

/-- A query with the callbacks it has made: with the filters that are done one for each event that stayed
stored. -/
structure Tracks (ord : IndexOrder) (history : History) (q : DBQuery) (calls : List Nat) : Prop
    extends Matched history q calls where
  index_le : q.filterGroupIndex ≤ q.filters.length
  past : ∀ f ∈ q.filters.take q.filterGroupIndex, ∀ r, history.Always r →
    f.doesMatch r.2 = true → (r.1 : WithTop Nat) ≤ q.sub.latestEventId → r.1 ∈ calls
  current : ∀ f, q.filters[q.filterGroupIndex]? = some f → FilterTracks ord history f q calls

section Query

variable {S : StdSort} {ord : IndexOrder} {history : History} {st : Store} {f : NostrFilter}
  {q : DBQuery} {calls : List Nat}

/-- A filter that has not been started. -/
theorem filterTracks_start (hok : history.Ok) (hne : history ≠ []) (hcur : DBScan.numCursors f ≤ 2 ^ 24)
    (hscanner : q.scanner = none) (hcurr : q.sentEventsCurr = ∅) (calls : List Nat) :
    FilterTracks ord history f q calls := by
  obtain ⟨st, hst⟩ := List.exists_mem_of_ne_nil history hne
  refine ⟨?_, ?_, fun r hr hm _ => Or.inr ?_⟩
  · rw [hscanner]
    exact DBScan.traces_make ord history hcur
  · rw [hcurr]
    exact fun _ hmem => (Finset.notMem_empty _ hmem).elim
  · rw [hscanner]
    exact DBScan.owes_make (hok.snapshot st hst) (hr st hst) hm

/-- A new query. -/
theorem tracks_start (hok : history.Ok) (hne : history ≠ []) (sub : Subscription)
    (hcur : ∀ f ∈ sub.filterGroup.filters, DBScan.numCursors f ≤ 2 ^ 24) :
    Tracks ord history (.new sub) [] where
  nodup := List.nodup_nil
  full := rfl
  sound := fun _ hmem => (List.not_mem_nil hmem).elim
  index_le := Nat.zero_le _
  past := fun _ hmem => (List.not_mem_nil hmem).elim
  current := fun f hf =>
    filterTracks_start hok hne (hcur f (List.mem_of_getElem? hf)) rfl rfl []

/-- A commit makes the history longer; what is asked of a query becomes less. -/
theorem Tracks.commit (h : Tracks ord history q calls) (st : Store) :
    Tracks ord (st :: history) q calls where
  nodup := h.nodup
  full := h.full
  sound := by
    intro levId hmem
    obtain ⟨hle, f, hf, hever⟩ := h.sound levId hmem
    exact ⟨hle, f, hf, History.everMatching_subset_cons st history f hever⟩
  index_le := h.index_le
  past := fun f hf r hr hm hle => h.past f hf r hr.of_cons hm hle
  current := by
    intro f hf
    have hcur := h.current f hf
    refine ⟨hcur.scan.cons st, fun levId hmem => ?_, fun r hr hm hle => hcur.owed r hr.of_cons hm hle⟩
    obtain ⟨hever, hle⟩ := hcur.curr levId hmem
    exact ⟨History.everMatching_subset_cons st history f hever, hle⟩

/-- What becomes of the candidate `ev`: it is passed over, or it is an event that has matched and
is sent. The limit is never reached. -/
theorem FilterTracks.handle (h : FilterTracks ord history f q calls) (hok : history.Ok) (hf : f.WF)
    (hlimit : (history.matchingUpTo f q.sub.latestEventId).ncard < f.limit) (hst : st ∈ history) {ev : CandidateEvent}
    (hev : ev ∈ (q.scanner.getD (.make f)).eventQueue) {res : Bool × DBQuery.Sent}
    (hres : (if (q.scanner.getD (.make f)).doSend st ev then
        DBQuery.handleEvent f.limit q.sub.latestEventId
          ⟨q.sentEventsFull, q.sentEventsCurr, []⟩ ev.levId
      else (false, ⟨q.sentEventsFull, q.sentEventsCurr, []⟩)) = res) :
    res.1 = false ∧
      ((res.2 = ⟨q.sentEventsFull, q.sentEventsCurr, []⟩ ∧
          ¬ ((q.scanner.getD (.make f)).doSend st ev = true ∧
            (ev.levId : WithTop Nat) ≤ q.sub.latestEventId)) ∨
        ((ev.levId : WithTop Nat) ≤ q.sub.latestEventId ∧ ev.levId ∈ history.everMatching f ∧
          res.2 = ⟨insert ev.levId q.sentEventsFull, insert ev.levId q.sentEventsCurr,
            [ev.levId].filter (· ∉ q.sentEventsFull)⟩)) := by
  by_cases hsend : (q.scanner.getD (.make f)).doSend st ev = true
  · rw [if_pos hsend] at hres
    have hever : ev.levId ∈ history.everMatching f := h.scan.matched hok hf hst hev hsend
    have hne : f.limit ≠ 0 := Nat.ne_of_gt (Nat.zero_lt_of_lt hlimit)
    by_cases hle : (ev.levId : WithTop Nat) ≤ q.sub.latestEventId
    · rw [DBQuery.handleEvent_eq hne hle] at hres
      -- no more events are in the set than have ever matched
      have hsub : ((insert ev.levId q.sentEventsCurr : Finset Nat) : Set Nat) ⊆
          history.matchingUpTo f q.sub.latestEventId := by
        intro levId hmem
        rcases Finset.mem_insert.1 (Finset.mem_coe.1 hmem) with rfl | hmem
        · exact ⟨hever, hle⟩
        · exact h.curr levId hmem
      have hcard := Set.ncard_le_ncard hsub (history.finite_matchingUpTo f _)
      rw [Set.ncard_coe_finset] at hcard
      subst hres
      exact ⟨decide_eq_false (not_le.2 (hcard.trans_lt hlimit)), Or.inr ⟨hle, hever, rfl⟩⟩
    · rw [DBQuery.handleEvent, if_neg hne, if_pos (not_le.1 hle)] at hres
      subst hres
      exact ⟨rfl, Or.inl ⟨rfl, fun hboth => hle hboth.2⟩⟩
  · rw [if_neg hsend] at hres
    subst hres
    exact ⟨rfl, Or.inl ⟨rfl, fun hboth => hsend hboth.1⟩⟩

/-- The callbacks after a candidate has been sent. -/
theorem Matched.send (h : Matched history q calls) (hf : f ∈ q.filters) {levId : Nat}
    (hle : (levId : WithTop Nat) ≤ q.sub.latestEventId) (hever : levId ∈ history.everMatching f) :
    (calls ++ [levId].filter (· ∉ q.sentEventsFull)).Nodup ∧
      insert levId q.sentEventsFull =
        (calls ++ [levId].filter (· ∉ q.sentEventsFull)).toFinset ∧
      (∀ l ∈ calls ++ [levId].filter (· ∉ q.sentEventsFull),
        (l : WithTop Nat) ≤ q.sub.latestEventId ∧ ∃ f ∈ q.filters, l ∈ history.everMatching f) ∧
      levId ∈ calls ++ [levId].filter (· ∉ q.sentEventsFull) := by
  have hfull : levId ∈ q.sentEventsFull ↔ levId ∈ calls := by
    rw [h.full, List.mem_toFinset]
  refine ⟨?_, ?_, ?_, ?_⟩
  · refine List.nodup_append.2 ⟨h.nodup, (List.nodup_singleton _).filter _, ?_⟩
    intro a ha b hb hab
    rw [List.mem_filter, List.mem_singleton, decide_eq_true_eq] at hb
    exact hb.2 (by rw [hb.1, hfull, ← hb.1, ← hab]; exact ha)
  · rw [List.toFinset_append, ← h.full, toFinset_filter_notMem]
  · intro l hl
    rcases List.mem_append.1 hl with hl | hl
    · exact h.sound l hl
    · rw [List.mem_filter, List.mem_singleton] at hl
      rw [hl.1]
      exact ⟨hle, f, hf, hever⟩
  · by_cases hin : levId ∈ calls
    · exact List.mem_append_left _ hin
    · exact List.mem_append_right _ (by simp [hfull, hin])

/-- The filter is done once the scan owes nothing more. -/
theorem Tracks.finish (h : Tracks ord history q calls) (hok : history.Ok) (hne : history ≠ [])
    (hcur : ∀ f ∈ q.filters, DBScan.numCursors f ≤ 2 ^ 24)
    (hf : q.filters[q.filterGroupIndex]? = some f)
    (hall : ∀ r, history.Always r → f.doesMatch r.2 = true →
      (r.1 : WithTop Nat) ≤ q.sub.latestEventId → r.1 ∈ calls) :
    Tracks ord history { q with
      scanner := none
      filterGroupIndex := q.filterGroupIndex + 1
      sentEventsCurr := ∅ } calls where
  nodup := h.nodup
  full := h.full
  sound := h.sound
  index_le := (List.getElem?_eq_some_iff.1 hf).1
  past := by
    intro g hg r hr hm hle
    obtain ⟨hlt, hget⟩ := List.getElem?_eq_some_iff.1 hf
    change g ∈ q.filters.take (q.filterGroupIndex + 1) at hg
    rw [List.take_succ_eq_append_getElem hlt, List.mem_append, hget, List.mem_singleton] at hg
    rcases hg with hg | rfl
    · exact h.past g hg r hr hm hle
    · exact hall r hr hm hle
  current := fun g hg =>
    filterTracks_start hok hne (hcur g (List.mem_of_getElem? hg)) rfl rfl calls

/-- An iteration on a snapshot of the history. -/
theorem Tracks.step (S : StdSort) (h : Tracks ord history q calls) (hok : history.Ok)
    (hlimit : ∀ f ∈ q.filters, (history.matchingUpTo f q.sub.latestEventId).ncard < f.limit)
    (hcur : ∀ f ∈ q.filters, DBScan.numCursors f ≤ 2 ^ 24) (hst : st ∈ history)
    (hf : q.filters[q.filterGroupIndex]? = some f) :
    ∃ q' new, q.step S ord st f = some (q', new) ∧ q'.sub = q.sub ∧
      Tracks ord history q' (calls ++ new) := by
  have hmem : f ∈ q.filters := List.mem_of_getElem? hf
  have hwf : f.WF := q.sub.filterGroup.wf f hmem
  have hne : history ≠ [] := List.ne_nil_of_mem hst
  have hcurrent := h.current f hf
  have hexact := (DBScan.exact_make hwf st).samePlan hcurrent.scan.same
  have hiter := DBScan.iter_spec S (hok.snapshot st hst) hexact hcurrent.scan.inv
    (DBQuery.handleEvent f.limit q.sub.latestEventId) ⟨q.sentEventsFull, q.sentEventsCurr, []⟩
  have howed : ∀ r, history.Always r → f.doesMatch r.2 = true →
      (r.1 : WithTop Nat) ≤ q.sub.latestEventId →
      r.1 ∈ calls ∨ rowRank r ∈ (q.scanner.getD (.make f)).pending ord st := by
    intro r hr hm hle
    exact (hcurrent.owed r hr hm hle).imp_right (DBScan.owes_iff_mem_pending (hr st hst)).1
  unfold DBQuery.step
  generalize hit : (q.scanner.getD (.make f)).iter S ord st
    (DBQuery.handleEvent f.limit q.sub.latestEventId)
    ⟨q.sentEventsFull, q.sentEventsCurr, []⟩ = it at hiter ⊢
  simp only [hit]
  cases hiter with
  | init s' hlt hinv hsame hnext hperm hord =>
    refine ⟨_, [], rfl, rfl, ?_⟩
    rw [List.append_nil]
    refine ⟨⟨h.nodup, h.full, h.sound⟩, h.index_le, h.past, fun g hg => ?_⟩
    cases hf.symm.trans hg
    refine ⟨hcurrent.scan.of_subset hst hinv hsame fun x hx => hperm.mem_iff.1 hx, hcurrent.curr, ?_⟩
    intro r hr hm hle
    refine (howed r hr hm hle).imp_right fun hpend => ?_
    exact (DBScan.owes_iff_mem_pending (hr st hst)).2 (hperm.mem_iff.2 hpend)
  | empty hempty =>
    refine ⟨_, [], rfl, rfl, ?_⟩
    rw [List.append_nil]
    apply h.finish hok hne hcur hf
    intro r hr hm hle
    rcases howed r hr hm hle with hin | hpend
    · exact hin
    · rw [hempty] at hpend
      cases hpend
  | stop ev rest t' hnext hq hsend hstop =>
    -- the limit is not reached
    have hev : ev ∈ (q.scanner.getD (.make f)).eventQueue := by
      rw [hq]
      exact List.mem_cons_self
    have hfalse := (hcurrent.handle hok hwf (hlimit f hmem) hst hev
      ((if_pos hsend).trans hstop)).1
    cases hfalse
  | pop ev rest s' t' hnext hq hres hinv hsame hn hperm hord =>
    have hev : ev ∈ (q.scanner.getD (.make f)).eventQueue := by
      rw [hq]
      exact List.mem_cons_self
    have hscan : s'.Traces ord history f := by
      apply hcurrent.scan.of_subset hst hinv hsame
      exact fun x hx => hperm.mem_iff.2 (List.mem_cons_of_mem _ hx)
    -- an event that is owed is still pending, or it is the candidate
    have hleft : ∀ r, history.Always r → f.doesMatch r.2 = true →
        (r.1 : WithTop Nat) ≤ q.sub.latestEventId → r.1 ∈ calls ∨ s'.Owes ord r ∨
          (r.1 = ev.levId ∧ (q.scanner.getD (.make f)).doSend st ev = true) := by
      intro r hr hm hle
      rcases howed r hr hm hle with hin | hpend
      · exact Or.inl hin
      · rcases List.mem_cons.1 (hperm.mem_iff.1 hpend) with heq | hpend
        · have hlev : r.1 = ev.levId := congrArg Prod.snd (show (_, _) = (_, _) from heq)
          refine Or.inr (Or.inr ⟨hlev, ?_⟩)
          exact (DBScan.doSend_eq hwf hcurrent.scan.same (hr st hst)
            (DBScan.planKey_of_doesMatch hm) heq.symm).trans hm
        · exact Or.inr (Or.inl ((DBScan.owes_iff_mem_pending (hr st hst)).2 hpend))
    obtain ⟨-, ⟨ht, hnot⟩ | ⟨hle, hever, ht⟩⟩ :=
      hcurrent.handle hok hwf (hlimit f hmem) hst hev hres
    · -- the candidate is passed over
      change t' = _ at ht
      subst ht
      refine ⟨_, [], rfl, rfl, ?_⟩
      rw [List.append_nil]
      refine ⟨⟨h.nodup, h.full, h.sound⟩, h.index_le, h.past, fun g hg => ?_⟩
      cases hf.symm.trans hg
      refine ⟨hscan, hcurrent.curr, fun r hr hm hle => ?_⟩
      rcases hleft r hr hm hle with hin | howes | ⟨hlev, hsend⟩
      · exact Or.inl hin
      · exact Or.inr howes
      · exact absurd ⟨hsend, hlev ▸ hle⟩ hnot
    · -- it is sent
      change t' = _ at ht
      subst ht
      obtain ⟨hnd, hfull, hsound, hin⟩ := h.send hmem hle hever
      refine ⟨_, _, rfl, rfl, ⟨hnd, hfull, hsound⟩, h.index_le, ?_, fun g hg => ?_⟩
      · intro g hg r hr hm hle
        exact List.mem_append_left _ (h.past g hg r hr hm hle)
      · cases hf.symm.trans hg
        refine ⟨hscan, fun levId hmem' => ?_, fun r hr hm hle => ?_⟩
        · rcases Finset.mem_insert.1 hmem' with rfl | hmem'
          · exact ⟨hever, hle⟩
          · exact hcurrent.curr levId hmem'
        · rcases hleft r hr hm hle with hold | howes | ⟨hlev, -⟩
          · exact Or.inl (List.mem_append_left _ hold)
          · exact Or.inr howes
          · rw [hlev]
            exact Or.inl hin

/-- What a slice leaves of a query: it tracks the history, and is complete when no filter is left. -/
def SliceTracks (ord : IndexOrder) (history : History) (q : DBQuery) (calls : List Nat)
    (r : DBQuery × List Nat × Bool) : Prop :=
  r.1.sub = q.sub ∧ Tracks ord history r.1 (calls ++ r.2.1) ∧
    (r.2.2 = true → r.1.filterGroupIndex = r.1.filters.length)

theorem Tracks.sliceTracks_of_none (h : Tracks ord history q calls)
    (hf : q.filters[q.filterGroupIndex]? = none) :
    SliceTracks ord history q calls (q, [], true) := by
  refine ⟨rfl, ?_, fun _ => ?_⟩
  · rw [List.append_nil]
    exact h
  · exact le_antisymm h.index_le (List.getElem?_eq_none_iff.1 hf)

/-- A slice on a snapshot of the history. -/
theorem Tracks.process (S : StdSort) (h : Tracks ord history q calls) (hok : history.Ok)
    (hlimit : ∀ f ∈ q.filters, (history.matchingUpTo f q.sub.latestEventId).ncard < f.limit)
    (hcur : ∀ f ∈ q.filters, DBScan.numCursors f ≤ 2 ^ 24) (hst : st ∈ history) (n : Nat) :
    ∃ r, q.process S ord st n = some r ∧ SliceTracks ord history q calls r := by
  induction n generalizing q calls with
  | zero =>
    cases hf : q.filters[q.filterGroupIndex]? with
    | none => exact ⟨_, process_of_none hf 0, h.sliceTracks_of_none hf⟩
    | some f =>
      refine ⟨({ q with scanner := some (q.scanner.getD (DBScan.make f)) }, [], false),
        by simp only [DBQuery.process, hf], rfl, ?_, nofun⟩
      rw [List.append_nil]
      refine ⟨⟨h.nodup, h.full, h.sound⟩, h.index_le, h.past, fun g hg => ?_⟩
      cases hf.symm.trans hg
      have hcurrent := h.current f hf
      exact ⟨hcurrent.scan, hcurrent.curr, hcurrent.owed⟩
  | succ n ih =>
    cases hf : q.filters[q.filterGroupIndex]? with
    | none => exact ⟨_, process_of_none hf _, h.sliceTracks_of_none hf⟩
    | some f =>
      obtain ⟨q₁, new, hstep, hsub, htracks⟩ := h.step S hok hlimit hcur hst hf
      have hfilters : q₁.filters = q.filters := by rw [DBQuery.filters, hsub]
      obtain ⟨r, hr, hrsub, hrtracks, hrdone⟩ := ih htracks (hfilters ▸ hsub ▸ hlimit) (hfilters ▸ hcur)
      refine ⟨(r.1, new ++ r.2.1, r.2.2), ?_, hrsub.trans hsub, ?_, hrdone⟩
      · simp only [DBQuery.process, hf, hstep, hr, Option.map_some]
      · rw [← List.append_assoc]
        exact hrtracks

end Query

/-! ## Runs -/

/-- A query, with what has been committed since it was made and the callbacks it has made. -/
structure PausedQuery where
  history : History
  db : Db
  query : DBQuery
  calls : List Nat := []
  complete : Bool := false

/-- The query for a subscription, made when `db` is the committed state. -/
def PausedQuery.start (db : Db) (sub : Subscription) : PausedQuery where
  history := [db.toStore]
  db := db
  query := .new sub

/-- A transaction is committed, or the query runs for a slice on one of the committed states. -/
inductive PausedQuery.Step (S : StdSort) (ord : IndexOrder) (hex : HexCodec) (text : JsonText) :
    PausedQuery → PausedQuery → Prop
  | commit {s : PausedQuery} {db' : Db} (step : StoreStep ord hex text s.db db') :
      Step S ord hex text s { s with history := db'.toStore :: s.history, db := db' }
  | slice {s : PausedQuery} {st : Store} {n : Nat} {r : DBQuery × List Nat × Bool}
      (running : s.complete = false) (snapshot : st ∈ s.history)
      (call : s.query.process S ord st n = some r) :
      Step S ord hex text s
        { s with query := r.1, calls := s.calls ++ r.2.1, complete := r.2.2 }

/-- What is asked of the callbacks: none is made twice, each is for an event that matched a filter and
is not newer than the subscription, and once the query is complete one was made for each such event
that was stored all the time. -/
structure PausedQuery.Faithful (sub : Subscription) (s : PausedQuery) : Prop where
  once : s.calls.Nodup
  sound : ∀ levId ∈ s.calls, (levId : WithTop Nat) ≤ sub.latestEventId ∧
    ∃ r, s.history.Ever r ∧ r.1 = levId ∧ sub.filterGroup.doesMatch r.2 = true
  all : s.complete = true → ∀ r, s.history.Always r → sub.filterGroup.doesMatch r.2 = true →
    (r.1 : WithTop Nat) ≤ sub.latestEventId → r.1 ∈ s.calls

/-- Every limit is larger than the number of events that have ever matched. -/
def PausedQuery.Unlimited (sub : Subscription) (s : PausedQuery) : Prop :=
  ∀ f ∈ sub.filterGroup.filters, (s.history.everMatching f).ncard < f.limit

section Run

variable {S : StdSort} {ord : IndexOrder} {hex : HexCodec} {text : JsonText} {sub : Subscription}
  {s s' : PausedQuery}

/-- The query of a run, in step with its history. -/
structure PausedQuery.Inv (ord : IndexOrder) (sub : Subscription) (s : PausedQuery) : Prop where
  sub : s.query.sub = sub
  tracks : Tracks ord s.history s.query s.calls
  done : s.complete = true → s.query.filterGroupIndex = s.query.filters.length

theorem PausedQuery.Unlimited.upTo (h : s.Unlimited sub) {f : NostrFilter}
    (hf : f ∈ sub.filterGroup.filters) (latestEventId : WithTop Nat) :
    (s.history.matchingUpTo f latestEventId).ncard < f.limit :=
  lt_of_le_of_lt (Set.ncard_le_ncard (History.matchingUpTo_subset _ f _) (History.finite_everMatching _ f))
    (h f hf)

/-- The history only grows, so what is assumed of it later held before. -/
theorem PausedQuery.Step.assumed (hstep : Step S ord hex text s s') (hok : s'.history.Ok)
    (hlimit : s'.Unlimited sub) : s.history.Ok ∧ s.Unlimited sub := by
  cases hstep with
  | commit step =>
    refine ⟨hok.of_cons, fun f hf => lt_of_le_of_lt ?_ (hlimit f hf)⟩
    exact Set.ncard_le_ncard (History.everMatching_subset_cons _ _ f)
      (History.finite_everMatching _ f)
  | slice running snapshot call => exact ⟨hok, hlimit⟩

theorem PausedQuery.Inv.step (h : s.Inv ord sub) (hok : s.history.Ok) (hlimit : s.Unlimited sub)
    (hcur : ∀ f ∈ sub.filterGroup.filters, DBScan.numCursors f ≤ 2 ^ 24)
    (hstep : Step S ord hex text s s') : s'.Inv ord sub := by
  cases hstep with
  | commit step => exact ⟨h.sub, h.tracks.commit _, h.done⟩
  | slice running snapshot call =>
    have hfilters : s.query.filters = sub.filterGroup.filters := by rw [DBQuery.filters, h.sub]
    obtain ⟨r, hr, hsub, htracks, hdone⟩ :=
      h.tracks.process S hok (hfilters ▸ fun f hf => hlimit.upTo hf _) (hfilters ▸ hcur) snapshot _
    cases call.symm.trans hr
    exact ⟨hsub.trans h.sub, htracks, hdone⟩

theorem PausedQuery.Inv.faithful (h : s.Inv ord sub) : s.Faithful sub where
  once := h.tracks.nodup
  sound := by
    intro levId hmem
    obtain ⟨hle, f, hf, r, hr, hlev, hm⟩ := h.tracks.sound levId hmem
    rw [h.sub] at hle
    rw [DBQuery.filters, h.sub] at hf
    exact ⟨hle, r, hr, hlev, (NostrFilterGroup.doesMatch_iff _ _).2 ⟨f, hf, hm⟩⟩
  all := by
    intro hcomplete r hr hm hle
    obtain ⟨f, hf, hm⟩ := (NostrFilterGroup.doesMatch_iff _ _).1 hm
    apply h.tracks.past f _ r hr hm
    · rw [h.sub]
      exact hle
    · rw [h.done hcomplete, List.take_length, DBQuery.filters, h.sub]
      exact hf

/-- A paused query survives concurrent writes, if its plans have at most `2 ^ 24` cursors: in every
state of a run its callbacks are the right ones, and no slice fails. -/
theorem paused_query_survives_writes {db : Db}
    (hcur : ∀ f ∈ sub.filterGroup.filters, DBScan.numCursors f ≤ 2 ^ 24)
    (hrun : Relation.ReflTransGen (PausedQuery.Step S ord hex text) (.start db sub) s)
    (hok : s.history.Ok) (hlimit : s.Unlimited sub) :
    s.Faithful sub ∧ ∀ st ∈ s.history, ∀ n, (s.query.process S ord st n).isSome := by
  have hinv : s.Inv ord sub := by
    induction hrun with
    | refl => exact ⟨rfl, tracks_start hok (List.cons_ne_nil _ _) sub hcur, nofun⟩
    | tail _ hstep ih =>
      obtain ⟨hok', hlimit'⟩ := hstep.assumed hok hlimit
      exact (ih hok' hlimit').step hok' hlimit' hcur hstep
  refine ⟨hinv.faithful, fun st hst n => ?_⟩
  have hfilters : s.query.filters = sub.filterGroup.filters := by rw [DBQuery.filters, hinv.sub]
  obtain ⟨r, hr, -⟩ := hinv.tracks.process S hok (hfilters ▸ fun f hf => hlimit.upTo hf _) (hfilters ▸ hcur) hst n
  rw [hr]
  rfl

end Run

/-- A subscription to everything, up to five events. -/
def fiveEvents : Subscription where
  connId := 1
  subId := .a
  filterGroup := .unrestricted 5

/-- A query for everything on an empty database; two profiles of one author are written before it
gets to run, the older one of which is replaced at once. -/
theorem paused_query_survives_twoProfiles :
    ∃ s, Relation.ReflTransGen (PausedQuery.Step .insertion byteOrder hexCodec emptyObjectText)
        (.start Db.init fiveEvents) s ∧
      s.complete = true ∧ s.calls = [2] ∧ s.Faithful fiveEvents := by
  have heval : ((writeEvents .insertion byteOrder hexCodec emptyObjectText {} Db.init
      twoProfiles).2.map fun r => (r.1.event.rows.map fun row => (row.1, row.2.createdAt),
        ((DBQuery.new fiveEvents).process .insertion byteOrder r.1.toStore 5).map fun r => r.2)) =
        .ok ([(2, 20)], some ([2], true)) := by decide +kernel
  obtain ⟨⟨db', evs'⟩, hok, heq⟩ := map_eq_ok.1 heval
  rw [Prod.mk.injEq] at heq
  obtain ⟨hrows, hprocess⟩ := heq
  obtain ⟨⟨q', calls, complete⟩, hcall, hres⟩ := Option.map_eq_some_iff.1 hprocess
  cases hres
  have hrow : ∀ r ∈ db'.event.rows, (r.1, r.2.createdAt) = (2, 20) := by
    intro r hr
    have hmem := List.mem_map_of_mem (f := fun row => (row.1, row.2.createdAt)) hr
    rw [hrows] at hmem
    exact List.mem_singleton.1 hmem
  -- the history of the run: the empty store, and that with the second profile
  have hever : ∀ r, History.Ever [db'.toStore, Db.init.toStore] r → r ∈ db'.event.rows := by
    rintro r ⟨st, hst, hr⟩
    rcases List.mem_pair.1 hst with rfl | rfl
    · exact hr
    · cases hr
  have hcommit := Relation.ReflTransGen.single
    (@PausedQuery.Step.commit .insertion byteOrder hexCodec emptyObjectText (.start Db.init fiveEvents) db'
      (.write .insertion {} submitted_twoProfiles hok))
  have hrun := hcommit.tail (.slice (r := (q', [2], true)) rfl List.mem_cons_self hcall)
  refine ⟨_, hrun, rfl, rfl, ?_⟩
  refine (paused_query_survives_writes ?_ hrun ?_ ?_).1
  · intro f hf
    rw [List.mem_singleton.1 hf]
    decide
  · refine ⟨fun st hst => ?_, fun r r' hr hr' hlev => ?_⟩
    · rcases List.mem_pair.1 hst with rfl | rfl
      · refine ⟨fun r hr => ?_, fun r hr => ?_⟩
        · have := congrArg Prod.fst (hrow r hr)
          change r.1 = 2 at this
          omega
        · have := congrArg Prod.snd (hrow r hr)
          change r.2.createdAt = 20 at this
          omega
      · refine ⟨fun r hr => ?_, fun r hr => ?_⟩ <;> cases hr
    · exact Prod.ext hlev (Table.eq_of_mem (hever r hr) (hlev ▸ hever r' hr'))
  · intro f hf
    have hlimit : f.limit = 5 := by
      rw [List.mem_singleton.1 hf]
    have hone : History.everMatching [db'.toStore, Db.init.toStore] f ⊆ {2} := by
      rintro levId ⟨r, hr, rfl, -⟩
      exact congrArg Prod.fst (hrow r (hever r hr))
    have hle := Set.ncard_le_ncard hone (Set.finite_singleton 2)
    rw [Set.ncard_singleton] at hle
    rw [hlimit]
    exact hle.trans_lt (by norm_num)

/-! ## Too many cursors -/

/-- The query for a filter with `2 ^ 24 + 1` kinds loses an event that is stored all the time. -/
theorem paused_query_loses_event :
    ∃ g, NostrFilterGroup.unwrapped hexCodec (kindsFilter (2 ^ 24 + 1)) 500 = .ok g ∧
      ∃ db sub s, sub.filterGroup = g ∧
        Relation.ReflTransGen (PausedQuery.Step .insertion byteOrder hexCodec emptyObjectText)
          (.start db sub) s ∧
        s.history.Ok ∧ s.Unlimited sub ∧ s.complete = true ∧ ¬ s.Faithful sub := by
  obtain ⟨f, k, hmake, hnm, hids, htags, ha, hk, hlen, hcan, -⟩ :=
    kindsFilter_make (n := 2 ^ 24 + 1) (by norm_num) (by norm_num) hexCodec
      (show 0 < 500 by norm_num)
  obtain ⟨g, hg, hfilters⟩ := NostrFilterGroup.unwrapped_object hmake hnm
  refine ⟨g, hg, ?_⟩
  have hcur : 2 ^ 24 < DBScan.numCursors f := by
    rw [DBScan.numCursors_of_kinds hids htags ha hk, hlen]
    exact Nat.lt_succ_self _
  have hf : f.WF := g.wf f (by rw [hfilters]; exact List.mem_singleton_self f)
  -- one event more than cursor `2 ^ 24` collects at first, and its candidates count for cursor `0`
  obtain ⟨hnd, b, hb, pubkey, kind, hpk, hkind, hkeys, hmatch⟩ := exists_template hf hcur
  have hst := overflowStore_spec byteOrder hpk hkind hcan hkeys
  have hdepth := initialScanDepth_le (DBScan.make f)
  have hlimit : f.limit = 500 :=
    NostrFilter.limit_of_unlimited (unlimited_kindsFilter _) (by norm_num [maxU64]) hmake
  let sub : Subscription := ⟨1, ⟨[97], by decide, by decide, by decide⟩, g, ⊤⟩
  let db : Db := ⟨overflowStore f pubkey kind hpk hkind hcan.2.2, 0, .empty, fun _ => ∅⟩
  obtain ⟨q', calls, hproc, htwo⟩ := overflow_process .insertion hf hnd hb hst
    (overflowWork (.make f) + 1) (q := .new sub) hfilters rfl
    (overflowed_make (lt_trans (by norm_num) hcur)) (Nat.lt_succ_self _)
  have hrun := Relation.ReflTransGen.single (@PausedQuery.Step.slice .insertion byteOrder hexCodec
    emptyObjectText (.start db sub) _ _ (q', calls, true) rfl List.mem_cons_self hproc)
  refine ⟨db, sub, _, rfl, hrun, ⟨?_, ?_⟩, ?_, rfl, ?_⟩
  · intro st hs
    rw [List.mem_singleton.1 hs]
    exact hst.snapshot
  · rintro r r' ⟨st, hs, hr⟩ ⟨st', hs', hr'⟩ hlev
    rw [List.mem_singleton.1 hs] at hr
    rw [List.mem_singleton.1 hs'] at hr'
    exact Prod.ext hlev (Table.eq_of_mem hr (hlev ▸ hr'))
  · -- fewer events are stored than the limit says
    intro f' hf'
    rw [show f' = f from List.mem_singleton.1 (hfilters ▸ hf'), hlimit]
    have hsub : History.everMatching [db.toStore] f ⊆ (Finset.Icc 1 51 : Finset Nat) := by
      rintro levId ⟨r, ⟨st, hs, hr⟩, rfl, -⟩
      rw [List.mem_singleton.1 hs] at hr
      obtain ⟨i, hi, rfl⟩ := mem_countedTable.1 hr
      rw [Finset.mem_coe, Finset.mem_Icc]
      omega
    have hle := Set.ncard_le_ncard hsub (Finset.finite_toSet _)
    rw [Set.ncard_coe_finset, Nat.card_Icc] at hle
    exact hle.trans_lt (by norm_num)
  · intro hfaith
    have hone := hfaith.all rfl (1, templateEvent pubkey kind f.since hpk hkind hcan.2.2 0) ?_ ?_ le_top
    · have := htwo 1 hone
      omega
    · intro st hs
      rw [List.mem_singleton.1 hs]
      exact mem_countedTable.2 ⟨0, Nat.succ_pos _, rfl⟩
    · refine (NostrFilterGroup.doesMatch_iff _ _).2 ⟨f, ?_, ?_⟩
      · show f ∈ g.filters
        rw [hfilters]
        exact List.mem_singleton_self f
      · exact hmatch _ rfl rfl le_rfl hcan.2.1

end Strfry
