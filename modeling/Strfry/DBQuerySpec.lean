import Strfry.ScanPlan

/-!
# What a query answers

`answer` is what a query is for: the newest events that match a filter, in descending order, up to
its limit. `delivered` is the sequence of callbacks for a filter group, each event once. A query on
a fixed snapshot makes exactly these callbacks, however it is cut into slices.

The invariant `QueryInv` relates a query in the middle of a filter to a prefix of the matching
events: those in `sentEventsCurr`. The others are still pending in the scan, and the head of its
queue is the next of them or has been sent already.
-/

set_option autoImplicit false

namespace Strfry

open Lib

/-! ## Answers -/

/-- The stored events that match a filter, up to a levId. -/
def matchingRows (st : Store) (f : NostrFilter) (latest : WithTop Nat) : List (Nat × PackedEvent) :=
  st.event.rows.filter fun r => f.doesMatch r.2 && decide ((r.1 : WithTop Nat) ≤ latest)

/-- They in descending order of timestamp and levId. -/
def newestMatching (st : Store) (f : NostrFilter) (latest : WithTop Nat) :
    List (Nat × PackedEvent) :=
  (matchingRows st f latest).insertionSort fun a b => rowRank b ≤ rowRank a

/-- The answer to a filter: the newest matching events, up to its limit. -/
def answer (st : Store) (f : NostrFilter) (latest : WithTop Nat) : List Nat :=
  ((newestMatching st f latest).take f.limit).map Prod.fst

/-- The callbacks for a list of filters, when `sent` have been made before. -/
def delivered (st : Store) (latest : WithTop Nat) (sent : List Nat) : List NostrFilter → List Nat
  | [] => sent
  | f :: fs => delivered st latest (sent ++ (answer st f latest).filter (· ∉ sent)) fs

theorem mem_delivered {st : Store} {latest : WithTop Nat} {sent : List Nat} {fs : List NostrFilter}
    {levId : Nat} : levId ∈ delivered st latest sent fs ↔
      levId ∈ sent ∨ ∃ f ∈ fs, levId ∈ answer st f latest := by
  induction fs generalizing sent with
  | nil => simp [delivered]
  | cons f fs ih =>
    rw [delivered, ih, List.mem_append, List.mem_filter]
    by_cases h : levId ∈ sent <;> simp [h]

theorem rowRank_injective {t : Table PackedEvent} {a b : Nat × PackedEvent} (ha : a ∈ t.rows)
    (hb : b ∈ t.rows) (h : rowRank a = rowRank b) : a = b := by
  have hpair : (a.2.createdAt, a.1) = (b.2.createdAt, b.1) := h
  have hid : a.1 = b.1 := congrArg Prod.snd hpair
  exact Prod.ext hid (Table.eq_of_mem (k := a.1) ha (hid ▸ hb))

section Answer

variable {st : Store} {f : NostrFilter} {latest : WithTop Nat}

theorem mem_matchingRows {r : Nat × PackedEvent} : r ∈ matchingRows st f latest ↔
    r ∈ st.event.rows ∧ f.doesMatch r.2 = true ∧ (r.1 : WithTop Nat) ≤ latest := by
  rw [matchingRows, List.mem_filter, Bool.and_eq_true, decide_eq_true_eq]

theorem mem_newestMatching {r : Nat × PackedEvent} :
    r ∈ newestMatching st f latest ↔ r ∈ matchingRows st f latest :=
  List.mem_insertionSort _

/-- The matching rows in descending order. -/
theorem pairwise_newestMatching (st : Store) (f : NostrFilter) (latest : WithTop Nat) :
    (newestMatching st f latest).Pairwise fun a b => rowRank b < rowRank a := by
  have : Std.Total fun a b : Nat × PackedEvent => rowRank b ≤ rowRank a :=
    ⟨fun a b => le_total _ _⟩
  have : IsTrans _ fun a b : Nat × PackedEvent => rowRank b ≤ rowRank a :=
    ⟨fun a b c hab hbc => le_trans hbc hab⟩
  have hle : (newestMatching st f latest).Pairwise
      fun a b => rowRank b ≤ rowRank a := List.pairwise_insertionSort _ _
  have hnd : (newestMatching st f latest).Nodup :=
    (List.perm_insertionSort _ _).nodup_iff.2 (st.event.nodup_rows.filter _)
  refine (hle.and hnd).imp_of_mem ?_
  intro a b ha hb hab
  refine lt_of_le_of_ne hab.1 fun heq => hab.2 ?_
  exact (rowRank_injective (mem_matchingRows.1 (mem_newestMatching.1 hb)).1
    (mem_matchingRows.1 (mem_newestMatching.1 ha)).1 heq).symm

theorem nodup_map_newestMatching (st : Store) (f : NostrFilter) (latest : WithTop Nat) :
    ((newestMatching st f latest).map Prod.fst).Nodup := by
  have hperm : ((newestMatching st f latest).map Prod.fst).Perm
      ((matchingRows st f latest).map Prod.fst) := (List.perm_insertionSort _ _).map _
  rw [hperm.nodup_iff]
  exact st.event.nodup_keys.sublist (List.filter_sublist.map _)

theorem nodup_answer : (answer st f latest).Nodup :=
  (nodup_map_newestMatching st f latest).sublist ((List.take_sublist _ _).map _)

theorem nodup_delivered {sent : List Nat} (h : sent.Nodup) (fs : List NostrFilter) :
    (delivered st latest sent fs).Nodup := by
  induction fs generalizing sent with
  | nil => exact h
  | cons f fs ih =>
    refine ih (List.nodup_append.2 ⟨h, nodup_answer.filter _, ?_⟩)
    intro a ha b hb hab
    rw [List.mem_filter, decide_eq_true_eq] at hb
    exact hb.2 (hab ▸ ha)

end Answer

/-! ## The scan of one filter -/

/-- A scan for the filter `f` on a fixed snapshot, of which the first `k` matching rows have been
handed out. -/
structure ScanAt (ord : IndexOrder) (st : Store) (f : NostrFilter) (latest : WithTop Nat)
    (s : DBScan) (k : Nat) : Prop where
  inv : s.ScanInv ord
  order : s.OrderInv ord st
  plan : DBScan.SamePlan (.make f) s
  grounded : ∀ x ∈ s.pending ord st, ∃ r ∈ st.event.rows, DBScan.PlanKey f r.2 ∧ x = rowRank r
  ahead : ∀ r ∈ (newestMatching st f latest).drop k, rowRank r ∈ s.pending ord st

section Scan

variable {ord : IndexOrder} {st : Store} {f : NostrFilter} {latest : WithTop Nat} {s s' : DBScan}
  {k : Nat}

theorem scanAt_make (hst : SnapshotOk st) (hcur : DBScan.numCursors f ≤ 2 ^ 24) :
    ScanAt ord st f latest (.make f) 0 where
  inv := DBScan.scanInv_make ord hcur
  order := DBScan.orderInv_make ord st f
  plan := .refl _
  grounded := by
    intro x hx
    obtain ⟨r, hr, hkey, -, rfl⟩ := (DBScan.mem_pending_make hst).1 hx
    exact ⟨r, hr, hkey, rfl⟩
  ahead := by
    intro r hr
    rw [List.drop_zero, mem_newestMatching] at hr
    obtain ⟨hmem, hm, -⟩ := mem_matchingRows.1 hr
    obtain ⟨-, ⟨hsince, huntil⟩, -⟩ := (f.doesMatch_iff _).1 hm
    exact (DBScan.mem_pending_make hst).2
      ⟨r, hmem, DBScan.planKey_of_doesMatch hm, ⟨hsince, Or.inr huntil⟩, rfl⟩

/-- A scan that has the same pending entries is at the same place. -/
theorem ScanAt.of_perm (h : ScanAt ord st f latest s k) (hinv : s'.ScanInv ord)
    (hord : s'.OrderInv ord st) (hplan : DBScan.SamePlan s s')
    (hperm : (s'.pending ord st).Perm (s.pending ord st)) : ScanAt ord st f latest s' k where
  inv := hinv
  order := hord
  plan := h.plan.trans hplan
  grounded x hx := h.grounded x (hperm.mem_iff.1 hx)
  ahead r hr := hperm.mem_iff.2 (h.ahead r hr)

/-- A scan from which the head has been taken, where the rows still to come are other ones. -/
theorem ScanAt.of_pop (h : ScanAt ord st f latest s k) (hinv : s'.ScanInv ord)
    (hord : s'.OrderInv ord st) (hplan : DBScan.SamePlan s s') {x : Nat ×ₗ Nat}
    (hperm : (s.pending ord st).Perm (x :: s'.pending ord st)) {k' : Nat} (hk : k ≤ k')
    (hne : ∀ r ∈ (newestMatching st f latest).drop k', rowRank r ≠ x) :
    ScanAt ord st f latest s' k' where
  inv := hinv
  order := hord
  plan := h.plan.trans hplan
  grounded y hy := h.grounded y (hperm.mem_iff.2 (List.mem_cons_of_mem _ hy))
  ahead r hr := by
    have hmem := h.ahead r (List.drop_subset_drop_left _ hk hr)
    rcases List.mem_cons.1 (hperm.mem_iff.1 hmem) with heq | hmem
    · exact absurd heq (hne r hr)
    · exact hmem

/-- The row of the candidate at the head of the queue. -/
theorem ScanAt.head_row (h : ScanAt ord st f latest s k) {ev : CandidateEvent}
    {rest : List CandidateEvent} (hq : s.eventQueue = ev :: rest) :
    ∃ r ∈ st.event.rows, DBScan.PlanKey f r.2 ∧ ev.rank = rowRank r := by
  refine h.grounded _ (List.mem_append_left _ ?_)
  rw [hq]
  exact List.mem_cons_self

/-- If the head is a matching row that has not been handed out, it is the next one. -/
theorem ScanAt.head_next (h : ScanAt ord st f latest s k)
    (hnext : s.nextInitIndex = s.cursors.length) {ev : CandidateEvent}
    {rest : List CandidateEvent} (hq : s.eventQueue = ev :: rest) {r : Nat × PackedEvent}
    (hrank : ev.rank = rowRank r)
    (hr : r ∈ (newestMatching st f latest).drop k) :
    ∃ tail, (newestMatching st f latest).drop k = r :: tail := by
  have hpair := (pairwise_newestMatching st f latest).sublist
    (List.drop_sublist k _)
  cases hl : (newestMatching st f latest).drop k with
  | nil => rw [hl] at hr; cases hr
  | cons a tail =>
    rw [hl] at hr hpair
    rcases List.mem_cons.1 hr with rfl | hr
    · exact ⟨tail, rfl⟩
    · have hlt := (List.pairwise_cons.1 hpair).1 r hr
      have hle := DBScan.rank_le_head h.inv h.order hnext hq
        (h.ahead a (by rw [hl]; exact List.mem_cons_self))
      rw [hrank] at hle
      exact absurd hlt (not_lt.2 hle)

end Scan

/-! ## The event handler -/

theorem toFinset_filter_notMem (a : Nat) (s : Finset Nat) :
    s ∪ ([a].filter (· ∉ s)).toFinset = insert a s := by
  by_cases h : a ∈ s
  · simp [h]
  · simp [h]

theorem DBQuery.handleEvent_eq {limit : Nat} {latest : WithTop Nat} {t : DBQuery.Sent}
    {levId : Nat} (hlimit : limit ≠ 0) (hle : (levId : WithTop Nat) ≤ latest) :
    handleEvent limit latest t levId =
      (decide (limit ≤ (insert levId t.curr).card),
        ⟨insert levId t.full, insert levId t.curr, t.calls ++ [levId].filter (· ∉ t.full)⟩) := by
  rw [handleEvent, if_neg hlimit, if_neg (not_lt.2 hle)]
  by_cases h : levId ∈ t.full
  · simp [h]
  · simp [h]

/-- A query in the middle of the filter `f`: `before` are the callbacks made for earlier filters,
`calls` all callbacks so far, and the first `k` matching rows have been handed out. -/
structure FilterAt (ord : IndexOrder) (st : Store) (f : NostrFilter) (before : List Nat)
    (q : DBQuery) (calls : List Nat) (k : Nat) : Prop where
  scan : ScanAt ord st f q.sub.latestEventId (q.scanner.getD (.make f)) k
  le : k ≤ (newestMatching st f q.sub.latestEventId).length
  lt_limit : k < f.limit ∨ k = 0
  curr : q.sentEventsCurr =
    (((newestMatching st f q.sub.latestEventId).take k).map Prod.fst).toFinset
  full : q.sentEventsFull = calls.toFinset
  calls_eq : calls = before ++
    (((newestMatching st f q.sub.latestEventId).take k).map Prod.fst).filter
      (· ∉ before)

/-- A query that has just finished the filter `f`. -/
structure FilterDone (st : Store) (f : NostrFilter) (before : List Nat) (q q' : DBQuery)
    (calls : List Nat) : Prop where
  sub : q'.sub = q.sub
  scanner : q'.scanner = none
  index : q'.filterGroupIndex = q.filterGroupIndex + 1
  curr : q'.sentEventsCurr = ∅
  full : q'.sentEventsFull = calls.toFinset
  calls_eq : calls = before ++ (answer st f q.sub.latestEventId).filter (· ∉ before)

/-- The iterations left in a scan, if it is not stopped by the limit. -/
def DBScan.work (ord : IndexOrder) (st : Store) (s : DBScan) : Nat :=
  (s.cursors.length - s.nextInitIndex) + (s.pending ord st).length

section Step

variable {S : StdSort} {ord : IndexOrder} {st : Store} {f : NostrFilter} {before calls : List Nat}
  {q : DBQuery} {k : Nat}

/-- The candidate is a matching row, or it is none of those still to come. -/
theorem FilterAt.not_ahead {r : Nat × PackedEvent} {x : Nat ×ₗ Nat} (hr : r ∈ st.event.rows)
    (hx : x = rowRank r)
    (hnot : r ∉ (newestMatching st f q.sub.latestEventId).drop k) :
    ∀ r' ∈ (newestMatching st f q.sub.latestEventId).drop k, rowRank r' ≠ x := by
  intro r' hr' heq
  have hmem := (mem_matchingRows.1 (mem_newestMatching.1 (List.mem_of_mem_drop hr'))).1
  exact hnot (rowRank_injective hmem hr (heq.trans hx) ▸ hr')

/-- The next matching row is handed out: what the sets and the callbacks become. -/
theorem FilterAt.next (h : FilterAt ord st f before q calls k) {r : Nat × PackedEvent}
    {tail : List (Nat × PackedEvent)}
    (hdrop : (newestMatching st f q.sub.latestEventId).drop k = r :: tail) :
    (newestMatching st f q.sub.latestEventId).take (k + 1) =
        (newestMatching st f q.sub.latestEventId).take k ++ [r] ∧
      (insert r.1 q.sentEventsCurr).card = k + 1 ∧
      calls ++ [r.1].filter (· ∉ q.sentEventsFull) = before ++
        (((newestMatching st f q.sub.latestEventId).take (k + 1)).map
          Prod.fst).filter (· ∉ before) := by
  have htake : (newestMatching st f q.sub.latestEventId).take (k + 1) =
      (newestMatching st f q.sub.latestEventId).take k ++ [r] := by
    rw [List.take_add, hdrop]
    rfl
  have hnd := nodup_map_newestMatching st f q.sub.latestEventId
  have hnd' : (((newestMatching st f q.sub.latestEventId).take (k + 1)).map
      Prod.fst).Nodup := hnd.sublist ((List.take_sublist _ _).map _)
  have hlen : ((newestMatching st f q.sub.latestEventId).take k).length = k :=
    List.length_take_of_le h.le
  rw [htake, List.map_append, List.nodup_append] at hnd'
  have hnotin : r.1 ∉ ((newestMatching st f q.sub.latestEventId).take k).map Prod.fst :=
    fun hin => hnd'.2.2 _ hin r.1 (by simp) rfl
  refine ⟨htake, ?_, ?_⟩
  · rw [h.curr, Finset.card_insert_of_notMem (by simpa using hnotin),
      List.toFinset_card_of_nodup hnd'.1, List.length_map, hlen]
  · have hiff : r.1 ∈ q.sentEventsFull ↔ r.1 ∈ before := by
      rw [h.full, List.mem_toFinset, h.calls_eq, List.mem_append, List.mem_filter]
      constructor
      · rintro (hb | ⟨hin, -⟩)
        · exact hb
        · exact absurd hin hnotin
      · exact Or.inl
    rw [htake, List.map_append, List.filter_append, ← List.append_assoc, ← h.calls_eq]
    congr 1
    by_cases hb : r.1 ∈ before
    · simp [hb, hiff.2 hb]
    · simp [hb, mt hiff.1 hb]

/-- A matching row that has been handed out already changes nothing. -/
theorem FilterAt.again (h : FilterAt ord st f before q calls k) {r : Nat × PackedEvent}
    (hr : r ∈ (newestMatching st f q.sub.latestEventId).take k) :
    insert r.1 q.sentEventsFull = q.sentEventsFull ∧
      insert r.1 q.sentEventsCurr = q.sentEventsCurr ∧ q.sentEventsCurr.card = k ∧
      [r.1].filter (· ∉ q.sentEventsFull) = [] := by
  have hin : r.1 ∈ ((newestMatching st f q.sub.latestEventId).take k).map Prod.fst :=
    List.mem_map_of_mem hr
  have hfull : r.1 ∈ q.sentEventsFull := by
    rw [h.full, List.mem_toFinset, h.calls_eq, List.mem_append, List.mem_filter]
    by_cases hb : r.1 ∈ before
    · exact Or.inl hb
    · exact Or.inr ⟨hin, decide_eq_true hb⟩
  refine ⟨Finset.insert_eq_of_mem hfull, ?_, ?_, by simp [hfull]⟩
  · exact Finset.insert_eq_of_mem (by rw [h.curr, List.mem_toFinset]; exact hin)
  · have hnd := (nodup_map_newestMatching st f q.sub.latestEventId).sublist
      ((List.take_sublist k _).map _)
    rw [h.curr, List.toFinset_card_of_nodup hnd, List.length_map, List.length_take_of_le h.le]

/-- What becomes of the candidate at the head of the queue, of row `r`. -/
theorem FilterAt.handle (h : FilterAt ord st f before q calls k) (hf : f.WF)
    (hnext : (q.scanner.getD (.make f)).nextInitIndex = (q.scanner.getD (.make f)).cursors.length)
    {ev : CandidateEvent} {rest : List CandidateEvent}
    (hq : (q.scanner.getD (.make f)).eventQueue = ev :: rest) {r : Nat × PackedEvent}
    (hr : r ∈ st.event.rows) (hkey : DBScan.PlanKey f r.2) (hrank : ev.rank = rowRank r)
    {res : Bool × DBQuery.Sent}
    (hres : (if (q.scanner.getD (.make f)).doSend st ev then
        DBQuery.handleEvent f.limit q.sub.latestEventId
          ⟨q.sentEventsFull, q.sentEventsCurr, []⟩ ev.levId
      else (false, ⟨q.sentEventsFull, q.sentEventsCurr, []⟩)) = res) :
    (r ∉ (newestMatching st f q.sub.latestEventId).drop k ∧
        res = (false, ⟨q.sentEventsFull, q.sentEventsCurr, []⟩)) ∨
      (f.limit = 0 ∧ res = (true, ⟨q.sentEventsFull, q.sentEventsCurr, []⟩)) ∨
      ∃ tail, (newestMatching st f q.sub.latestEventId).drop k = r :: tail ∧ k < f.limit ∧
        res = (decide (f.limit ≤ k + 1), ⟨insert r.1 q.sentEventsFull,
          insert r.1 q.sentEventsCurr, [r.1].filter (· ∉ q.sentEventsFull)⟩) := by
  have hlev : ev.levId = r.1 := congrArg Prod.snd (show (_, _) = (_, _) from hrank)
  have hmem : ∀ {r'}, r' ∈ (newestMatching st f q.sub.latestEventId).drop k →
      f.doesMatch r'.2 = true ∧ (r'.1 : WithTop Nat) ≤ q.sub.latestEventId :=
    fun hr' => (mem_matchingRows.1 (mem_newestMatching.1 (List.mem_of_mem_drop hr'))).2
  rw [DBScan.doSend_eq hf h.scan.plan hr hkey hrank, hlev] at hres
  cases hm : f.doesMatch r.2 with
  | false =>
    rw [hm] at hres
    refine Or.inl ⟨fun hin => ?_, hres.symm⟩
    rw [(hmem hin).1] at hm
    cases hm
  | true =>
    rw [hm, if_pos rfl] at hres
    by_cases hlimit : f.limit = 0
    · rw [DBQuery.handleEvent, if_pos hlimit] at hres
      exact Or.inr (Or.inl ⟨hlimit, hres.symm⟩)
    by_cases hle : (r.1 : WithTop Nat) ≤ q.sub.latestEventId
    · have hin : r ∈ newestMatching st f q.sub.latestEventId :=
        mem_newestMatching.2 (mem_matchingRows.2 ⟨hr, hm, hle⟩)
      rw [DBQuery.handleEvent_eq hlimit hle] at hres
      have hlt : k < f.limit := by
        rcases h.lt_limit with hlt | rfl
        · exact hlt
        · exact Nat.pos_of_ne_zero hlimit
      rw [← List.take_append_drop k (newestMatching st f q.sub.latestEventId),
        List.mem_append] at hin
      rcases hin with hin | hin
      · obtain ⟨hfull, hcurr, hcard, hnew⟩ := h.again hin
        refine Or.inl ⟨?_, ?_⟩
        · intro hdrop
          have hnd : (newestMatching st f q.sub.latestEventId).Nodup :=
            List.Nodup.of_map _ (nodup_map_newestMatching _ _ _)
          rw [← List.take_append_drop k (newestMatching st f q.sub.latestEventId),
            List.nodup_append] at hnd
          exact hnd.2.2 r hin r hdrop rfl
        · rw [← hres]
          simp only [hfull, hcurr, hcard, hnew, List.nil_append]
          rw [decide_eq_false (not_le.2 hlt)]
      · obtain ⟨tail, htail⟩ := h.scan.head_next hnext hq hrank hin
        refine Or.inr (Or.inr ⟨tail, htail, hlt, ?_⟩)
        rw [← hres]
        simp only [(h.next htail).2.1, List.nil_append]
    · rw [DBQuery.handleEvent, if_neg hlimit, if_pos (not_le.1 hle)] at hres
      exact Or.inl ⟨fun hin => hle (hmem hin).2, hres.symm⟩

/-- One iteration of a query on a fixed snapshot: it goes on with the filter, with less left to do,
or it is done with it. -/
theorem step_spec (S : StdSort) (hst : SnapshotOk st) (hf : f.WF)
    (h : FilterAt ord st f before q calls k) :
    ∃ q' new, q.step S ord st f = some (q', new) ∧
      ((q'.sub = q.sub ∧ q'.filterGroupIndex = q.filterGroupIndex ∧
          (∃ k', FilterAt ord st f before q' (calls ++ new) k') ∧
          (q'.scanner.getD (.make f)).work ord st + 1 ≤ (q.scanner.getD (.make f)).work ord st) ∨
        FilterDone st f before q q' (calls ++ new)) := by
  have hscan := h.scan
  have hexact := (DBScan.exact_make hf st).samePlan hscan.plan
  have hiter := DBScan.iter_spec S hst hexact hscan.inv
    (DBQuery.handleEvent f.limit q.sub.latestEventId) ⟨q.sentEventsFull, q.sentEventsCurr, []⟩
  unfold DBQuery.step
  generalize hit : (q.scanner.getD (.make f)).iter S ord st
    (DBQuery.handleEvent f.limit q.sub.latestEventId)
    ⟨q.sentEventsFull, q.sentEventsCurr, []⟩ = it at hiter ⊢
  simp only [hit]
  cases hiter with
  | init s' hlt hinv hplan hnext hperm hord =>
    refine ⟨_, _, rfl, Or.inl ⟨rfl, rfl, ⟨k, ?_⟩, ?_⟩⟩
    · exact ⟨hscan.of_perm hinv (hord hscan.order) hplan hperm, h.le, h.lt_limit, h.curr,
        by rw [List.append_nil]; exact h.full, by rw [List.append_nil]; exact h.calls_eq⟩
    · show s'.work ord st + 1 ≤ _
      rw [DBScan.work, DBScan.work, hperm.length_eq, hnext, hplan.length_eq]
      omega
  | empty hempty =>
    -- every matching row has been handed out
    have hdrop : (newestMatching st f q.sub.latestEventId).drop k = [] := by
      rw [List.eq_nil_iff_forall_not_mem]
      intro r hr
      have := hscan.ahead r hr
      rw [hempty] at this
      cases this
    have hk := List.drop_eq_nil_iff.1 hdrop
    refine ⟨_, _, rfl, Or.inr ⟨rfl, rfl, rfl, rfl, by rw [List.append_nil]; exact h.full, ?_⟩⟩
    rw [List.append_nil, h.calls_eq, answer, List.take_of_length_le hk]
    rw [List.take_of_length_le]
    rcases h.lt_limit with hlt | rfl
    · exact hk.trans hlt.le
    · exact hk.trans (Nat.zero_le _)
  | stop ev rest t' hnext hq hsend hstop =>
    obtain ⟨r, hr, hkey, hrank⟩ := hscan.head_row hq
    rcases h.handle hf hnext hq hr hkey hrank (if_pos hsend |>.trans hstop) with
      ⟨-, hres⟩ | ⟨hlimit, hres⟩ | ⟨tail, htail, hlt, hres⟩
    · cases hres
    · cases hres
      have hk : k = 0 := by
        rcases h.lt_limit with hlt | hk
        · omega
        · exact hk
      refine ⟨_, _, rfl, Or.inr ⟨rfl, rfl, rfl, rfl, by rw [List.append_nil]; exact h.full, ?_⟩⟩
      rw [List.append_nil, h.calls_eq, answer, hlimit, hk]
    · obtain ⟨hdec, rfl⟩ := Prod.mk.inj hres
      obtain ⟨-, hcard, hcalls⟩ := h.next htail
      have hlimit : f.limit = k + 1 := le_antisymm (of_decide_eq_true hdec.symm) hlt
      refine ⟨_, _, rfl, Or.inr ⟨rfl, rfl, rfl, rfl, ?_, ?_⟩⟩
      · rw [List.toFinset_append, ← h.full, toFinset_filter_notMem]
      · rw [hcalls, answer, hlimit]
  | pop ev rest s' t' hnext hq hres hinv hplan hn hperm hord =>
    obtain ⟨r, hr, hkey, hrank⟩ := hscan.head_row hq
    have hwork : s'.work ord st + 1 ≤ (q.scanner.getD (.make f)).work ord st := by
      rw [DBScan.work, DBScan.work, hperm.length_eq, hn, hplan.length_eq, List.length_cons]
      omega
    rcases h.handle hf hnext hq hr hkey hrank hres with
      ⟨hnot, heq⟩ | ⟨hlimit, heq⟩ | ⟨tail, htail, hlt, heq⟩
    · cases heq
      refine ⟨_, _, rfl, Or.inl ⟨rfl, rfl, ⟨k, ?_⟩, hwork⟩⟩
      exact ⟨hscan.of_pop hinv (hord hscan.order) hplan hperm le_rfl
          (FilterAt.not_ahead hr hrank hnot), h.le, h.lt_limit, h.curr,
        by rw [List.append_nil]; exact h.full, by rw [List.append_nil]; exact h.calls_eq⟩
    · cases heq
    · obtain ⟨hdec, rfl⟩ := Prod.mk.inj heq
      obtain ⟨htake, hcard, hcalls⟩ := h.next htail
      have hlt' : k + 1 < f.limit := not_le.1 (of_decide_eq_false hdec.symm)
      refine ⟨_, _, rfl, Or.inl ⟨rfl, rfl, ⟨k + 1, ?_⟩, hwork⟩⟩
      have hlen : k < (newestMatching st f q.sub.latestEventId).length := by
        by_contra hge
        rw [List.drop_eq_nil_of_le (not_lt.1 hge)] at htail
        cases htail
      have htail' : (newestMatching st f q.sub.latestEventId).drop (k + 1) = tail := by
        rw [← List.tail_drop, htail, List.tail_cons]
      refine ⟨hscan.of_pop hinv (hord hscan.order) hplan hperm (Nat.le_succ k)
        (FilterAt.not_ahead hr hrank ?_), hlen, Or.inl hlt', ?_, ?_, ?_⟩
      · rw [htail']
        have hnd : ((newestMatching st f q.sub.latestEventId).drop k).Nodup :=
          (List.Nodup.of_map _ (nodup_map_newestMatching _ _ _)).sublist (List.drop_sublist _ _)
        rw [htail] at hnd
        exact (List.nodup_cons.1 hnd).1
      · show insert r.1 q.sentEventsCurr = _
        rw [htake, List.map_append, List.toFinset_append, ← h.curr]
        simp
      · rw [List.toFinset_append, ← h.full, toFinset_filter_notMem]
      · exact hcalls

end Step

/-! ## Whole queries -/

/-- The filters of a query. -/
abbrev DBQuery.filters (q : DBQuery) : List NostrFilter := q.sub.filterGroup.filters

/-- A query on a fixed snapshot, with the callbacks it has made. -/
inductive QueryInv (ord : IndexOrder) (st : Store) (q : DBQuery) (calls : List Nat) : Prop
  | finished : q.filterGroupIndex = q.filters.length →
      calls = delivered st q.sub.latestEventId [] q.filters → QueryInv ord st q calls
  | running (f : NostrFilter) (k : Nat) : q.filters[q.filterGroupIndex]? = some f →
      FilterAt ord st f
        (delivered st q.sub.latestEventId [] (q.filters.take q.filterGroupIndex)) q calls k →
      QueryInv ord st q calls

theorem delivered_append {st : Store} {latest : WithTop Nat} {sent : List Nat}
    {fs gs : List NostrFilter} :
    delivered st latest sent (fs ++ gs) = delivered st latest (delivered st latest sent fs) gs := by
  induction fs generalizing sent with
  | nil => rfl
  | cons f fs ih => exact ih

/-- The iterations left in a query, if its limits do not stop it. -/
def DBQuery.work (ord : IndexOrder) (st : Store) (q : DBQuery) : Nat :=
  match q.filters.drop q.filterGroupIndex with
  | [] => 0
  | f :: fs => ((q.scanner.getD (.make f)).work ord st + 1) +
      (fs.map fun g => (DBScan.make g).work ord st + 1).sum

section Process

variable {S : StdSort} {ord : IndexOrder} {st : Store} {q q' : DBQuery} {calls : List Nat}

/-- A query whose filters are all done is complete. -/
theorem process_of_none (hf : q.filters[q.filterGroupIndex]? = none) (n : Nat) :
    q.process S ord st n = some (q, [], true) := by
  cases n <;> simp only [DBQuery.process, hf]

theorem drop_filterGroupIndex {f : NostrFilter} (hf : q.filters[q.filterGroupIndex]? = some f) :
    q.filters.drop q.filterGroupIndex = f :: q.filters.drop (q.filterGroupIndex + 1) := by
  obtain ⟨hlt, hget⟩ := List.getElem?_eq_some_iff.1 hf
  rw [← hget, List.getElem_cons_drop]

/-- A query that is about to start a filter. -/
theorem queryInv_start (hst : SnapshotOk st)
    (hcur : ∀ f ∈ q.filters, DBScan.numCursors f ≤ 2 ^ 24)
    (hle : q.filterGroupIndex ≤ q.filters.length) (hscanner : q.scanner = none)
    (hcurr : q.sentEventsCurr = ∅) (hfull : q.sentEventsFull = calls.toFinset)
    (hcalls : calls = delivered st q.sub.latestEventId [] (q.filters.take q.filterGroupIndex)) :
    QueryInv ord st q calls := by
  cases hf : q.filters[q.filterGroupIndex]? with
  | none =>
    have heq := le_antisymm hle (List.getElem?_eq_none_iff.1 hf)
    exact .finished heq (by rw [hcalls, heq, List.take_length])
  | some f =>
    refine .running f 0 hf ⟨?_, Nat.zero_le _, Or.inr rfl, ?_, hfull, ?_⟩
    · rw [hscanner]
      exact scanAt_make hst (hcur f (List.mem_of_getElem? hf))
    · rw [hcurr, List.take_zero]
      rfl
    · rw [List.take_zero, List.map_nil, List.filter_nil, List.append_nil]
      exact hcalls

theorem FilterDone.queryInv {f : NostrFilter} (hst : SnapshotOk st)
    (hcur : ∀ f ∈ q.filters, DBScan.numCursors f ≤ 2 ^ 24)
    (hf : q.filters[q.filterGroupIndex]? = some f)
    (h : FilterDone st f
      (delivered st q.sub.latestEventId [] (q.filters.take q.filterGroupIndex)) q q' calls) :
    QueryInv ord st q' calls := by
  have hfilters : q'.filters = q.filters := by rw [DBQuery.filters, h.sub]
  obtain ⟨hlt, hget⟩ := List.getElem?_eq_some_iff.1 hf
  refine queryInv_start hst (hfilters ▸ hcur) ?_ h.scanner h.curr h.full ?_
  · rw [h.index, hfilters]
    exact hlt
  · rw [h.calls_eq, h.sub, h.index, hfilters, List.take_succ_eq_append_getElem hlt, hget,
      delivered_append]
    rfl

/-- After a filter is done, the work for the later ones is left. -/
theorem FilterDone.work {f : NostrFilter} {before : List Nat}
    (hf : q.filters[q.filterGroupIndex]? = some f) (h : FilterDone st f before q q' calls) :
    q'.work ord st + 1 ≤ q.work ord st := by
  have hfilters : q'.filters = q.filters := by rw [DBQuery.filters, h.sub]
  rw [DBQuery.work, DBQuery.work, h.index, hfilters, drop_filterGroupIndex hf, h.scanner]
  cases q.filters.drop (q.filterGroupIndex + 1) with
  | nil => simp
  | cons g gs =>
    simp only [Option.getD_none, List.map_cons, List.sum_cons]
    omega

/-- An iteration keeps the invariant and leaves less work. -/
theorem queryInv_step (S : StdSort) (hst : SnapshotOk st)
    (hcur : ∀ f ∈ q.filters, DBScan.numCursors f ≤ 2 ^ 24) {f : NostrFilter} {k : Nat}
    (hf : q.filters[q.filterGroupIndex]? = some f)
    (hat : FilterAt ord st f
      (delivered st q.sub.latestEventId [] (q.filters.take q.filterGroupIndex)) q calls k) :
    ∃ q₁ new, q.step S ord st f = some (q₁, new) ∧ q₁.sub = q.sub ∧
      QueryInv ord st q₁ (calls ++ new) ∧ q₁.work ord st + 1 ≤ q.work ord st := by
  have hwf : f.WF := q.sub.filterGroup.wf f (List.mem_of_getElem? hf)
  obtain ⟨q₁, new, hstep, hcases⟩ := step_spec S hst hwf hat
  refine ⟨q₁, new, hstep, ?_⟩
  rcases hcases with ⟨hsub, hidx, ⟨k', hat'⟩, hwork⟩ | hdone
  · have hfilters : q₁.filters = q.filters := by rw [DBQuery.filters, hsub]
    refine ⟨hsub, .running f k' (by rw [hfilters, hidx]; exact hf) ?_, ?_⟩
    · rw [hsub, hidx, hfilters]
      exact hat'
    · rw [DBQuery.work, DBQuery.work, hidx, hfilters, drop_filterGroupIndex hf]
      simp only
      omega
  · exact ⟨hdone.sub, hdone.queryInv hst hcur hf, hdone.work hf⟩

/-- What a call of `process` leaves, of a query that had made the callbacks `calls`. -/
structure ProcessSpec (ord : IndexOrder) (st : Store) (q : DBQuery) (calls : List Nat) (n : Nat)
    (q' : DBQuery) (new : List Nat) (complete : Bool) : Prop where
  sub : q'.sub = q.sub
  inv : QueryInv ord st q' (calls ++ new)
  all : complete = true → calls ++ new = delivered st q.sub.latestEventId [] q.filters
  work : complete = false → q'.work ord st + n ≤ q.work ord st ∧ 0 < q'.work ord st

/-- A call of `process` on a fixed snapshot keeps the invariant. It ends with all callbacks made, or
with less work left. -/
theorem process_spec (S : StdSort) (hst : SnapshotOk st)
    (hcur : ∀ f ∈ q.filters, DBScan.numCursors f ≤ 2 ^ 24) (h : QueryInv ord st q calls) (n : Nat) :
    ∃ q' new complete, q.process S ord st n = some (q', new, complete) ∧
      ProcessSpec ord st q calls n q' new complete := by
  induction n generalizing q calls with
  | zero =>
    cases h with
    | finished hidx hcalls =>
      refine ⟨q, [], true, process_of_none (by rw [hidx, List.getElem?_length]) 0, rfl, ?_, ?_,
        nofun⟩
      · rw [List.append_nil]
        exact .finished hidx hcalls
      · intro _
        rw [List.append_nil, hcalls]
    | running f k hf hat =>
      refine ⟨{ q with scanner := some (q.scanner.getD (DBScan.make f)) }, [], false,
        by simp only [DBQuery.process, hf], rfl, ?_, nofun, fun _ => ?_⟩
      · rw [List.append_nil]
        exact .running f k hf ⟨hat.scan, hat.le, hat.lt_limit, hat.curr, hat.full, hat.calls_eq⟩
      · have hdrop := drop_filterGroupIndex hf
        simp only [DBQuery.work, DBQuery.filters] at hdrop ⊢
        simp only [hdrop, Option.getD_some]
        omega
  | succ n ih =>
    cases h with
    | finished hidx hcalls =>
      refine ⟨q, [], true, process_of_none (by rw [hidx, List.getElem?_length]) _, rfl, ?_, ?_,
        nofun⟩
      · rw [List.append_nil]
        exact .finished hidx hcalls
      · intro _
        rw [List.append_nil, hcalls]
    | running f k hf hat =>
      obtain ⟨q₁, new, hstep, hsub, hinv, hwork⟩ := queryInv_step S hst hcur hf hat
      have hfilters : q₁.filters = q.filters := by rw [DBQuery.filters, hsub]
      obtain ⟨q', new', complete, hproc, hspec⟩ := ih (hfilters ▸ hcur) hinv
      refine ⟨q', new ++ new', complete, ?_, hspec.sub.trans hsub, ?_, ?_, ?_⟩
      · simp only [DBQuery.process, hf, hstep, hproc, Option.map_some]
      · rw [← List.append_assoc]
        exact hspec.inv
      · intro hb
        rw [← List.append_assoc, hspec.all hb, hsub, hfilters]
      · intro hb
        have := hspec.work hb
        omega

end Process

end Strfry
