import Strfry.NegentropyErrors
import Strfry.NegentropyOpen
import Strfry.QueryAnswers

/-!
# What an in-memory session reconciles

A NEG-OPEN that no tree serves collects the events of its filters with a query whose filters are cut
at `maxSyncEvents + 1`, and is refused when it has collected more than `maxSyncEvents`. A filter that
was cut has delivered more than `maxSyncEvents` events by itself, whatever the other filters have
delivered before it; so a set that is not refused has lost nothing. `Session` is the part of a run
in which the query is served, slice by slice on one snapshot, between turns of all kinds.

This needs a query that answers its filters, which fails for plans with more than `2 ^ 24` cursors.
-/

set_option autoImplicit false

namespace Strfry

open Lib

/-! ## Sets that were not cut -/

/-- The stored events that match one of the filters. -/
def matchingAny (st : Store) (g : NostrFilterGroup) : List (Nat × PackedEvent) :=
  st.event.rows.filter fun r => g.doesMatch r.2

/-- What is reconciled of an event. -/
def itemOf (r : Nat × PackedEvent) : Nat × Bytes := (r.2.createdAt, r.2.id)

section Uncut

variable {st : Store} {g : NostrFilterGroup} {latest : WithTop Nat} {f : NostrFilter}

theorem mem_matchingAny {r : Nat × PackedEvent} : r ∈ matchingAny st g ↔
    r ∈ st.event.rows ∧ ∃ f ∈ g.filters, f.doesMatch r.2 = true := by
  rw [matchingAny, List.mem_filter, NostrFilterGroup.doesMatch_iff]

theorem nodup_matchingAny_keys (st : Store) (g : NostrFilterGroup) :
    ((matchingAny st g).map Prod.fst).Nodup :=
  st.event.nodup_keys.sublist (List.filter_sublist.map _)

/-- Different events have different ids, so their pairs are different. -/
theorem nodup_itemOf (hu : st.UniqueIds) (g : NostrFilterGroup) :
    ((matchingAny st g).map itemOf).Nodup := by
  refine List.Nodup.map_on ?_ (st.event.nodup_rows.filter _)
  intro a ha b hb hab
  exact hu a b (mem_matchingAny.1 ha).1 (mem_matchingAny.1 hb).1 (congrArg Prod.snd hab)

theorem mem_answer {levId : Nat} (h : levId ∈ answer st f latest) :
    ∃ r ∈ matchingRows st f latest, r.1 = levId := by
  obtain ⟨r, hr, rfl⟩ := List.mem_map.1 h
  exact ⟨r, mem_newestMatching.1 (List.mem_of_mem_take hr), rfl⟩

/-- An answer that is shorter than the limit has every event that matches. -/
theorem mem_answer_of_length_lt (hlt : (answer st f latest).length < f.limit)
    {r : Nat × PackedEvent} (hr : r ∈ matchingRows st f latest) : r.1 ∈ answer st f latest := by
  rw [answer, List.length_map, List.length_take] at hlt
  rw [answer, List.take_of_length_le (by omega)]
  exact List.mem_map_of_mem (mem_newestMatching.2 hr)

/-- The callbacks of a query for everything that is stored: they are for events that match; and if
there are at most `M` of them, where the filters are cut at `M + 1`, for all of these. -/
theorem mem_delivered_of_le {M : Nat} (hlimit : ∀ f ∈ g.filters, f.limit = M + 1)
    (hlatest : ∀ r ∈ st.event.rows, (r.1 : WithTop Nat) ≤ latest)
    (hle : (delivered st latest [] g.filters).length ≤ M) {levId : Nat} :
    levId ∈ delivered st latest [] g.filters ↔ levId ∈ (matchingAny st g).map Prod.fst := by
  rw [mem_delivered]
  constructor
  · rintro (hnil | ⟨f, hf, hans⟩)
    · cases hnil
    · obtain ⟨r, hr, rfl⟩ := mem_answer hans
      obtain ⟨hrow, hm, -⟩ := mem_matchingRows.1 hr
      exact List.mem_map_of_mem (mem_matchingAny.2 ⟨hrow, f, hf, hm⟩)
  · intro hmem
    obtain ⟨r, hr, rfl⟩ := List.mem_map.1 hmem
    obtain ⟨hrow, f, hf, hm⟩ := mem_matchingAny.1 hr
    -- the answer to the filter is among the callbacks, so it is short and was not cut
    have hsub : answer st f latest ⊆ delivered st latest [] g.filters :=
      fun x hx => mem_delivered.2 (Or.inr ⟨f, hf, hx⟩)
    have hshort := (List.subperm_of_subset nodup_answer hsub).length_le
    have hlt : (answer st f latest).length < f.limit := by
      rw [hlimit f hf]
      omega
    exact Or.inr ⟨f, hf, mem_answer_of_length_lt hlt (mem_matchingRows.2 ⟨hrow, hm, hlatest r hrow⟩)⟩

/-- The callbacks are more than `M` exactly if more than `M` stored events match. -/
theorem lt_length_delivered_iff {M : Nat} (hlimit : ∀ f ∈ g.filters, f.limit = M + 1)
    (hlatest : ∀ r ∈ st.event.rows, (r.1 : WithTop Nat) ≤ latest) :
    M < (delivered st latest [] g.filters).length ↔ M < (matchingAny st g).length := by
  have hnd : (delivered st latest [] g.filters).Nodup := nodup_delivered List.nodup_nil _
  constructor
  · intro hlt
    have hsub : delivered st latest [] g.filters ⊆ (matchingAny st g).map Prod.fst := by
      intro x hx
      rcases mem_delivered.1 hx with hnil | ⟨f, hf, hans⟩
      · cases hnil
      · obtain ⟨r, hr, rfl⟩ := mem_answer hans
        obtain ⟨hrow, hm, -⟩ := mem_matchingRows.1 hr
        exact List.mem_map_of_mem (mem_matchingAny.2 ⟨hrow, f, hf, hm⟩)
    have hlen := (List.subperm_of_subset hnd hsub).length_le
    rw [List.length_map] at hlen
    omega
  · intro hlt
    by_contra hnot
    have hsub : (matchingAny st g).map Prod.fst ⊆ delivered st latest [] g.filters :=
      fun x hx => (mem_delivered_of_le hlimit hlatest (not_lt.1 hnot)).2 hx
    have hlen := (List.subperm_of_subset (nodup_matchingAny_keys st g) hsub).length_le
    rw [List.length_map] at hlen
    omega

end Uncut

namespace NegentropyThread

/-! ## Sessions -/

/-- The query under the id of the subscription is the next one to run. -/
def IsNext (t : NegentropyThread) (sub : Subscription) (h : HeapQuery) : Prop :=
  ∃ q rest, t.queries.running = q :: rest ∧ t.queries.queries.lookup q = some h ∧ h.dead = false ∧
    h.query.sub.connId = sub.connId ∧ h.query.sub.subId = sub.subId

/-- The states while a NEG-OPEN is served from memory, up to the next NEG-OPEN for the same id. All
slices of its query run on the snapshot `st`; those of other queries run on any. The number is that
of the iterations which the query has been given. -/
inductive Session (lib : NegentropyLib) (cfg : NegentropyConfig) (S : StdSort) (ord : IndexOrder)
    (st : Store) (sub : Subscription) (filterStr : Bytes) : NegentropyThread → Nat → Prop
  | opened {t : NegentropyThread} {db : Db} {q : QueryPtr} {negPayload : Bytes}
      (reach : Reachable lib cfg True t) (snapshot : db.toStore = st)
      (select : selectTree db.negentropyFilter filterStr = none)
      (unused : t.queries.queries.lookup q = none) :
      Session lib cfg S ord st sub filterStr (t.openMemory cfg st q sub negPayload).1 0
  | slice {t : NegentropyThread} {m n : Nat} {h : HeapQuery}
      {r : NegentropyThread × List NegReply} (prev : Session lib cfg S ord st sub filterStr t m)
      (next : IsNext t sub h) (call : t.slice lib cfg S ord st n = some (.ok r)) :
      Session lib cfg S ord st sub filterStr r.1 (m + n)
  | otherSlice {t : NegentropyThread} {m n : Nat} {st' : Store}
      {r : NegentropyThread × List NegReply} (prev : Session lib cfg S ord st sub filterStr t m)
      (next : ∀ h, ¬ IsNext t sub h) (call : t.slice lib cfg S ord st' n = some (.ok r)) :
      Session lib cfg S ord st sub filterStr r.1 m
  | openTree {t : NegentropyThread} {m : Nat} {db : Db} {sub' : Subscription} {negPayload : Bytes}
      {treeId : Nat} {r : NegentropyThread × List NegReply}
      (prev : Session lib cfg S ord st sub filterStr t m)
      (other : ¬ (sub.connId = sub'.connId ∧ sub.subId = sub'.subId))
      (call : t.openTree lib cfg db sub' negPayload treeId = .ok r) :
      Session lib cfg S ord st sub filterStr r.1 m
  | openMemory {t : NegentropyThread} {m : Nat} {st' : Store} {q : QueryPtr} {sub' : Subscription}
      {negPayload : Bytes} (prev : Session lib cfg S ord st sub filterStr t m)
      (other : ¬ (sub.connId = sub'.connId ∧ sub.subId = sub'.subId))
      (unused : t.queries.queries.lookup q = none) :
      Session lib cfg S ord st sub filterStr (t.openMemory cfg st' q sub' negPayload).1 m
  | negMsg {t : NegentropyThread} {m : Nat} {db : Db} {connId : Nat} {subId : SubId}
      {negPayload : Bytes} {r : NegentropyThread × List NegReply}
      (prev : Session lib cfg S ord st sub filterStr t m)
      (call : t.negMsg lib db connId subId negPayload = .ok r) :
      Session lib cfg S ord st sub filterStr r.1 m
  | negClose {t : NegentropyThread} {m : Nat} (prev : Session lib cfg S ord st sub filterStr t m)
      (connId : Nat) (subId : SubId) :
      Session lib cfg S ord st sub filterStr (t.negClose connId subId) m
  | closeConn {t : NegentropyThread} {m : Nat} (prev : Session lib cfg S ord st sub filterStr t m)
      (connId : Nat) : Session lib cfg S ord st sub filterStr (t.closeConn connId) m

/-- The subscription as its query has it. -/
def asQueried (st : Store) (sub : Subscription) : Subscription :=
  { sub with latestEventId := st.getMostRecentLevId }

/-- The query and its view: the view has the callbacks that the query has made, and is not sealed. -/
structure Collecting (ord : IndexOrder) (st : Store) (sub : Subscription) (m : Nat) (h : HeapQuery)
    (o : Option UserView) (calls : List Nat) (view : MemoryView) : Prop where
  query : h.query.sub = asQueried st sub
  inv : QueryInv ord st h.query calls
  work : h.query.work ord st + m ≤ (DBQuery.new (asQueried st sub)).work ord st
  found : o = some (.memory view)
  levIds : view.levIds = calls
  open_ : view.storageVector = none

/-- The query of the session, if it is still there, has collected its callbacks in its view. -/
structure Served (ord : IndexOrder) (st : Store) (sub : Subscription) (t : NegentropyThread)
    (m : Nat) : Prop where
  queries : t.queries.Inv
  collecting : ∀ h, t.queries.live sub.connId sub.subId = some h →
    ∃ calls view, Collecting ord st sub m h (t.views.findView sub.connId sub.subId) calls view

section Served

variable {lib : NegentropyLib} {cfg : NegentropyConfig} {S : StdSort} {ord : IndexOrder}
  {st : Store} {sub : Subscription} {t t' : NegentropyThread} {m : Nat}

/-- A turn that keeps the query and its view, or takes the query away. -/
theorem Served.frame (h : Served ord st sub t m) (hinv : t'.queries.Inv)
    (hkeep : ∀ q, t'.queries.live sub.connId sub.subId = some q →
      t.queries.live sub.connId sub.subId = some q ∧
        ((∃ view, t.views.findView sub.connId sub.subId = some (.memory view) ∧
            view.storageVector = none) →
          t'.views.findView sub.connId sub.subId = t.views.findView sub.connId sub.subId)) :
    Served ord st sub t' m where
  queries := hinv
  collecting := by
    intro q hq
    obtain ⟨hold, hview⟩ := hkeep q hq
    obtain ⟨calls, view, hc⟩ := h.collecting q hold
    refine ⟨calls, view, hc.query, hc.inv, hc.work, ?_, hc.levIds, hc.open_⟩
    rw [hview ⟨view, hc.found, hc.open_⟩, hc.found]

/-- The query that a NEG-OPEN makes, with its view. -/
theorem served_openMemory (hst : SnapshotOk st)
    (hcur : ∀ f ∈ sub.filterGroup.filters, DBScan.numCursors f ≤ 2 ^ 24) (ht : t.queries.Inv)
    {q : QueryPtr} (hq : t.queries.queries.lookup q = none) (negPayload : Bytes) :
    Served ord st sub (t.openMemory cfg st q sub negPayload).1 0 := by
  obtain ⟨b, s', hadd, hinv, hlive, -⟩ := QueryScheduler.addSub_spec ht cfg.maxSubsPerConnection st
    hq t.opened sub
  obtain ⟨b', views', hview, hfind⟩ := NegentropyViews.addView_spec cfg.maxSubsPerConnection
    t.views sub.connId sub.subId (.memory { initialMsg := negPayload, serial := t.opened })
  rw [NegentropyThread.openMemory]
  simp only [NegentropyViews.addMemoryView, hadd, hview]
  cases b' with
  | true =>
    refine ⟨hinv, fun h hh => ?_⟩
    change s'.live sub.connId sub.subId = some h at hh
    rw [hlive, if_pos ⟨rfl, rfl⟩] at hh
    cases b with
    | false => cases hh
    | true =>
      cases hh
      refine ⟨[], { initialMsg := negPayload, serial := t.opened }, rfl, ?_, le_rfl,
        (hfind _ _).trans (by simp), rfl, rfl⟩
      exact queryInv_start hst hcur (Nat.zero_le _) rfl rfl rfl rfl
  | false =>
    refine ⟨hinv.removeSub sub.connId sub.subId, fun h hh => ?_⟩
    have hrem := QueryScheduler.live_removeSub hinv sub.connId sub.connId sub.subId sub.subId
    rw [if_pos ⟨rfl, rfl⟩] at hrem
    have hfound := hrem.symm.trans hh
    cases hfound

theorem Served.openMemory (h : Served ord st sub t m) {st' : Store} {q : QueryPtr}
    {sub' : Subscription} {negPayload : Bytes}
    (hother : ¬ (sub.connId = sub'.connId ∧ sub.subId = sub'.subId))
    (hq : t.queries.queries.lookup q = none) :
    Served ord st sub (t.openMemory cfg st' q sub' negPayload).1 m := by
  obtain ⟨b, s', hadd, hinv, hlive, -⟩ := QueryScheduler.addSub_spec h.queries
    cfg.maxSubsPerConnection st' hq t.opened sub'
  obtain ⟨b', views', hview, hfind⟩ := NegentropyViews.addView_spec cfg.maxSubsPerConnection
    t.views sub'.connId sub'.subId (.memory { initialMsg := negPayload, serial := t.opened })
  rw [NegentropyThread.openMemory]
  simp only [NegentropyViews.addMemoryView, hadd, hview]
  have hview' := (hfind sub.connId sub.subId).trans (if_neg hother)
  have hlive' := (hlive sub.connId sub.subId).trans (if_neg hother)
  cases b' with
  | true => exact h.frame hinv fun q' hq' => ⟨hlive'.symm.trans hq', fun _ => hview'⟩
  | false =>
    apply h.frame (hinv.removeSub sub'.connId sub'.subId)
    intro q' hq'
    have hrem := QueryScheduler.live_removeSub hinv sub'.connId sub.connId sub'.subId sub.subId
    rw [if_neg hother] at hrem
    exact ⟨hlive'.symm.trans (hrem.symm.trans hq'), fun _ => hview'⟩

theorem Served.openTree (h : Served ord st sub t m) {db : Db} {sub' : Subscription}
    {negPayload : Bytes} {treeId : Nat}
    (hother : ¬ (sub.connId = sub'.connId ∧ sub.subId = sub'.subId))
    {r : NegentropyThread × List NegReply}
    (hr : t.openTree lib cfg db sub' negPayload treeId = .ok r) : Served ord st sub r.1 m := by
  rw [NegentropyThread.openTree] at hr
  split at hr
  · cases hr
  · rename_i f _
    obtain ⟨b, views', hadd, hfind⟩ := NegentropyViews.addView_spec cfg.maxSubsPerConnection
      (handleReconcile lib t.views sub'.connId sub'.subId (subRange (db.trees treeId) f)
        negPayload).1 sub'.connId sub'.subId (.stateless ⟨sub', treeId⟩)
    have hview : views'.findView sub.connId sub.subId = t.views.findView sub.connId sub.subId := by
      rw [hfind, if_neg hother]
      exact findView_handleReconcile_of_ne lib t.views _ negPayload hother
    simp only [NegentropyViews.addStatelessView, hadd] at hr
    cases b with
    | true =>
      cases hr
      exact h.frame h.queries fun q' hq' => ⟨hq', fun _ => hview⟩
    | false =>
      cases hr
      apply h.frame (h.queries.removeSub sub'.connId sub'.subId)
      intro q' hq'
      have hrem := QueryScheduler.live_removeSub h.queries sub'.connId sub.connId sub'.subId sub.subId
      rw [if_neg hother] at hrem
      exact ⟨hrem.symm.trans hq', fun _ => hview⟩

/-- A NEG-MSG for the id comes too early, while its view is not sealed. -/
theorem Served.negMsg (h : Served ord st sub t m) {db : Db} {connId : Nat} {subId : SubId}
    {negPayload : Bytes} {r : NegentropyThread × List NegReply}
    (hr : t.negMsg lib db connId subId negPayload = .ok r) : Served ord st sub r.1 m := by
  have hreconcile : ∀ storage,
      (∀ view, t.views.findView connId subId = some (.memory view) → view.storageVector ≠ none) →
      Served ord st sub
        { t with views := (handleReconcile lib t.views connId subId storage negPayload).1 } m := by
    intro storage hsealed
    refine h.frame h.queries fun q hq => ⟨hq, ?_⟩
    rintro ⟨view, hview, hopen⟩
    by_cases hkey : sub.connId = connId ∧ sub.subId = subId
    · rw [hkey.1, hkey.2] at hview
      exact absurd hopen (hsealed view hview)
    · exact findView_handleReconcile_of_ne lib t.views storage negPayload hkey
  rw [NegentropyThread.negMsg] at hr
  split at hr
  · cases hr
    exact h
  · rename_i view hview
    split at hr
    · cases hr
      exact h
    · rename_i storage hstorage
      cases hr
      apply hreconcile storage
      intro view' hview'
      rw [hview] at hview'
      cases hview'
      rw [hstorage]
      exact Option.some_ne_none storage
  · rename_i view hview
    split at hr
    · cases hr
    · cases hr
      apply hreconcile
      intro view' hview'
      rw [hview] at hview'
      cases hview'

theorem Served.negClose (h : Served ord st sub t m) (connId : Nat) (subId : SubId) :
    Served ord st sub (t.negClose connId subId) m := by
  apply h.frame (h.queries.removeSub connId subId)
  intro q hq
  have hlive := QueryScheduler.live_removeSub h.queries connId sub.connId subId sub.subId
  change (t.queries.removeSub connId subId).live sub.connId sub.subId = some q at hq
  rw [hlive] at hq
  split at hq
  · cases hq
  · rename_i hkey
    refine ⟨hq, fun _ => ?_⟩
    exact (NegentropyViews.findView_removeView t.views connId _ subId _).trans (if_neg hkey)

theorem Served.closeConn (h : Served ord st sub t m) (connId : Nat) :
    Served ord st sub (t.closeConn connId) m := by
  apply h.frame (h.queries.closeConn connId)
  intro q hq
  have hlive := QueryScheduler.live_closeConn h.queries connId sub.connId sub.subId
  change (t.queries.closeConn connId).live sub.connId sub.subId = some q at hq
  rw [hlive] at hq
  split at hq
  · cases hq
  · rename_i hc
    refine ⟨hq, fun _ => ?_⟩
    exact (NegentropyViews.findView_closeConn t.views connId _ _).trans (if_neg hc)

/-! ## Slices -/

theorem IsNext.live {h : HeapQuery} (hinv : t.queries.Inv) (hn : IsNext t sub h) :
    t.queries.live sub.connId sub.subId = some h := by
  obtain ⟨q, -, -, hlook, hlive, hc, hi⟩ := hn
  exact (QueryScheduler.live_eq_some_iff hinv).2
    ⟨q, hlook, hlive, hc, hi⟩

theorem onEventBatch_of_ne {views views' : NegentropyViews} {sub' : Subscription}
    {levIds : List Nat} (h : onEventBatch views sub' levIds = .ok views') {c : Nat} {i : SubId}
    (hkey : ¬ (c = sub'.connId ∧ i = sub'.subId)) : views'.findView c i = views.findView c i := by
  rw [onEventBatch] at h
  split at h
  · cases h
    rfl
  · cases h
  · cases h
    rw [NegentropyViews.findView_assignIn, if_neg hkey]

/-- A slice of another query, or of none. -/
theorem Served.otherSlice (h : Served ord st sub t m) {st' : Store} {n : Nat}
    (hnext : ∀ q, ¬ IsNext t sub q) {r : NegentropyThread × List NegReply}
    (hr : t.slice lib cfg S ord st' n = some (.ok r)) : Served ord st sub r.1 m := by
  rw [NegentropyThread.slice] at hr
  split at hr
  · cases hr
  · rename_i queries hp
    cases hr
    obtain ⟨hinv, ⟨-, hlive⟩ | ⟨sl, _, _, _, heq, -⟩⟩ := QueryScheduler.process_spec h.queries hp
    · exact h.frame hinv fun q hq => ⟨(hlive _ _).symm.trans hq, fun _ => rfl⟩
    · cases heq
  · rename_i queries sl hp
    obtain ⟨hinv, ⟨hnone, -⟩ | ⟨sl', hq, query, calls, heq, hran⟩⟩ :=
      QueryScheduler.process_spec h.queries hp
    · cases hnone
    cases heq
    have hkey : ¬ (sub.connId = sl.sub.connId ∧ sub.subId = sl.sub.subId) := by
      rintro ⟨hc, hi⟩
      obtain ⟨q, rest, hrun, hlook⟩ := hran.front
      obtain ⟨-, -, hlive, hc', hi'⟩ := (QueryScheduler.live_eq_some_iff h.queries).1 hran.live
      exact hnext hq ⟨q, rest, hrun, hlook, hlive, hc'.trans hc.symm, hi'.trans hi.symm⟩
    have hlive := (hran.live' sub.connId sub.subId).trans (if_neg hkey)
    split at hr
    · cases hr
    · rename_i views' hbatch
      have hview := onEventBatch_of_ne hbatch hkey
      simp only at hr
      split at hr
      · obtain ⟨hqueries, hframe⟩ := onComplete_frame (Option.some.inj hr)
        apply h.frame (hqueries ▸ hinv)
        intro q hq'
        rw [hqueries] at hq'
        exact ⟨hlive.symm.trans hq', fun _ => (hframe _ _ hkey).trans hview⟩
      · cases hr
        exact h.frame hinv fun q hq' => ⟨hlive.symm.trans hq', fun _ => hview⟩

/-- What a slice of the query may answer. A NEG-MSG says that the view is sealed with the pairs of
all events that match, each once; and once the query is done, with more matching events than are
allowed, the answer is NEG-ERR. -/
structure Faithful (cfg : NegentropyConfig) (st : Store) (sub : Subscription)
    (r : NegentropyThread × List NegReply) : Prop where
  whole : ∀ resp, .negMsg sub.connId sub.subId resp ∈ r.2 →
    ((matchingAny st sub.filterGroup).map itemOf).Nodup ∧
      ∃ view, r.1.views.findView sub.connId sub.subId = some (.memory view) ∧
        view.storageVector = some ((matchingAny st sub.filterGroup).map itemOf).toFinset
  blocked : r.1.queries.live sub.connId sub.subId = none →
    cfg.maxSyncEvents < (matchingAny st sub.filterGroup).length →
    r.2 = [.negErr sub.connId sub.subId "blocked: too many query results" (some cfg.maxSyncEvents)]

/-- The pairs that are sealed, when the callbacks were for all matching events. -/
theorem toFinset_viewItems {g : NostrFilterGroup} {calls : List Nat}
    (h : ∀ levId, levId ∈ calls ↔ levId ∈ (matchingAny st g).map Prod.fst) :
    (viewItems st calls).toFinset = ((matchingAny st g).map itemOf).toFinset := by
  ext item
  rw [List.mem_toFinset, List.mem_toFinset, viewItems, List.mem_filterMap, List.mem_map]
  constructor
  · rintro ⟨levId, hmem, hitem⟩
    rw [List.mem_insertionSort, h] at hmem
    obtain ⟨p, hp, rfl⟩ := Option.map_eq_some_iff.1 hitem
    obtain ⟨r, hr, rfl⟩ := List.mem_map.1 hmem
    have hrow := Table.eq_of_mem (k := r.1) (Table.get?_eq_some_iff.1 hp) (mem_matchingAny.1 hr).1
    exact ⟨r, hr, by rw [itemOf, hrow]⟩
  · rintro ⟨r, hr, rfl⟩
    refine ⟨r.1, ?_, ?_⟩
    · rw [List.mem_insertionSort, h]
      exact List.mem_map_of_mem hr
    · rw [Table.get?_eq_some_iff.2 (mem_matchingAny.1 hr).1]
      rfl

/-- `onComplete` seals the pairs of the callbacks, when they are not too many. The view keeps them if
the library accepts the first message. -/
theorem onComplete_seals (lib : NegentropyLib) (cfg : NegentropyConfig) (hu : st.UniqueIds)
    {view : MemoryView}
    (hview : t.views.findView sub.connId sub.subId = some (.memory view))
    (hopen : view.storageVector = none) (hnodup : view.levIds.Nodup)
    (hsize : view.levIds.length ≤ cfg.maxSyncEvents) :
    ∃ r, t.onComplete lib cfg st (asQueried st sub) = .ok r ∧ r.1.queries = t.queries ∧
      match lib.reconcile (viewItems st view.levIds).toFinset view.initialMsg with
      | .error _ => r.2 = [.negErr sub.connId sub.subId "PROTOCOL-ERROR" none]
      | .ok resp => r.2 = [.negMsg sub.connId sub.subId resp] ∧
          ∃ view', r.1.views.findView sub.connId sub.subId = some (.memory view') ∧
            view'.storageVector = some (viewItems st view.levIds).toFinset := by
  have hseal := lib.sealVector_nodup _ (nodup_viewItems hu hnodup)
  rw [onComplete]
  simp only [asQueried, hview, not_lt.2 hsize, if_false, hopen, hseal]
  cases hrec : lib.reconcile (viewItems st view.levIds).toFinset view.initialMsg with
  | error e =>
    simp only [handleReconcile, hrec, NegentropyViews.findView_removeView, and_self, if_true]
    exact ⟨_, rfl, rfl, rfl⟩
  | ok resp =>
    simp only [handleReconcile, hrec, NegentropyViews.findView_assignIn, and_self, if_true]
    refine ⟨_, rfl, rfl, rfl, ?_⟩
    exact ⟨_, (NegentropyViews.findView_assignIn _ _ _ _ _ _).trans (if_pos ⟨rfl, rfl⟩), rfl⟩

/-- `onComplete` with the callbacks of a query that has answered its filters. -/
theorem onComplete_faithful (lib : NegentropyLib) (hu : st.UniqueIds)
    (hlimit : ∀ f ∈ sub.filterGroup.filters, f.limit = cfg.maxSyncEvents + 1) {view : MemoryView}
    (hview : t.views.findView sub.connId sub.subId = some (.memory view))
    (hopen : view.storageVector = none)
    (hcalls : view.levIds = delivered st st.getMostRecentLevId [] sub.filterGroup.filters) :
    ∃ r, t.onComplete lib cfg st (asQueried st sub) = .ok r ∧ r.1.queries = t.queries ∧
      Faithful cfg st sub r := by
  have hlatest : ∀ r ∈ st.event.rows, (r.1 : WithTop Nat) ≤ st.getMostRecentLevId :=
    fun r hr => Nat.cast_le.2 (Table.le_lastKey hr)
  have hlt := lt_length_delivered_iff hlimit hlatest
  rw [← hcalls] at hlt
  by_cases hsize : view.levIds.length > cfg.maxSyncEvents
  · rw [onComplete]
    simp only [asQueried, hview, if_pos hsize]
    exact ⟨_, rfl, rfl, by simp, fun _ _ => rfl⟩
  · have hle := not_lt.1 hsize
    have hnodup : view.levIds.Nodup := hcalls ▸ nodup_delivered List.nodup_nil _
    have hitems : (viewItems st view.levIds).toFinset =
        ((matchingAny st sub.filterGroup).map itemOf).toFinset := by
      apply toFinset_viewItems
      intro levId
      rw [hcalls] at hle ⊢
      exact mem_delivered_of_le hlimit hlatest hle
    obtain ⟨r, hr, hqueries, hcase⟩ := onComplete_seals lib cfg hu hview hopen hnodup hle
    refine ⟨r, hr, hqueries, fun resp hmem => ?_, fun _ h => absurd (hlt.2 h) hsize⟩
    split at hcase
    · rw [hcase] at hmem
      simp at hmem
    · rw [hitems] at hcase
      exact ⟨nodup_itemOf hu _, hcase.2⟩

/-- The thread between `onEventBatch` and `onComplete`. -/
def collected (t : NegentropyThread) (sub : Subscription) (view : MemoryView)
    (queries : QueryScheduler) (new : List Nat) : NegentropyThread :=
  { t with
    queries := queries
    views := Map.assignIn t.views sub.connId sub.subId
      (.memory { view with levIds := view.levIds ++ new }) }

theorem findView_collected (t : NegentropyThread) (sub : Subscription) (view : MemoryView)
    (queries : QueryScheduler) (new : List Nat) :
    (t.collected sub view queries new).views.findView sub.connId sub.subId =
      some (.memory { view with levIds := view.levIds ++ new }) :=
  (NegentropyViews.findView_assignIn _ _ _ _ _ _).trans (if_pos ⟨rfl, rfl⟩)

/-- A slice of the query, when its view is there. -/
theorem slice_of_isNext (lib : NegentropyLib) (cfg : NegentropyConfig) (hinv : t.queries.Inv)
    {h : HeapQuery} (hn : IsNext t sub h) (hsub : h.query.sub = asQueried st sub)
    {view : MemoryView} (hview : t.views.findView sub.connId sub.subId = some (.memory view))
    {n : Nat} {query : DBQuery} {new : List Nat} {complete : Bool}
    (hproc : h.query.process S ord st n = some (query, new, complete)) :
    ∃ queries : QueryScheduler, queries.Inv ∧
      queries.live sub.connId sub.subId =
        (if complete then none else some { h with query := query }) ∧
      t.slice lib cfg S ord st n =
        if complete then
          some ((t.collected sub view queries new).onComplete lib cfg st (asQueried st sub))
        else some (.ok (t.collected sub view queries new, [])) := by
  have hlive := hn.live hinv
  obtain ⟨q, rest, hrun, hlook, hdead, -, -⟩ := hn
  obtain ⟨queries, hp⟩ := QueryScheduler.process_front hrun hlook hdead hproc
  obtain ⟨hinv', ⟨hnone, -⟩ | ⟨sl, h', query', calls', heq, hran⟩⟩ :=
    QueryScheduler.process_spec hinv hp
  · cases hnone
  cases heq
  have hkey : sub.connId = h.query.sub.connId ∧ sub.subId = h.query.sub.subId := by
    rw [hsub]
    exact ⟨rfl, rfl⟩
  -- the query that ran is the one under the id
  have hsame : h = h' := by
    have hlive₂ := hran.live
    rw [show t.queries.live h.query.sub.connId h.query.sub.subId = some h by
      rw [← hkey.1, ← hkey.2, hlive]] at hlive₂
    exact Option.some.inj hlive₂
  subst hsame
  have hquery : query = query' := by
    have hproc' := hran.process
    rw [hproc] at hproc'
    exact congrArg (fun r => r.1) (Option.some.inj hproc')
  subst hquery
  refine ⟨queries, hinv', (hran.live' _ _).trans (if_pos hkey), ?_⟩
  have hbatch : onEventBatch t.views h.query.sub new =
      .ok (t.collected sub view queries new).views := by
    rw [onEventBatch, hsub]
    simp only [asQueried, hview, collected]
  rw [NegentropyThread.slice]
  simp only [hp, hbatch]
  rw [hsub]
  rfl

/-- A slice of the query on the snapshot. -/
theorem Served.slice (h : Served ord st sub t m) (lib : NegentropyLib) (cfg : NegentropyConfig)
    (S : StdSort) (hst : SnapshotOk st) (hu : st.UniqueIds)
    (hcur : ∀ f ∈ sub.filterGroup.filters, DBScan.numCursors f ≤ 2 ^ 24)
    (hlimit : ∀ f ∈ sub.filterGroup.filters, f.limit = cfg.maxSyncEvents + 1) {hq : HeapQuery}
    (hn : IsNext t sub hq) (n : Nat) :
    ∃ r, t.slice lib cfg S ord st n = some (.ok r) ∧ Served ord st sub r.1 (m + n) ∧
      Faithful cfg st sub r := by
  obtain ⟨calls, view, hc⟩ := h.collecting hq (hn.live h.queries)
  have hfilters : hq.query.filters = sub.filterGroup.filters := by
    rw [DBQuery.filters, hc.query]
    rfl
  obtain ⟨query, new, complete, hproc, hspec⟩ := process_spec S hst (hfilters ▸ hcur) hc.inv n
  -- the slice is that of the query of the session, which is next in the queue
  obtain ⟨queries, hinv, hlive, hslice⟩ :=
    slice_of_isNext lib cfg h.queries hn hc.query hc.found hproc
  have hfind := findView_collected t sub view queries new
  cases complete with
  | false =>
    refine ⟨_, hslice, ⟨hinv, fun h' hh' => ?_⟩, by simp, fun hnone => ?_⟩
    · cases hlive.symm.trans hh'
      refine ⟨calls ++ new, _, hspec.sub.trans hc.query, hspec.inv, ?_, hfind, ?_, hc.open_⟩
      · have := (hspec.work rfl).1
        have := hc.work
        show query.work ord st + (m + n) ≤ _
        omega
      · show view.levIds ++ new = calls ++ new
        rw [hc.levIds]
    · cases hlive.symm.trans hnone
  | true =>
    -- the view has got all that the query delivers
    have hcalls : view.levIds ++ new =
        delivered st st.getMostRecentLevId [] sub.filterGroup.filters := by
      have hall := hspec.all rfl
      rw [hc.query, hfilters] at hall
      rw [hc.levIds]
      exact hall
    obtain ⟨r, hr, hqueries, hfaith⟩ :=
      onComplete_faithful lib hu hlimit hfind hc.open_ hcalls
    refine ⟨r, by rw [hslice, if_pos rfl, hr], ⟨hqueries ▸ hinv, fun h' hh' => ?_⟩, hfaith⟩
    rw [hqueries] at hh'
    cases hlive.symm.trans hh'

/-! ## Runs -/

/-- A NEG-OPEN is never answered from a part of its set: every slice of its query, on one snapshot,
answers faithfully, and the query is done once its slices are long enough. -/
def SyncsAll (M : Nat) (sub : Subscription) (filterStr : Bytes) : Prop :=
  ∀ (lib : NegentropyLib) (cfg : NegentropyConfig) (S : StdSort) (ord : IndexOrder) (st : Store),
    cfg.maxSyncEvents = M → SnapshotOk st → st.UniqueIds →
    (∀ t m h, Session lib cfg S ord st sub filterStr t m → IsNext t sub h → ∀ n,
      ∃ r, t.slice lib cfg S ord st n = some (.ok r) ∧ Faithful cfg st sub r) ∧
    ∃ N, ∀ t m, Session lib cfg S ord st sub filterStr t m → N < m →
      t.queries.live sub.connId sub.subId = none

/-- The run lemma: the query of a session has collected what it has found. -/
theorem Session.served {filterStr : Bytes} (h : Session lib cfg S ord st sub filterStr t m)
    (hst : SnapshotOk st) (hu : st.UniqueIds)
    (hcur : ∀ f ∈ sub.filterGroup.filters, DBScan.numCursors f ≤ 2 ^ 24)
    (hlimit : ∀ f ∈ sub.filterGroup.filters, f.limit = cfg.maxSyncEvents + 1) :
    Served ord st sub t m := by
  induction h with
  | opened reach snapshot select unused =>
    exact served_openMemory hst hcur reach.inStep.queries unused _
  | slice prev next call ih =>
    obtain ⟨r', hr', hserved, -⟩ := ih.slice lib cfg S hst hu hcur hlimit next _
    rw [call] at hr'
    cases hr'
    exact hserved
  | otherSlice prev next call ih => exact ih.otherSlice next call
  | openTree prev other call ih => exact ih.openTree other call
  | openMemory prev other unused ih => exact ih.openMemory other unused
  | negMsg prev call ih => exact ih.negMsg call
  | negClose prev connId subId ih => exact ih.negClose connId subId
  | closeConn prev connId ih => exact ih.closeConn connId

/-- With filters cut at one more than is allowed, and at most `2 ^ 24` cursors a plan. -/
theorem syncsAll_of_numCursors_le {M : Nat} {filterStr : Bytes}
    (hlimit : ∀ f ∈ sub.filterGroup.filters, f.limit = M + 1)
    (hcur : ∀ f ∈ sub.filterGroup.filters, DBScan.numCursors f ≤ 2 ^ 24) :
    SyncsAll M sub filterStr := by
  rintro lib cfg S ord st rfl hst hu
  refine ⟨fun t m h hs hn n => ?_, (DBQuery.new (asQueried st sub)).work ord st, ?_⟩
  · obtain ⟨r, hr, -, hfaith⟩ :=
      (hs.served hst hu hcur hlimit).slice lib cfg S hst hu hcur hlimit hn n
    exact ⟨r, hr, hfaith⟩
  · intro t m hs hlt
    cases hlive : t.queries.live sub.connId sub.subId with
    | none => rfl
    | some h =>
      obtain ⟨calls, view, hc⟩ := (hs.served hst hu hcur hlimit).collecting h hlive
      have := hc.work
      omega

end Served

/-! ## Too many cursors -/

section Overflow

variable {sub : Subscription} {f : NostrFilter} {M : Nat}

/-- The database of the failing runs, without trees. -/
def overflowDb (st : Store) : Db where
  toStore := st
  modificationCounter := 0
  negentropyFilter := .empty
  trees _ := ∅

/-- The ids of the events in the store are different. -/
theorem uniqueIds_overflowStore {pubkey : Bytes} {kind : Nat} (hpk : pubkey.length = 32)
    (hk : kind < 2 ^ 64) (hc : f.since < 2 ^ 40) : (overflowStore f pubkey kind hpk hk hc).UniqueIds := by
  intro r r' hr hr' hid
  obtain ⟨i, hi, rfl⟩ := mem_countedTable.1 hr
  obtain ⟨j, hj, rfl⟩ := mem_countedTable.1 hr'
  have hdepth := initialScanDepth_le (DBScan.make f)
  have hpow : (51 : Nat) < 256 ^ 32 := by norm_num
  have hmod : i % 256 ^ 32 = j % 256 ^ 32 := by
    rw [← ofLeBytes_leBytes, ← ofLeBytes_leBytes]
    exact congrArg ofLeBytes hid
  rw [Nat.mod_eq_of_lt (by omega), Nat.mod_eq_of_lt (by omega)] at hmod
  rw [hmod]

/-- The first NEG-OPEN of a thread makes its query, which is next to run, and its view. -/
theorem openMemory_first (maxSyncEvents : Nat) (st : Store) (sub : Subscription) :
    IsNext (openMemory ⟨20, maxSyncEvents⟩ st 0 {} sub []).1 sub (QueryScheduler.newQuery st 0 sub) ∧
      (openMemory ⟨20, maxSyncEvents⟩ st 0 {} sub []).1.views.findView sub.connId sub.subId =
        some (.memory { initialMsg := [], serial := 0 }) := by
  obtain ⟨b, s', hadd, -, -, htrue, -⟩ := QueryScheduler.addSub_spec QueryScheduler.inv_empty 20 st
    (q := 0) rfl 0 sub
  obtain ⟨b', views', hview, hfind⟩ := NegentropyViews.addView_spec 20 (∅ : Map Nat _) sub.connId
    sub.subId (.memory { initialMsg := [], serial := 0 })
  have hb : b = true := by
    have hrefused := QueryScheduler.addSub_refused_iff 20 st {} 0 0 sub
    rw [hadd] at hrefused
    rw [← Bool.not_eq_false]
    intro hfalse
    have hfull : 20 ≤ Map.size (∅ : Map SubId QueryPtr) := hrefused.1 hfalse
    exact absurd hfull (by decide)
  have hb' : b' = true := by
    have hrefused := NegentropyViews.addView_refused_iff 20 (∅ : Map Nat _) sub.connId sub.subId
      (.memory { initialMsg := [], serial := 0 })
    rw [hview] at hrefused
    rw [← Bool.not_eq_false]
    intro hfalse
    have hfull : 20 ≤ Map.size (∅ : Map SubId UserView) := hrefused.1 hfalse
    exact absurd hfull (by decide)
  subst hb hb'
  rw [openMemory]
  simp only [NegentropyViews.addMemoryView, hadd, hview, if_true]
  refine ⟨⟨0, [], ?_, ?_, rfl, rfl, rfl⟩, (hfind _ _).trans (by simp)⟩
  · show s'.running = [0]
    rw [htrue rfl]
    rfl
  · show s'.queries.lookup 0 = _
    rw [htrue rfl, QueryScheduler.enqueue, Map.lookup_insert, if_pos rfl]

/-- With more than `2 ^ 24` cursors, and room for the events that are found, a part of the set is
reconciled. -/
theorem not_syncsAll_of_lt_numCursors (hg : sub.filterGroup.filters = [f]) (hcan : CanAnswer f)
    (hM : 5 ≤ M) (hlimit : f.limit = M + 1) (hcur : 2 ^ 24 < DBScan.numCursors f)
    (filterStr : Bytes) : ¬ SyncsAll M sub filterStr := by
  intro hsync
  have hf : f.WF := sub.filterGroup.wf f (by rw [hg]; exact List.mem_singleton_self f)
  obtain ⟨hnd, b, hb, pubkey, kind, hpk, hk, hkeys, hmatch⟩ := exists_template hf hcur
  have hst := overflowStore_spec byteOrder hpk hk hcan hkeys
  have hu := uniqueIds_overflowStore (f := f) hpk hk hcan.2.2
  generalize hstore : overflowStore f pubkey kind hpk hk hcan.2.2 = st at hst hu
  obtain ⟨hnext, hview⟩ := openMemory_first M st sub
  have hsession : Session plainLib ⟨20, M⟩ .insertion byteOrder st sub filterStr
      (openMemory ⟨20, M⟩ st 0 {} sub []).1 0 := by
    have hselect : selectTree (overflowDb st).negentropyFilter filterStr = none := rfl
    exact .opened Relation.ReflTransGen.refl rfl hselect rfl
  obtain ⟨query, calls, hproc, htwo⟩ := overflow_process .insertion hf hnd hb hst
    (overflowWork (.make f) + 1) (q := .new (asQueried st sub)) hg rfl
    (overflowed_make (lt_trans (by norm_num) hcur)) (Nat.lt_succ_self _)
  have hadv := DBQuery.process_advances _ hproc
  -- the events that are found are fewer than those that match, and not too many
  have hdepth : (DBScan.make f).initialScanDepth ≤ M := by
    have hlen : (DBScan.make f).cursors.length = DBScan.numCursors f := by
      rw [DBScan.make, List.length_map, DBScan.numCursors]
    have hdiv : f.limit / DBScan.numCursors f ≤ (M + 1) / 2 := by
      rw [hlimit]
      exact Nat.div_le_div_left (by omega) (by norm_num)
    rw [DBScan.initialScanDepth, hlen]
    change max 5 (min 50 (f.limit / DBScan.numCursors f)) ≤ M
    omega
  have hsize : calls.length ≤ M := by
    have hlast : st.getMostRecentLevId ≤ (DBScan.make f).initialScanDepth + 1 := by
      rw [← hstore]
      obtain ⟨v, hv⟩ := Table.lastKey_mem
        (t := (overflowStore f pubkey kind hpk hk hcan.2.2).event)
        (List.ne_nil_of_mem (mem_countedTable.2 ⟨0, Nat.succ_pos _, rfl⟩))
      obtain ⟨i, hi, heq⟩ := mem_countedTable.1 hv
      exact (congrArg Prod.fst heq).trans_le (by omega)
    have hsub : calls ⊆ List.range' 2 (DBScan.make f).initialScanDepth := by
      intro levId hmem
      have hle := hadv.le_latest levId hmem
      rw [show (DBQuery.new (asQueried st sub)).sub.latestEventId =
        (st.getMostRecentLevId : WithTop Nat) from rfl, Nat.cast_le] at hle
      have := htwo levId hmem
      rw [List.mem_range'_1]
      omega
    have hlen := (List.subperm_of_subset hadv.nodup hsub).length_le
    rw [List.length_range'] at hlen
    exact hlen.trans hdepth
  obtain ⟨queries, -, hlive, hslice⟩ := slice_of_isNext plainLib ⟨20, M⟩
    ((inStep_empty True).openMemory _ st rfl sub []).queries hnext rfl hview hproc
  obtain ⟨r, hr, -, hreply, view, hfind, hsealed⟩ := onComplete_seals plainLib ⟨20, M⟩ hu
    (findView_collected (openMemory ⟨20, M⟩ st 0 {} sub []).1 sub { initialMsg := [], serial := 0 }
      queries calls) rfl hadv.nodup hsize
  obtain ⟨r', hr', hfaith⟩ := (hsync plainLib ⟨20, M⟩ .insertion byteOrder st rfl hst.snapshot hu).1
    _ _ _ hsession hnext (overflowWork (.make f) + 1)
  rw [hslice, if_pos rfl, hr] at hr'
  cases hr'
  obtain ⟨-, view', hfind', hsealed'⟩ := hfaith.whole [] (by rw [hreply]; exact List.mem_singleton_self _)
  cases hfind.symm.trans hfind'
  have hsets := Option.some.inj (hsealed.symm.trans hsealed')
  -- event `1` matches, and its pair is not there
  have hrow : (1, templateEvent pubkey kind f.since hpk hk hcan.2.2 0) ∈ st.event.rows := by
    rw [← hstore]
    exact mem_countedTable.2 ⟨0, Nat.succ_pos _, rfl⟩
  have hmem : itemOf (1, templateEvent pubkey kind f.since hpk hk hcan.2.2 0) ∈
      (viewItems st calls).toFinset := by
    rw [show viewItems st calls = viewItems st ([] ++ calls) from rfl, hsets, List.mem_toFinset]
    refine List.mem_map_of_mem (mem_matchingAny.2 ⟨hrow, f, ?_, ?_⟩)
    · rw [hg]
      exact List.mem_singleton_self f
    · exact hmatch _ rfl rfl le_rfl hcan.2.1
  rw [List.mem_toFinset, viewItems, List.mem_filterMap] at hmem
  obtain ⟨levId, hlev, hitem⟩ := hmem
  obtain ⟨p, hp, hpair⟩ := Option.map_eq_some_iff.1 hitem
  have hsame := hu (levId, p) _ (Table.get?_eq_some_iff.1 hp) hrow (congrArg Prod.snd hpair)
  have hone : levId = 1 := congrArg Prod.fst hsame
  have := htwo levId ((List.mem_insertionSort _).1 hlev)
  omega

end Overflow

/-! ## The messages of the ingester -/

/-- The limits of the filters of a NEG-OPEN that gives none. -/
theorem limit_of_ingester {hex : HexCodec} {text : JsonText} {M connId : Nat} {cmd : Bytes}
    {arr : List Json} {sub : Subscription} {filterStr negPayload : Bytes} (hM : M + 1 < 2 ^ 64)
    (h : ingesterProcessNegentropy hex text M connId cmd arr = .ok (.negOpen sub filterStr negPayload))
    (hv : ∀ v, arr[2]? = some v → ∀ w ∈ NostrFilterGroup.unwrappedElems v, w.Unlimited) :
    ∀ f ∈ sub.filterGroup.filters, f.limit = M + 1 := by
  obtain ⟨filterJson, hjson, hgroup, -⟩ := ingesterProcessNegentropy_negOpen h
  rw [Nat.mod_eq_of_lt hM] at hgroup
  apply NostrFilterGroup.unwrapped_limit (hv filterJson hjson) _ hgroup
  rw [maxU64]
  omega

/-- A NEG-OPEN without limits is answered from its whole set if its plans have at most `2 ^ 24`
cursors; for a single filter that can match, and at least five events allowed, only then. -/
theorem negOpen_syncsAll_iff_numCursors_le (hex : HexCodec) (text : JsonText) (M connId : Nat)
    (cmd : Bytes) (arr : List Json) (sub : Subscription) (filterStr negPayload : Bytes)
    (hM : M + 1 < 2 ^ 64)
    (hmsg : ingesterProcessNegentropy hex text M connId cmd arr =
      .ok (.negOpen sub filterStr negPayload))
    (hv : ∀ v, arr[2]? = some v → ∀ w ∈ NostrFilterGroup.unwrappedElems v, w.Unlimited) :
    ((∀ f ∈ sub.filterGroup.filters, DBScan.numCursors f ≤ 2 ^ 24) → SyncsAll M sub filterStr) ∧
      ∀ f, sub.filterGroup.filters = [f] → f.since ≤ f.until_ → f.since < 2 ^ 40 → 5 ≤ M →
        (SyncsAll M sub filterStr ↔ DBScan.numCursors f ≤ 2 ^ 24) := by
  have hlimit := limit_of_ingester hM hmsg hv
  refine ⟨syncsAll_of_numCursors_le hlimit, fun f hg huntil hsince hfive => ⟨fun hsync => ?_, ?_⟩⟩
  · by_contra hlt
    have hf : f.limit = M + 1 := hlimit f (by rw [hg]; exact List.mem_singleton_self f)
    have hcan : CanAnswer f := ⟨by omega, huntil, hsince⟩
    exact not_syncsAll_of_lt_numCursors hg hcan hfive hf (not_le.1 hlt) filterStr hsync
  · intro hle
    apply syncsAll_of_numCursors_le hlimit
    intro f' hf'
    rw [hg, List.mem_singleton] at hf'
    exact hf' ▸ hle

theorem unlimited_negOpenArr (n : Nat) : ∀ v, (negOpenArr (kindsFilter n))[2]? = some v →
    ∀ w ∈ NostrFilterGroup.unwrappedElems v, w.Unlimited := by
  intro v hv w hw
  cases hv
  have hw : w = kindsFilter n := List.mem_singleton.1 hw
  rw [hw]
  exact unlimited_kindsFilter n

/-- The NEG-OPEN for kind `0`. -/
theorem negOpen_syncsAll_kind_zero :
    ∃ sub filterStr negPayload, ingesterProcessNegentropy hexCodec emptyObjectText 10 1
        (ascii "NEG-OPEN") (negOpenArr (kindsFilter 1)) = .ok (.negOpen sub filterStr negPayload) ∧
      SyncsAll 10 sub filterStr := by
  obtain ⟨g, f, hmsg, hfilters, hcur, hcan, -⟩ := ingester_kindsFilter (n := 1) (by norm_num) (by norm_num)
  refine ⟨_, _, _, hmsg, ?_⟩
  have hiff := (negOpen_syncsAll_iff_numCursors_le _ _ _ _ _ _ _ _ _ (by norm_num)
    hmsg (unlimited_negOpenArr 1)).2 f hfilters hcan.2.1 hcan.2.2 (by norm_num)
  apply hiff.2
  rw [hcur]
  norm_num

/-- The NEG-OPEN for `2 ^ 24 + 1` kinds is answered from a part of its set. -/
theorem negOpen_truncates_many_kinds :
    ∃ sub filterStr negPayload, ingesterProcessNegentropy hexCodec emptyObjectText 10 1
        (ascii "NEG-OPEN") (negOpenArr (kindsFilter (2 ^ 24 + 1))) =
          .ok (.negOpen sub filterStr negPayload) ∧
      ¬ SyncsAll 10 sub filterStr := by
  obtain ⟨g, f, hmsg, hfilters, hcur, hcan, hlimit, -⟩ :=
    ingester_kindsFilter (n := 2 ^ 24 + 1) (by norm_num) (by norm_num)
  refine ⟨_, _, _, hmsg, ?_⟩
  apply not_syncsAll_of_lt_numCursors hfilters hcan (by norm_num) hlimit
  rw [hcur]
  exact Nat.lt_succ_self _

end NegentropyThread

end Strfry
