import Strfry.Negentropy
import Strfry.QueryAnswers
import Strfry.StoreInvariants

/-!
# Queries and views of the negentropy thread

A query that is running has its view: the `MemoryView` made by the same NEG-OPEN, or none any more.
`InStep` states this for all live queries. Every step of the thread keeps it but one: a NEG-OPEN
that is served from a tree replaces the view under its id and leaves a query under that id
running. A run in which no such NEG-OPEN meets a running query stays in step, and then no callback
finds a view of the wrong kind.
-/

set_option autoImplicit false

namespace Strfry

open Lib

/-! ## Views -/

namespace NegentropyViews

theorem findView_removeView (views : NegentropyViews) (connId c : Nat) (subId i : SubId) :
    (views.removeView connId subId).findView c i =
      if c = connId ∧ i = subId then none else views.findView c i := by
  rw [removeView]
  split
  · rename_i hnone
    split
    · rename_i hkey
      rw [hkey.1, hkey.2, hnone]
    · rfl
  · exact Map.find₂_eraseIn _ _ _ _ _

theorem findView_closeConn (views : NegentropyViews) (connId c : Nat) (i : SubId) :
    (views.closeConn connId).findView c i = if c = connId then none else views.findView c i := by
  rw [closeConn]
  split
  · rename_i hnone
    split
    · rename_i hc
      rw [findView, Map.find₂, hc, hnone, Option.bind_none]
    · rfl
  · exact Map.find₂_erase _ _ _ _

theorem findView_assignIn (views : NegentropyViews) (connId c : Nat) (subId i : SubId)
    (view : UserView) : findView (Map.assignIn views connId subId view) c i =
      if c = connId ∧ i = subId then some view else views.findView c i :=
  Map.find₂_assignIn _ _ _ _ _ _

/-- A new view replaces the one with the same id; when it is refused, that one is gone too. -/
theorem addView_spec (maxSubs : Nat) (views : NegentropyViews) (connId : Nat) (subId : SubId)
    (view : UserView) :
    ∃ b views', views.addView maxSubs connId subId view = (b, views') ∧
      ∀ c i, views'.findView c i = if c = connId ∧ i = subId then
        (if b then some view else none) else views.findView c i := by
  have hremove : (if (views.findView connId subId).isSome then views.removeView connId subId
      else views) = views.removeView connId subId := by
    split
    · rfl
    · rename_i hnone
      rw [removeView, Option.not_isSome_iff_eq_none.1 hnone]
  have hfind : ∀ c i, Map.find₂ (Map.tryEmplace (views.removeView connId subId) connId ∅) c i =
      if c = connId ∧ i = subId then none else views.findView c i := by
    intro c i
    rw [Map.find₂_tryEmplace]
    exact findView_removeView views connId c subId i
  rw [addView]
  simp only [hremove]
  split
  · refine ⟨false, _, rfl, fun c i => ?_⟩
    rw [findView, hfind]
    simp
  · refine ⟨true, _, rfl, fun c i => ?_⟩
    rw [findView, Map.find₂_emplaceIn]
    simp only [hfind, and_self, if_true, Option.getD_none]
    split <;> rfl

/-- A view of a tree that is not refused is found. -/
theorem findView_addStatelessView {maxSubs connId treeId : Nat} {views : NegentropyViews} {subId : SubId}
    {sub : Subscription} (h : (views.addStatelessView maxSubs connId subId sub treeId).1 = true) :
    (views.addStatelessView maxSubs connId subId sub treeId).2.findView connId subId =
      some (.stateless ⟨sub, treeId⟩) := by
  obtain ⟨b, views', hadd, hfind⟩ := addView_spec maxSubs views connId subId (.stateless ⟨sub, treeId⟩)
  rw [addStatelessView, hadd] at h ⊢
  have hb : b = true := h
  have hself := hfind connId subId
  rwa [if_pos ⟨rfl, rfl⟩, if_pos hb] at hself

end NegentropyViews

namespace NegentropyThread

/-! ## The invariant -/

/-- The view belongs to the query: it is not sealed, and holds some of the events that the query
has sent, each once. -/
structure Belongs (h : HeapQuery) (view : MemoryView) : Prop where
  serial : view.serial = h.serial
  open_ : view.storageVector = none
  nodup : view.levIds.Nodup
  sent : ∀ levId ∈ view.levIds, levId ∈ h.query.sentEventsFull

/-- The view under the id of a live query, where `overlap` says whether it may be one of a tree. -/
def Attached (overlap : Prop) (h : HeapQuery) : Option UserView → Prop
  | none => True
  | some (.memory view) => Belongs h view
  | some (.stateless _) => overlap

/-- Every live query has its view, or none. -/
structure InStep (overlap : Prop) (t : NegentropyThread) : Prop where
  queries : t.queries.Inv
  attached : ∀ c i h, t.queries.live c i = some h → Attached overlap h (t.views.findView c i)

theorem attached_none (overlap : Prop) (h : HeapQuery) : Attached overlap h none := trivial

theorem inStep_empty (overlap : Prop) : InStep overlap {} where
  queries := QueryScheduler.inv_empty
  attached := by
    intro c i h hlive
    cases hlive

section Steps

variable {overlap : Prop} {t t' : NegentropyThread}

/-- A step after which every live query was live before, and has the same view or none. -/
theorem InStep.shrink (h : InStep overlap t) (hinv : t'.queries.Inv)
    (hlive : ∀ c i q, t'.queries.live c i = some q → t.queries.live c i = some q ∧
      (t'.views.findView c i = t.views.findView c i ∨ t'.views.findView c i = none)) :
    InStep overlap t' where
  queries := hinv
  attached := by
    intro c i q hq
    obtain ⟨hold, heq | hnone⟩ := hlive c i q hq
    · rw [heq]
      exact h.attached c i q hold
    · rw [hnone]
      exact attached_none overlap q

theorem InStep.negClose (h : InStep overlap t) (connId : Nat) (subId : SubId) :
    InStep overlap (t.negClose connId subId) := by
  apply h.shrink (h.queries.removeSub connId subId)
  intro c i q hq
  have hlive := QueryScheduler.live_removeSub h.queries connId c subId i
  change (t.queries.removeSub connId subId).live c i = some q at hq
  rw [hlive] at hq
  split at hq
  · cases hq
  · rename_i hkey
    refine ⟨hq, Or.inl ?_⟩
    exact (NegentropyViews.findView_removeView t.views connId c subId i).trans (if_neg hkey)

theorem InStep.closeConn (h : InStep overlap t) (connId : Nat) :
    InStep overlap (t.closeConn connId) := by
  apply h.shrink (h.queries.closeConn connId)
  intro c i q hq
  have hlive := QueryScheduler.live_closeConn h.queries connId c i
  change (t.queries.closeConn connId).live c i = some q at hq
  rw [hlive] at hq
  split at hq
  · cases hq
  · rename_i hc
    refine ⟨hq, Or.inl ?_⟩
    exact (NegentropyViews.findView_closeConn t.views connId c i).trans (if_neg hc)

/-- `handleReconcile` keeps every view, or removes the one it is called for. -/
theorem findView_handleReconcile (lib : NegentropyLib) (views : NegentropyViews) (connId : Nat)
    (subId : SubId) (storage : Tree) (msg : Bytes) :
    (∀ c i, (handleReconcile lib views connId subId storage msg).1.findView c i =
        views.findView c i) ∨
      ∀ c i, (handleReconcile lib views connId subId storage msg).1.findView c i =
        if c = connId ∧ i = subId then none else views.findView c i := by
  rw [handleReconcile]
  split
  · exact Or.inr fun c i => NegentropyViews.findView_removeView views connId c subId i
  · exact Or.inl fun _ _ => rfl

theorem findView_handleReconcile_of_ne (lib : NegentropyLib) (views : NegentropyViews)
    {connId : Nat} {subId : SubId} (storage : Tree) (msg : Bytes) {c : Nat} {i : SubId}
    (hkey : ¬ (c = connId ∧ i = subId)) :
    (handleReconcile lib views connId subId storage msg).1.findView c i = views.findView c i := by
  rcases findView_handleReconcile lib views connId subId storage msg with heq | heq
  · exact heq c i
  · rw [heq, if_neg hkey]

/-- `handleReconcile` alone. -/
theorem InStep.reconcile (h : InStep overlap t) (lib : NegentropyLib) (connId : Nat)
    (subId : SubId) (storage : Tree) (msg : Bytes) :
    InStep overlap
      { t with views := (handleReconcile lib t.views connId subId storage msg).1 } := by
  refine InStep.shrink h ?_ ?_
  · exact h.queries
  intro c i q hq
  refine ⟨hq, ?_⟩
  rcases findView_handleReconcile lib t.views connId subId storage msg with heq | heq
  · exact Or.inl (heq c i)
  · have hci := heq c i
    split at hci
    · exact Or.inr hci
    · exact Or.inl hci

theorem InStep.negMsg (h : InStep overlap t) {lib : NegentropyLib} {db : Db} {connId : Nat}
    {subId : SubId} {negPayload : Bytes} {r : NegentropyThread × List NegReply}
    (hr : t.negMsg lib db connId subId negPayload = .ok r) : InStep overlap r.1 := by
  rw [NegentropyThread.negMsg] at hr
  split at hr
  · cases hr
    exact h
  · split at hr
    · cases hr
      exact h
    · cases hr
      exact h.reconcile lib connId subId _ negPayload
  · split at hr
    · cases hr
    · cases hr
      exact h.reconcile lib connId subId _ negPayload

/-- A NEG-OPEN from a tree keeps the thread in step if no query is running under its id. -/
theorem InStep.openTree (h : InStep overlap t) {lib : NegentropyLib} {cfg : NegentropyConfig}
    {db : Db} {sub : Subscription} {negPayload : Bytes} {treeId : Nat}
    (hfree : overlap ∨ t.queries.live sub.connId sub.subId = none)
    {r : NegentropyThread × List NegReply}
    (hr : t.openTree lib cfg db sub negPayload treeId = .ok r) : InStep overlap r.1 := by
  rw [NegentropyThread.openTree] at hr
  split at hr
  · cases hr
  · rename_i f _
    obtain ⟨b, views', hadd, hfind⟩ := NegentropyViews.addView_spec cfg.maxSubsPerConnection
      (handleReconcile lib t.views sub.connId sub.subId (subRange (db.trees treeId) f)
        negPayload).1 sub.connId sub.subId (.stateless ⟨sub, treeId⟩)
    -- neither the answer nor the new view touches another key
    have hviews : ∀ c i, ¬ (c = sub.connId ∧ i = sub.subId) →
        views'.findView c i = t.views.findView c i := by
      intro c i hkey
      rw [hfind, if_neg hkey]
      exact findView_handleReconcile_of_ne lib t.views _ negPayload hkey
    simp only [NegentropyViews.addStatelessView, hadd] at hr
    cases b with
    | true =>
      cases hr
      refine ⟨h.queries, fun c i q hq => ?_⟩
      by_cases hkey : c = sub.connId ∧ i = sub.subId
      · -- the view is that of the tree
        obtain ⟨rfl, rfl⟩ := hkey
        show Attached overlap q (views'.findView sub.connId sub.subId)
        rw [hfind]
        simp only [and_self, if_true]
        rcases hfree with hov | hnone
        · exact hov
        · change t.queries.live sub.connId sub.subId = some q at hq
          rw [hnone] at hq
          cases hq
      · show Attached overlap q (views'.findView c i)
        rw [hviews c i hkey]
        exact h.attached c i q hq
    | false =>
      cases hr
      -- the view is refused, and so the query under the key goes too
      apply h.shrink (h.queries.removeSub sub.connId sub.subId)
      intro c i q hq
      have hlive := QueryScheduler.live_removeSub h.queries sub.connId c sub.subId i
      change (t.queries.removeSub sub.connId sub.subId).live c i = some q at hq
      rw [hlive] at hq
      split at hq
      · cases hq
      · rename_i hkey
        exact ⟨hq, Or.inl (hviews c i hkey)⟩

/-- A NEG-OPEN in memory makes a query and its view, or neither query. -/
theorem InStep.openMemory (h : InStep overlap t) (cfg : NegentropyConfig) (st : Store)
    {q : QueryPtr} (hq : t.queries.queries.lookup q = none) (sub : Subscription)
    (negPayload : Bytes) : InStep overlap (t.openMemory cfg st q sub negPayload).1 := by
  obtain ⟨b, s', hadd, hinv, hlive, -⟩ := QueryScheduler.addSub_spec h.queries
    cfg.maxSubsPerConnection st hq t.opened sub
  obtain ⟨b', views', hview, hfind⟩ := NegentropyViews.addView_spec cfg.maxSubsPerConnection
    t.views sub.connId sub.subId (.memory { initialMsg := negPayload, serial := t.opened })
  rw [NegentropyThread.openMemory]
  simp only [NegentropyViews.addMemoryView, hadd, hview]
  cases b' with
  | true =>
    refine ⟨hinv, fun c i h' hh => ?_⟩
    show Attached overlap h' (views'.findView c i)
    change s'.live c i = some h' at hh
    rw [hlive] at hh
    rw [hfind]
    split at hh
    · rename_i hkey
      split at hh
      · -- the new query with the new view
        cases hh
        rw [if_pos hkey, if_pos rfl]
        exact ⟨rfl, rfl, List.nodup_nil, by simp⟩
      · cases hh
    · rename_i hkey
      rw [if_neg hkey]
      exact h.attached c i h' hh
  | false =>
    refine ⟨hinv.removeSub sub.connId sub.subId, fun c i h' hh => ?_⟩
    show Attached overlap h' (views'.findView c i)
    have hrem := QueryScheduler.live_removeSub hinv sub.connId c sub.subId i
    change (s'.removeSub sub.connId sub.subId).live c i = some h' at hh
    rw [hrem] at hh
    split at hh
    · cases hh
    · rename_i hkey
      rw [hlive, if_neg hkey] at hh
      rw [hfind, if_neg hkey]
      exact h.attached c i h' hh

/-! ## Time slices -/

/-- The view of a query after `onEventBatch` with the callbacks of a time slice. -/
theorem Attached.batch {h : HeapQuery} {query : DBQuery} {calls : List Nat}
    (hadv : DBQuery.Advances h.query query calls) {views : NegentropyViews} {sub : Subscription}
    (hatt : Attached overlap h (views.findView sub.connId sub.subId)) {views' : NegentropyViews}
    (hbatch : onEventBatch views sub calls = .ok views') :
    Attached overlap { h with query := query } (views'.findView sub.connId sub.subId) ∧
      ∀ c i, ¬ (c = sub.connId ∧ i = sub.subId) → views'.findView c i = views.findView c i := by
  rw [onEventBatch] at hbatch
  split at hbatch
  · rename_i hnone
    cases hbatch
    rw [hnone]
    exact ⟨attached_none _ _, fun _ _ _ => rfl⟩
  · cases hbatch
  · rename_i view hview
    cases hbatch
    refine ⟨?_, fun c i hkey => ?_⟩
    · rw [NegentropyViews.findView_assignIn, if_pos ⟨rfl, rfl⟩]
      rw [hview] at hatt
      -- the new events are different from those sent before
      refine ⟨hatt.serial, hatt.open_, ?_, ?_⟩
      · apply List.nodup_append.2
        refine ⟨hatt.nodup, hadv.nodup, ?_⟩
        intro a ha b hb hab
        exact hadv.new b hb (hab ▸ hatt.sent a ha)
      · intro levId hmem
        show levId ∈ query.sentEventsFull
        rw [hadv.full]
        rcases List.mem_append.1 hmem with hmem | hmem
        · exact Finset.mem_union_left _ (hatt.sent levId hmem)
        · exact Finset.mem_union_right _ (List.mem_toFinset.2 hmem)
    · rw [NegentropyViews.findView_assignIn, if_neg hkey]

/-- `onComplete` changes the view of its subscription only. -/
theorem onComplete_frame {lib : NegentropyLib} {cfg : NegentropyConfig} {st : Store}
    {sub : Subscription} {r : NegentropyThread × List NegReply}
    (hr : t.onComplete lib cfg st sub = .ok r) :
    r.1.queries = t.queries ∧ ∀ c i, ¬ (c = sub.connId ∧ i = sub.subId) →
      r.1.views.findView c i = t.views.findView c i := by
  rw [onComplete] at hr
  split at hr
  · cases hr
    exact ⟨rfl, fun _ _ _ => rfl⟩
  · cases hr
  · split at hr
    · cases hr
      refine ⟨rfl, fun c i hkey => ?_⟩
      exact (NegentropyViews.findView_removeView _ _ _ _ _).trans (if_neg hkey)
    · split at hr
      · cases hr
      · split at hr
        · cases hr
        · rename_i storage _
          simp only at hr
          split at hr
          · cases hr
            refine ⟨rfl, fun c i hkey => ?_⟩
            exact (findView_handleReconcile_of_ne lib _ storage _ hkey).trans
              ((NegentropyViews.findView_assignIn _ _ _ _ _ _).trans (if_neg hkey))
          · cases hr
            refine ⟨rfl, fun c i hkey => ?_⟩
            refine (NegentropyViews.findView_assignIn _ _ _ _ _ _).trans ((if_neg hkey).trans ?_)
            exact (findView_handleReconcile_of_ne lib _ storage _ hkey).trans
              ((NegentropyViews.findView_assignIn _ _ _ _ _ _).trans (if_neg hkey))

/-- The view under the id of the query that a slice runs. -/
theorem InStep.attached_slice (h : InStep overlap t) {S : StdSort} {ord : IndexOrder} {st : Store}
    {n : Nat} {queries : QueryScheduler} {sl : Slice}
    (hp : t.queries.process S ord false st n = some (queries, some sl)) :
    queries.Inv ∧ ∃ hq query, Attached overlap hq (t.views.findView sl.sub.connId sl.sub.subId) ∧
      hq.serial = sl.serial ∧ DBQuery.Advances hq.query query sl.levIds ∧
      ∀ c i, queries.live c i = if c = sl.sub.connId ∧ i = sl.sub.subId then
        (if sl.complete then none else some { hq with query := query }) else t.queries.live c i := by
  obtain ⟨hinv, ⟨hnone, -⟩ | ⟨sl', hq, query, calls, heq, hran⟩⟩ :=
    QueryScheduler.process_spec h.queries hp
  · cases hnone
  · cases heq
    have hcalls : sl.levIds = calls := hran.levIds
    refine ⟨hinv, hq, query, h.attached _ _ hq hran.live, hran.serial.symm, ?_, hran.live'⟩
    rw [hcalls]
    exact DBQuery.process_advances n hran.process

theorem InStep.slice (h : InStep overlap t) {lib : NegentropyLib} {cfg : NegentropyConfig}
    {S : StdSort} {ord : IndexOrder} {st : Store} {n : Nat} {r : NegentropyThread × List NegReply}
    (hr : t.slice lib cfg S ord st n = some (.ok r)) : InStep overlap r.1 := by
  rw [NegentropyThread.slice] at hr
  split at hr
  · cases hr
  · rename_i queries hp
    cases hr
    obtain ⟨hinv, ⟨-, hlive⟩ | ⟨sl, _, _, _, heq, -⟩⟩ := QueryScheduler.process_spec h.queries hp
    · apply h.shrink hinv
      intro c i q hq
      exact ⟨(hlive c i).symm.trans hq, Or.inl rfl⟩
    · cases heq
  · rename_i queries sl hp
    obtain ⟨hinv, hq, query, hatt, -, hadv, hlive⟩ := h.attached_slice hp
    split at hr
    · cases hr
    · rename_i views' hbatch
      obtain ⟨hatt', hother⟩ := hatt.batch hadv hbatch
      -- in step before `onComplete`, apart from the query that is complete
      have hmid : ∀ c i q, queries.live c i = some q → Attached overlap q (views'.findView c i) := by
        intro c i q hq'
        rw [hlive] at hq'
        split at hq'
        · rename_i hkey
          split at hq'
          · cases hq'
          · cases hq'
            rw [hkey.1, hkey.2]
            exact hatt'
        · rename_i hkey
          rw [hother c i hkey]
          exact h.attached c i q hq'
      simp only at hr
      split at hr
      · rename_i hcomplete
        obtain ⟨hqueries, hframe⟩ := onComplete_frame (Option.some.inj hr)
        refine ⟨hqueries ▸ hinv, fun c i q hq' => ?_⟩
        rw [hqueries] at hq'
        by_cases hkey : c = sl.sub.connId ∧ i = sl.sub.subId
        · have := hlive c i
          rw [if_pos hkey, if_pos hcomplete] at this
          change queries.live c i = some q at hq'
          rw [this] at hq'
          cases hq'
        · rw [hframe c i hkey]
          exact hmid c i q hq'
      · cases hr
        exact ⟨hinv, hmid⟩

end Steps

/-! ## Runs -/

/-- A step of the thread. A call of `process` is a step of its own, so that one may come at any
time. With `overlap` false, a NEG-OPEN is served from a tree only if no query is running under its
id. -/
inductive Step (lib : NegentropyLib) (cfg : NegentropyConfig) (overlap : Prop) :
    NegentropyThread → NegentropyThread → Prop
  | openTree {t : NegentropyThread} {db : Db} {sub : Subscription} {filterStr negPayload : Bytes}
      {treeId : Nat} {r : NegentropyThread × List NegReply}
      (select : selectTree db.negentropyFilter filterStr = some treeId)
      (free : overlap ∨ t.queries.live sub.connId sub.subId = none)
      (call : t.openTree lib cfg db sub negPayload treeId = .ok r) : Step lib cfg overlap t r.1
  | openMemory {t : NegentropyThread} {db : Db} {q : QueryPtr} {sub : Subscription}
      {filterStr negPayload : Bytes} (select : selectTree db.negentropyFilter filterStr = none)
      (unused : t.queries.queries.lookup q = none) :
      Step lib cfg overlap t (t.openMemory cfg db.toStore q sub negPayload).1
  | slice {t : NegentropyThread} {S : StdSort} {ord : IndexOrder} {st : Store} {n : Nat}
      {r : NegentropyThread × List NegReply} (call : t.slice lib cfg S ord st n = some (.ok r)) :
      Step lib cfg overlap t r.1
  | negMsg {t : NegentropyThread} {db : Db} {connId : Nat} {subId : SubId} {negPayload : Bytes}
      {r : NegentropyThread × List NegReply}
      (call : t.negMsg lib db connId subId negPayload = .ok r) : Step lib cfg overlap t r.1
  | negClose (t : NegentropyThread) (connId : Nat) (subId : SubId) :
      Step lib cfg overlap t (t.negClose connId subId)
  | closeConn (t : NegentropyThread) (connId : Nat) :
      Step lib cfg overlap t (t.closeConn connId)

/-- States that the thread reaches. -/
def Reachable (lib : NegentropyLib) (cfg : NegentropyConfig) (overlap : Prop)
    (t : NegentropyThread) : Prop :=
  Relation.ReflTransGen (Step lib cfg overlap) {} t

theorem Step.inStep {lib : NegentropyLib} {cfg : NegentropyConfig} {overlap : Prop}
    {t t' : NegentropyThread} (hs : Step lib cfg overlap t t') (h : InStep overlap t) :
    InStep overlap t' := by
  cases hs with
  | openTree select free call => exact h.openTree free call
  | openMemory select unused => exact h.openMemory cfg _ unused _ _
  | slice call => exact h.slice call
  | negMsg call => exact h.negMsg call
  | negClose connId subId => exact h.negClose connId subId
  | closeConn connId => exact h.closeConn connId

theorem Reachable.inStep {lib : NegentropyLib} {cfg : NegentropyConfig} {overlap : Prop}
    {t : NegentropyThread} (h : Reachable lib cfg overlap t) : InStep overlap t := by
  induction h with
  | refl => exact inStep_empty overlap
  | tail _ hs ih => exact hs.inStep ih

/-- A NEG-OPEN in memory with its first slice. -/
theorem Reachable.negOpen {lib : NegentropyLib} {cfg : NegentropyConfig} {overlap : Prop}
    {t : NegentropyThread} (h : Reachable lib cfg overlap t) {db : Db} {q : QueryPtr}
    {sub : Subscription} {filterStr negPayload : Bytes}
    (select : selectTree db.negentropyFilter filterStr = none)
    (unused : t.queries.queries.lookup q = none) {S : StdSort} {ord : IndexOrder} {n : Nat}
    {r : NegentropyThread × List NegReply}
    (call : t.negOpen lib cfg S ord db q n sub filterStr negPayload = some (.ok r)) :
    Reachable lib cfg overlap r.1 := by
  have hopen : Step lib cfg overlap t (t.openMemory cfg db.toStore q sub negPayload).1 :=
    .openMemory select unused
  rw [NegentropyThread.negOpen, select] at call
  obtain ⟨e, hslice, hmap⟩ := Option.map_eq_some_iff.1 call
  obtain ⟨r', rfl, rfl⟩ := map_eq_ok.1 hmap
  have hnext : Step lib cfg overlap (t.openMemory cfg db.toStore q sub negPayload).1 r'.1 := .slice hslice
  exact (h.tail hopen).tail hnext

/-- The view under the id of the query is gone, or it is the one made by the same NEG-OPEN. -/
def OwnView (views : NegentropyViews) (sl : Slice) : Prop :=
  views.findView sl.sub.connId sl.sub.subId = none ∨
    ∃ view, views.findView sl.sub.connId sl.sub.subId = some (.memory view) ∧
      view.serial = sl.serial

theorem ownView_of_attached {h : HeapQuery} {sl : Slice} {views : NegentropyViews}
    (hserial : h.serial = sl.serial)
    (hatt : Attached False h (views.findView sl.sub.connId sl.sub.subId)) : OwnView views sl := by
  rw [OwnView]
  generalize views.findView sl.sub.connId sl.sub.subId = o at hatt ⊢
  cases o with
  | none => exact Or.inl rfl
  | some v =>
    cases v with
    | memory view => exact Or.inr ⟨view, rfl, hatt.serial.trans hserial⟩
    | stateless view => exact hatt.elim

/-- In a run in which no NEG-OPEN is served from a tree while a query is running under its id,
every callback finds the view of its own query or none, so the exception for a wrong variant is
not thrown. -/
theorem callbacks_find_own_view {lib : NegentropyLib} {cfg : NegentropyConfig}
    {t : NegentropyThread} (h : Reachable lib cfg False t) {S : StdSort} {ord : IndexOrder}
    {st : Store} {n : Nat} {queries : QueryScheduler} {sl : Slice}
    (hp : t.queries.process S ord false st n = some (queries, some sl)) :
    OwnView t.views sl ∧
      ∃ views, onEventBatch t.views sl.sub sl.levIds = .ok views ∧ OwnView views sl := by
  obtain ⟨-, hq, query, hatt, hserial, hadv, -⟩ := h.inStep.attached_slice hp
  have hown := ownView_of_attached hserial hatt
  refine ⟨hown, ?_⟩
  have hok : ∃ views, onEventBatch t.views sl.sub sl.levIds = .ok views := by
    rw [onEventBatch]
    rcases hown with hnone | ⟨view, hview, -⟩
    · rw [hnone]
      exact ⟨_, rfl⟩
    · rw [hview]
      exact ⟨_, rfl⟩
  obtain ⟨views, hviews⟩ := hok
  refine ⟨views, hviews, ?_⟩
  exact ownView_of_attached (h := { hq with query := query }) hserial (hatt.batch hadv hviews).1

/-! ## A run out of step -/

/-- A library that accepts every message. -/
def plainLib : NegentropyLib where
  reconcile _ _ := .ok []
  sealVector items := .ok items.toFinset
  sealVector_nodup _ _ := rfl

/-- The subscription of a NEG-OPEN for every event, up to a limit. -/
def openAll (limit : Nat) : Subscription where
  connId := 1
  subId := .a
  filterGroup := .unrestricted limit

/-- A NEG-OPEN message with an empty payload. -/
def negOpenArr (filter : Json) : List Json :=
  [.string (ascii "NEG-OPEN"), .string [97], filter, .string []]

/-- The NEG-OPEN for a filter that lists the kinds below `n`, with ten events allowed. -/
theorem ingester_kindsFilter {n : Nat} (hpos : 0 < n) (hle : n ≤ 2 ^ 64) :
    ∃ g f, ingesterProcessNegentropy hexCodec emptyObjectText 10 1 (ascii "NEG-OPEN")
        (negOpenArr (kindsFilter n)) = .ok (.negOpen ⟨1, .a, g, ⊤⟩ (kindsFilter n).print []) ∧
      g.filters = [f] ∧ DBScan.numCursors f = n ∧ CanAnswer f ∧ f.limit = 11 ∧
      ∀ ev : PackedEvent, f.doesMatch ev = true ↔ ev.kind < n := by
  obtain ⟨f, k, hmake, hnm, hids, htags, ha, hk, hlen, hcan, hmatch⟩ :=
    kindsFilter_make hpos hle hexCodec (show 0 < 11 by norm_num)
  obtain ⟨g, hg, hfilters⟩ := NostrFilterGroup.unwrapped_object hmake hnm
  have hlimit : f.limit = 11 := by
    exact NostrFilter.limit_of_unlimited (unlimited_kindsFilter n) (by norm_num [maxU64]) hmake
  have hcur : DBScan.numCursors f = n := by
    rw [DBScan.numCursors_of_kinds hids htags ha hk, hlen]
  refine ⟨g, f, ?_, hfilters, hcur, hcan, hlimit, hmatch⟩
  have hgroup : NostrFilterGroup.unwrapped hexCodec (kindsFilter n) ((10 + 1) % 2 ^ 64) = .ok g := hg
  have hsub : SubId.make [97] = .ok .a := rfl
  simp only [ingesterProcessNegentropy, negOpenArr, jsonAt, List.getElem?_cons_succ,
    List.getElem?_cons_zero, jsonGetString, bind, Except.bind, if_true, ingesterNegOpen,
    List.length_cons, List.length_nil, hgroup, hsub]
  rfl

section Paused

variable (db : Db) (g : NostrFilterGroup)

/-- The thread after a first NEG-OPEN, for the filters `g`, that is served from memory. -/
def openedThread : NegentropyThread :=
  (NegentropyThread.openMemory ⟨20, 10⟩ db.toStore 0 {} ⟨1, .a, g, ⊤⟩ []).1

/-- The same thread while the query has come as far as `query`, and has found nothing yet. -/
def pausedThread (query : DBQuery) : NegentropyThread :=
  { openedThread db g with
    queries := { (openedThread db g).queries with
      queries := (openedThread db g).queries.queries.insert 0 ⟨query, false, 0⟩ } }

variable {db g} {f : NostrFilter} {n : Nat} {filterStr : Bytes}

/-- A first NEG-OPEN whose query pauses while it has cursors left to initialise. -/
theorem negOpen_pauses (hst : SnapshotOk db.toStore) (hg : g.filters = [f])
    (hcur : DBScan.numCursors f ≤ 2 ^ 24) (hn : n ≤ DBScan.numCursors f)
    (hselect : selectTree db.negentropyFilter filterStr = none) :
    ∃ query, NegentropyThread.negOpen plainLib ⟨20, 10⟩ .insertion byteOrder db 0 n {} ⟨1, .a, g, ⊤⟩
        filterStr [] = some (.ok (pausedThread db g query, [])) ∧
      query.sub = ⟨1, .a, g, db.getMostRecentLevId⟩ ∧ QueryInv byteOrder db.toStore query [] := by
  have hstart : QueryInv byteOrder db.toStore (.new ⟨1, .a, g, db.getMostRecentLevId⟩) [] := by
    refine queryInv_start hst ?_ (Nat.zero_le _) rfl rfl rfl rfl
    intro f' hf'
    have hf' : f' ∈ g.filters := hf'
    rw [hg, List.mem_singleton] at hf'
    exact hf' ▸ hcur
  obtain ⟨query, new, complete, hproc, hspec⟩ := process_spec .insertion hst (by
    intro f' hf'
    have hf' : f' ∈ g.filters := hf'
    rw [hg, List.mem_singleton] at hf'
    exact hf' ▸ hcur) hstart n
  have hfirst : g.filters[0]? = some f := by rw [hg]; rfl
  obtain ⟨rfl, rfl⟩ := DBQuery.process_init (f := f) hfirst (by
    show 0 + n ≤ (DBScan.make f).cursors.length
    rw [DBScan.make, List.length_map, Nat.zero_add]
    exact hn) hproc
  refine ⟨query, ?_, hspec.sub, hspec.inv⟩
  have hp : (openedThread db g).queries.process .insertion byteOrder false db.toStore n =
      some ((pausedThread db g query).queries, some ⟨⟨1, .a, g, db.getMostRecentLevId⟩, 0, [], false⟩) := by
    have hrunning : (openedThread db g).queries.running = [0] := rfl
    have hlook : (openedThread db g).queries.queries.lookup 0 =
      some ⟨.new ⟨1, .a, g, db.getMostRecentLevId⟩, false, 0⟩ := rfl
    rw [QueryScheduler.process, hrunning]
    simp only [hlook, hproc, QueryScheduler.passedOn, Bool.false_eq_true, if_false]
    rfl
  rw [negOpen, hselect]
  show ((openedThread db g).slice plainLib ⟨20, 10⟩ .insertion byteOrder db.toStore n).map _ = _
  rw [slice, hp]
  rfl

theorem room_pausedThread (query : DBQuery) (sub : Subscription) (treeId : Nat) :
    ((pausedThread db g query).views.addStatelessView 20 1 .a sub treeId).1 = true := by
  have hviews : (pausedThread db g query).views = (NegentropyViews.addMemoryView 20 ∅ 1 .a [] 0).2 := rfl
  rw [hviews]
  rfl

end Paused

/-- A NEG-OPEN that selects a tree, when its message is accepted and its view is not refused. -/
theorem openTree_of_room {lib : NegentropyLib} {cfg : NegentropyConfig} {db : Db} {t : NegentropyThread}
    {sub : Subscription} {f : NostrFilter} {negPayload resp : Bytes} {treeId : Nat}
    (hf : sub.filterGroup.filters[0]? = some f)
    (hrec : lib.reconcile (subRange (db.trees treeId) f) negPayload = .ok resp)
    (hroom : (t.views.addStatelessView cfg.maxSubsPerConnection sub.connId sub.subId sub treeId).1 = true) :
    ∃ t', t.openTree lib cfg db sub negPayload treeId = .ok (t', [.negMsg sub.connId sub.subId resp]) ∧
      t'.queries = t.queries ∧
      t'.views.findView sub.connId sub.subId = some (.stateless ⟨sub, treeId⟩) := by
  refine ⟨{ t with
    views := (t.views.addStatelessView cfg.maxSubsPerConnection sub.connId sub.subId sub treeId).2
    opened := t.opened + 1 }, ?_, rfl, NegentropyViews.findView_addStatelessView hroom⟩
  simp only [openTree, hf, handleReconcile, hrec, if_pos hroom]

/-- The NEG-OPEN for many kinds selects no tree. -/
theorem selectTree_kindsFilter {rows : Table Bytes} (hrows : rows.rows = [(1, emptyFilterText)]) (n : Nat) :
    selectTree rows (kindsFilter n).print = none := by
  have hne : (emptyFilterText == (kindsFilter n).print) = false := by
    rw [beq_eq_false_iff_ne]
    intro heq
    -- the second bytes differ
    have hsecond := congrArg (fun b => b[1]?) heq
    simp [kindsFilter, Json.print, Json.printMembers, Json.printMember, Json.printString, emptyFilterText,
      ascii] at hsecond
  simp [selectTree, hrows, hne]

/-- The two notes in a new database. -/
def writtenNotes : Except Err Db :=
  (writeEvents .insertion byteOrder hexCodec emptyObjectText {} Db.init twoNotes).2.map Prod.fst

theorem writtenNotes_ok : ∃ db, writtenNotes = .ok db ∧ SnapshotOk db.toStore ∧
    (∀ r ∈ db.event.rows, r.2.kind = 1) ∧
    (db.event.rows.insertionSort fun a b => rowRank b ≤ rowRank a).map Prod.fst = [2, 1] ∧
    db.negentropyFilter.rows = [(1, emptyFilterText)] := by
  have heval : writtenNotes.map (fun db => (db.event.rows.map fun r => (r.1, r.2.createdAt, r.2.kind),
      (db.event.rows.insertionSort fun a b => rowRank b ≤ rowRank a).map Prod.fst,
      db.negentropyFilter.rows)) = .ok ([(1, 10, 1), (2, 20, 1)], [2, 1], [(1, emptyFilterText)]) := by
    decide +kernel
  obtain ⟨db, hdb, heq⟩ := map_eq_ok.mp heval
  rw [Prod.mk.injEq, Prod.mk.injEq] at heq
  obtain ⟨hrows, hsorted, htrees⟩ := heq
  have hrow : ∀ r ∈ db.event.rows, (r.1 = 1 ∨ r.1 = 2) ∧ r.2.createdAt ≤ 20 ∧ r.2.kind = 1 := by
    intro r hr
    have hmem : (r.1, r.2.createdAt, r.2.kind) ∈ [(1, 10, 1), (2, 20, 1)] :=
      hrows ▸ List.mem_map_of_mem hr
    simp only [List.mem_cons, Prod.mk.injEq, List.not_mem_nil, or_false] at hmem
    omega
  refine ⟨db, hdb, ⟨fun r hr => ?_, fun r hr => ?_⟩, fun r hr => (hrow r hr).2.2, hsorted, htrees⟩
  · have := hrow r hr
    omega
  · have := hrow r hr
    omega

/-- The query of a NEG-OPEN for the kinds up to 2000 can pause after 1998 iterations: with the two notes
that have been collected and the iteration that begins, the work is then 2001. A second slice finds the
notes. -/
theorem notes_paused : ∃ (db : Db) (g : NostrFilterGroup) (query query' : DBQuery) (m : Nat),
    writtenNotes = .ok db ∧ selectTree db.negentropyFilter emptyFilterText = some 1 ∧
    selectTree db.negentropyFilter (kindsFilter 2001).print = none ∧
    ingesterProcessNegentropy hexCodec emptyObjectText 10 1 (ascii "NEG-OPEN")
      (negOpenArr (kindsFilter 2001)) = .ok (.negOpen ⟨1, .a, g, ⊤⟩ (kindsFilter 2001).print []) ∧
    NegentropyThread.negOpen plainLib ⟨20, 10⟩ .insertion byteOrder db 0 1998 {} ⟨1, .a, g, ⊤⟩
      (kindsFilter 2001).print [] = some (.ok (pausedThread db g query, [])) ∧
    query.sub = ⟨1, .a, g, db.getMostRecentLevId⟩ ∧
    query.process .insertion byteOrder db.toStore m = some (query', [2, 1], true) := by
  obtain ⟨db, hdb, hst, hkind, hsorted, htrees⟩ := writtenNotes_ok
  obtain ⟨g, f, hmsg, hg, hcursors, -, hlimit, hmatch⟩ :=
    ingester_kindsFilter (n := 2001) (by norm_num) (by norm_num)
  have hcur : DBScan.numCursors f ≤ 2 ^ 24 := by
    rw [hcursors]
    norm_num
  have hnone := selectTree_kindsFilter htrees 2001
  obtain ⟨query, hopen, hsub, hinv⟩ :=
    negOpen_pauses hst hg hcur (n := 1998) (by rw [hcursors]; norm_num) hnone
  have hfilters : query.filters = [f] := by
    rw [DBQuery.filters, hsub]
    exact hg
  obtain ⟨query', new, complete, hproc, hspec⟩ := process_spec .insertion hst (by
    rw [hfilters]
    intro f' hf'
    rw [List.mem_singleton.mp hf']
    exact hcur) hinv (query.work byteOrder db.toStore + 1)
  have hcomplete : complete = true := by
    rw [← Bool.not_eq_false]
    intro hfalse
    have := (hspec.work hfalse).1
    omega
  -- both notes match, and the limit is 11
  have hanswer : answer db.toStore f query.sub.latestEventId = [2, 1] := by
    have hmatching : matchingRows db.toStore f query.sub.latestEventId = db.event.rows := by
      rw [matchingRows, List.filter_eq_self]
      intro r hr
      have hle : r.1 ≤ db.getMostRecentLevId := Table.le_lastKey hr
      have hm : f.doesMatch r.2 = true := by
        rw [hmatch, hkind r hr]
        norm_num
      rw [hsub, hm]
      simpa using hle
    rw [answer, newestMatching, hmatching, List.map_take, hsorted, hlimit]
    rfl
  have hnew : new = [2, 1] := by
    have hall := hspec.all hcomplete
    rw [hfilters, delivered, delivered, hanswer] at hall
    simpa using hall
  subst hcomplete hnew
  refine ⟨db, g, query, query', _, hdb, ?_, hnone, hmsg, hopen, hsub, hproc⟩
  simp [selectTree, htrees]

/-- The second slice of the paused query finds its own view. -/
theorem callbacks_find_own_view_pausedThread :
    ∃ (db : Db) (g : NostrFilterGroup) (t : NegentropyThread) (m : Nat) (queries : QueryScheduler)
      (sl : Slice), writtenNotes = .ok db ∧
      ingesterProcessNegentropy hexCodec emptyObjectText 10 1 (ascii "NEG-OPEN")
        (negOpenArr (kindsFilter 2001)) = .ok (.negOpen ⟨1, .a, g, ⊤⟩ (kindsFilter 2001).print []) ∧
      NegentropyThread.negOpen plainLib ⟨20, 10⟩ .insertion byteOrder db 0 1998 {} ⟨1, .a, g, ⊤⟩
        (kindsFilter 2001).print [] = some (.ok (t, [])) ∧
      t.queries.process .insertion byteOrder false db.toStore m = some (queries, some sl) ∧
      sl.levIds = [2, 1] ∧ OwnView t.views sl ∧
      ∃ views, onEventBatch t.views sl.sub sl.levIds = .ok views ∧ OwnView views sl := by
  obtain ⟨db, g, query, query', m, hdb, -, hnone, hmsg, hopen, hsub, hproc⟩ := notes_paused
  have hreach : Reachable plainLib ⟨20, 10⟩ False (pausedThread db g query) :=
    Reachable.negOpen .refl hnone rfl hopen
  obtain ⟨queries, hp⟩ := QueryScheduler.process_front (s := (pausedThread db g query).queries) rfl rfl rfl hproc
  exact ⟨db, g, _, m, queries, _, hdb, hmsg, hopen, hp, rfl, callbacks_find_own_view hreach hp⟩

/-- A NEG-OPEN for all events under the same id selects the default tree while the query is paused. Its view
takes the place of that of the query, which goes on, and the second slice throws. -/
theorem slice_throws_after_openTree :
    ∃ (db : Db) (g : NostrFilterGroup) (t t' : NegentropyThread) (replies : List NegReply) (m : Nat)
      (queries : QueryScheduler) (sl : Slice) (view : StatelessView), writtenNotes = .ok db ∧
      ingesterProcessNegentropy hexCodec emptyObjectText 10 1 (ascii "NEG-OPEN")
        (negOpenArr (kindsFilter 2001)) = .ok (.negOpen ⟨1, .a, g, ⊤⟩ (kindsFilter 2001).print []) ∧
      NegentropyThread.negOpen plainLib ⟨20, 10⟩ .insertion byteOrder db 0 1998 {} ⟨1, .a, g, ⊤⟩
        (kindsFilter 2001).print [] = some (.ok (t, [])) ∧
      ingesterProcessNegentropy hexCodec emptyObjectText 10 1 (ascii "NEG-OPEN")
        (negOpenArr (.object [])) = .ok (.negOpen (openAll 11) emptyFilterText []) ∧
      t.negOpen plainLib ⟨20, 10⟩ .insertion byteOrder db 1 0 (openAll 11) emptyFilterText [] =
        some (.ok (t', replies)) ∧
      Reachable plainLib ⟨20, 10⟩ True t' ∧
      t'.queries.process .insertion byteOrder false db.toStore m = some (queries, some sl) ∧
      sl.levIds = [2, 1] ∧ t'.views.findView sl.sub.connId sl.sub.subId = some (.stateless view) ∧
      t'.slice plainLib ⟨20, 10⟩ .insertion byteOrder db.toStore m =
        some (.error (.herr "bad variant, expected memory view")) := by
  obtain ⟨db, g, query, query', m, hdb, htree, hnone, hmsg, hopen, hsub, hproc⟩ := notes_paused
  have hreach : Reachable plainLib ⟨20, 10⟩ True (pausedThread db g query) :=
    Reachable.negOpen .refl hnone rfl hopen
  obtain ⟨t', hcall, hqueries, hview⟩ := @openTree_of_room plainLib ⟨20, 10⟩ db (pausedThread db g query)
    (openAll 11) _ [] [] 1 rfl rfl (room_pausedThread query (openAll 11) 1)
  have hstep : Step plainLib ⟨20, 10⟩ True (pausedThread db g query) t' :=
    .openTree htree (Or.inl trivial) hcall
  obtain ⟨queries, hp⟩ := QueryScheduler.process_front (s := (pausedThread db g query).queries) rfl rfl rfl hproc
  rw [← hqueries] at hp
  have hfound : t'.views.findView query.sub.connId query.sub.subId = some (.stateless ⟨openAll 11, 1⟩) := by
    rw [hsub]
    exact hview
  refine ⟨db, g, _, t', [.negMsg (openAll 11).connId (openAll 11).subId []], m, queries, _, _, hdb, hmsg,
    hopen, rfl, ?_, hreach.tail hstep, hp, rfl, hfound, ?_⟩
  · rw [negOpen, htree]
    simp only [hcall]
  · simp only [slice, hp, onEventBatch, hfound]

end NegentropyThread

end Strfry
