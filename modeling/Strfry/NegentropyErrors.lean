import Strfry.NegentropySessions

/-!
# NEG-ERR and the view of its subscription

A subscription counts as closed once NEG-ERR has been sent for it: no view is left under its id
until the next NEG-OPEN. Here the thread runs with a record of the ids for which a NEG-ERR was
the last word. `handleReconcile` sends the error and removes the view, and two of its callers go on
after that. The NegOpen branch for a tree installs a view all the same, unless the connection has
too many; `onComplete` writes to the view that is gone. Both need a first message that the library
rejects. A run without one keeps the record true.
-/

set_option autoImplicit false

namespace Strfry

open Lib

namespace NegentropyViews

/-- The connection has as many views as it may have, not counting the one with the same id. -/
def Full (maxSubs : Nat) (views : NegentropyViews) (connId : Nat) (subId : SubId) : Prop :=
  maxSubs ≤ Map.size (((views.removeView connId subId).lookup connId).getD ∅)

theorem removeView_of_none {views : NegentropyViews} {connId : Nat} {subId : SubId}
    (h : views.findView connId subId = none) : views.removeView connId subId = views := by
  rw [removeView, h]

theorem addView_refused_iff (maxSubs : Nat) (views : NegentropyViews) (connId : Nat)
    (subId : SubId) (view : UserView) :
    (views.addView maxSubs connId subId view).1 = false ↔ views.Full maxSubs connId subId := by
  have hremove : (if (views.findView connId subId).isSome then views.removeView connId subId
      else views) = views.removeView connId subId := by
    split
    · rfl
    · rename_i hnone
      exact (removeView_of_none (Option.not_isSome_iff_eq_none.1 hnone)).symm
  have hsize : ∀ m : NegentropyViews,
      ((Map.tryEmplace m connId ∅).lookup connId).getD ∅ = (m.lookup connId).getD ∅ := by
    intro m
    rw [Map.lookup_tryEmplace, if_pos rfl, Option.getD_some]
  rw [addView, Full]
  simp only [hremove, hsize]
  split <;> simp_all

/-- Removing a view a second time changes nothing, so it does not matter for the count either. -/
theorem full_removeView (maxSubs : Nat) (views : NegentropyViews) (connId : Nat) (subId : SubId) :
    (views.removeView connId subId).Full maxSubs connId subId ↔
      views.Full maxSubs connId subId := by
  have hnone : (views.removeView connId subId).findView connId subId = none := by
    rw [findView_removeView, if_pos ⟨rfl, rfl⟩]
  rw [Full, removeView_of_none hnone, Full]

end NegentropyViews

namespace NegReply

/-- The subscriptions that the replies of a handler declare closed. -/
def negErrs (replies : List NegReply) : List (Nat × SubId) :=
  replies.filterMap fun
    | .negErr connId subId _ _ => some (connId, subId)
    | .negMsg _ _ _ => none
    | .notice _ _ => none

@[simp] theorem negErrs_append (l l' : List NegReply) : negErrs (l ++ l') = negErrs l ++ negErrs l' :=
  List.filterMap_append

end NegReply

namespace NegentropyThread

/-! ## The loop -/

/-- What the loop of `runNegentropy` does next: it handles a message, for which a transaction is
open and `q` is the address that `new` would return, or calls `process`. -/
inductive Turn
  | message (db : Db) (q : QueryPtr) (n : Nat) (msg : MsgNegentropy)
  | process (st : Store) (n : Nat)

/-- The subscription whose NEG-OPEN is handled. -/
def Turn.opens : Turn → Option (Nat × SubId)
  | .message _ _ _ (.negOpen sub _ _) => some (sub.connId, sub.subId)
  | _ => none

/-- A turn of the loop. -/
def turn (lib : NegentropyLib) (cfg : NegentropyConfig) (S : StdSort) (ord : IndexOrder)
    (t : NegentropyThread) : Turn → Option (Except Err (NegentropyThread × List NegReply))
  | .message db q n (.negOpen sub filterStr negPayload) =>
    if (t.queries.queries.lookup q).isSome then none
    else t.negOpen lib cfg S ord db q n sub filterStr negPayload
  | .message db _ _ (.negMsg connId subId negPayload) =>
    some (t.negMsg lib db connId subId negPayload)
  | .message _ _ _ (.negClose connId subId) => some (.ok (t.negClose connId subId, []))
  | .message _ _ _ (.closeConn connId) => some (.ok (t.closeConn connId, []))
  | .process st n => t.slice lib cfg S ord st n

/-- The thread with the ids for which NEG-ERR was sent, and no NEG-OPEN handled after that. -/
structure Recorded where
  thread : NegentropyThread := {}
  errored : List (Nat × SubId) := []

/-- A turn of the loop, and what it does to the record. A NEG-OPEN starts its subscription anew; the
errors of the same turn come after that. -/
inductive Records (lib : NegentropyLib) (cfg : NegentropyConfig) (S : StdSort) (ord : IndexOrder)
    (u : Turn) : Recorded → Recorded → Prop
  | mk {s : Recorded} {r : NegentropyThread × List NegReply}
      (call : s.thread.turn lib cfg S ord u = some (.ok r)) :
      Records lib cfg S ord u s
        ⟨r.1, s.errored.filter (fun id => u.opens ≠ some id) ++ NegReply.negErrs r.2⟩

/-- An id on the record has no view, and no view was written to after its removal. -/
structure ErrCloses (s : Recorded) : Prop where
  closed : ∀ c i, (c, i) ∈ s.errored → s.thread.views.findView c i = none
  noStaleWrite : s.thread.staleWrite = false

/-! ## What a handler may do -/

/-- A handler that makes no view but under the ids in `opened`, and leaves none under an id for
which it sends NEG-ERR. -/
structure Closing (opened : Option (Nat × SubId)) (t : NegentropyThread)
    (r : NegentropyThread × List NegReply) : Prop where
  absent : ∀ c i, opened ≠ some (c, i) → t.views.findView c i = none →
    r.1.views.findView c i = none
  closed : ∀ c i, (c, i) ∈ NegReply.negErrs r.2 → r.1.views.findView c i = none
  staleWrite : r.1.staleWrite = t.staleWrite

section Handlers

variable {lib : NegentropyLib} {cfg : NegentropyConfig} {S : StdSort} {ord : IndexOrder}
  {t : NegentropyThread}

/-- The state is the same up to views, and each id has the view that it had, or none. -/
theorem closing_of_shrink {opened : Option (Nat × SubId)} {r : NegentropyThread × List NegReply}
    (hstale : r.1.staleWrite = t.staleWrite)
    (hview : ∀ c i, t.views.findView c i = none → r.1.views.findView c i = none)
    (hclosed : ∀ c i, (c, i) ∈ NegReply.negErrs r.2 → r.1.views.findView c i = none) :
    Closing opened t r where
  absent := fun c i _ => hview c i
  closed := hclosed
  staleWrite := hstale

/-- `handleReconcile` removes the view exactly if it sends NEG-ERR, which names that view. -/
theorem handleReconcile_closes (lib : NegentropyLib) (views : NegentropyViews) (connId : Nat)
    (subId : SubId) (storage : Tree) (msg : Bytes) :
    (∀ c i, views.findView c i = none →
        (handleReconcile lib views connId subId storage msg).1.findView c i = none) ∧
      ∀ c i, (c, i) ∈ NegReply.negErrs (handleReconcile lib views connId subId storage msg).2 →
        (handleReconcile lib views connId subId storage msg).1.findView c i = none := by
  constructor
  · intro c i hnone
    rcases findView_handleReconcile lib views connId subId storage msg with heq | heq
    · rw [heq, hnone]
    · rw [heq, hnone, ite_self]
  · intro c i hmem
    rw [handleReconcile] at hmem ⊢
    split at hmem
    · obtain ⟨rfl, rfl⟩ : c = connId ∧ i = subId := by simpa [NegReply.negErrs] using hmem
      rw [NegentropyViews.findView_removeView, if_pos ⟨rfl, rfl⟩]
    · simp [NegReply.negErrs] at hmem

theorem closing_reconcile (opened : Option (Nat × SubId)) (connId : Nat) (subId : SubId)
    (storage : Tree) (msg : Bytes) :
    Closing opened t
      ({ t with views := (handleReconcile lib t.views connId subId storage msg).1 },
        (handleReconcile lib t.views connId subId storage msg).2) := by
  obtain ⟨habsent, hclosed⟩ := handleReconcile_closes lib t.views connId subId storage msg
  exact closing_of_shrink rfl habsent hclosed

/-- Every NEG-ERR that answers a NEG-MSG leaves its id without a view. -/
theorem closing_negMsg {db : Db} {connId : Nat} {subId : SubId} {negPayload : Bytes}
    {r : NegentropyThread × List NegReply}
    (hr : t.negMsg lib db connId subId negPayload = .ok r) : Closing none t r := by
  rw [negMsg] at hr
  split at hr
  · -- the handle is unknown: there is no view to remove
    rename_i hnone
    cases hr
    refine closing_of_shrink rfl (fun _ _ h => h) ?_
    intro c i hmem
    obtain ⟨rfl, rfl⟩ : c = connId ∧ i = subId := by simpa [NegReply.negErrs] using hmem
    exact hnone
  · split at hr
    · cases hr
      exact closing_of_shrink rfl (fun _ _ h => h) (by simp [NegReply.negErrs])
    · cases hr
      exact closing_reconcile none connId subId _ negPayload
  · split at hr
    · cases hr
    · cases hr
      exact closing_reconcile none connId subId _ negPayload

theorem closing_negClose (t : NegentropyThread) (connId : Nat) (subId : SubId) :
    Closing none t (t.negClose connId subId, []) := by
  refine closing_of_shrink rfl ?_ (by simp [NegReply.negErrs])
  intro c i hnone
  refine (NegentropyViews.findView_removeView t.views connId c subId i).trans ?_
  rw [hnone, ite_self]

theorem closing_closeConn (t : NegentropyThread) (connId : Nat) :
    Closing none t (t.closeConn connId, []) := by
  refine closing_of_shrink rfl ?_ (by simp [NegReply.negErrs])
  intro c i hnone
  refine (NegentropyViews.findView_closeConn t.views connId c i).trans ?_
  rw [hnone, ite_self]

/-! ## Time slices -/

/-- The slice completes a query whose view is sealed, and the library rejects the message that
the NEG-OPEN had brought. -/
def InitialRejected (lib : NegentropyLib) (cfg : NegentropyConfig) (S : StdSort) (ord : IndexOrder)
    (st : Store) (n : Nat) (t : NegentropyThread) : Prop :=
  ∃ queries sl views view storage e, t.queries.process S ord false st n = some (queries, some sl) ∧
    sl.complete = true ∧ onEventBatch t.views sl.sub sl.levIds = .ok views ∧
    views.findView sl.sub.connId sl.sub.subId = some (.memory view) ∧
    view.levIds.length ≤ cfg.maxSyncEvents ∧ view.storageVector = none ∧
    lib.sealVector (viewItems st view.levIds) = .ok storage ∧
    lib.reconcile storage view.initialMsg = .error e

/-- `onEventBatch` writes to views that are there. -/
theorem onEventBatch_absent {views views' : NegentropyViews} {sub : Subscription} {levIds : List Nat}
    (h : onEventBatch views sub levIds = .ok views') {c : Nat} {i : SubId}
    (hnone : views.findView c i = none) : views'.findView c i = none := by
  rw [onEventBatch] at h
  split at h
  · cases h
    exact hnone
  · cases h
  · rename_i view hview
    cases h
    rw [NegentropyViews.findView_assignIn, if_neg, hnone]
    rintro ⟨rfl, rfl⟩
    rw [hview] at hnone
    cases hnone

/-- `onComplete` when the first message is accepted, or is not looked at. -/
theorem closing_onComplete {st : Store} {sub : Subscription} {r : NegentropyThread × List NegReply}
    (hr : t.onComplete lib cfg st sub = .ok r)
    (hok : ∀ view storage e, t.views.findView sub.connId sub.subId = some (.memory view) →
      view.levIds.length ≤ cfg.maxSyncEvents → view.storageVector = none →
      lib.sealVector (viewItems st view.levIds) = .ok storage →
      lib.reconcile storage view.initialMsg ≠ .error e) : Closing none t r := by
  rw [onComplete] at hr
  split at hr
  · cases hr
    exact closing_of_shrink rfl (fun _ _ h => h) (by simp [NegReply.negErrs])
  · cases hr
  · rename_i view hview
    split at hr
    · -- too many results: the view is removed, and nothing else is done to it
      cases hr
      refine closing_of_shrink rfl ?_ ?_
      · intro c i hnone
        refine (NegentropyViews.findView_removeView t.views sub.connId c sub.subId i).trans ?_
        rw [hnone, ite_self]
      · intro c i hmem
        obtain ⟨rfl, rfl⟩ : c = sub.connId ∧ i = sub.subId := by simpa [NegReply.negErrs] using hmem
        exact (NegentropyViews.findView_removeView t.views _ _ _ _).trans (if_pos ⟨rfl, rfl⟩)
    · rename_i hsize
      split at hr
      · cases hr
      · rename_i hopen
        split at hr
        · cases hr
        · rename_i storage hseal
          have haccept : ∃ resp, lib.reconcile storage view.initialMsg = .ok resp := by
            cases hrec : lib.reconcile storage view.initialMsg with
            | error e => exact absurd hrec (hok view storage e hview (not_lt.1 hsize) hopen hseal)
            | ok resp => exact ⟨resp, rfl⟩
          obtain ⟨resp, haccept⟩ := haccept
          simp only [handleReconcile, haccept, NegentropyViews.findView_assignIn, and_self,
            if_true] at hr
          cases hr
          refine closing_of_shrink rfl ?_ (by simp [NegReply.negErrs])
          intro c i hnone
          refine (NegentropyViews.findView_assignIn _ _ _ _ _ _).trans ?_
          have hkey : ¬ (c = sub.connId ∧ i = sub.subId) := by
            rintro ⟨rfl, rfl⟩
            rw [hview] at hnone
            cases hnone
          rw [if_neg hkey, NegentropyViews.findView_assignIn, if_neg hkey, hnone]

/-- `onComplete` writes to the removed view if the library rejects the first message. -/
theorem onComplete_staleWrite {st : Store} {sub : Subscription} {view : MemoryView} {storage : Tree}
    {e : Err} (hview : t.views.findView sub.connId sub.subId = some (.memory view))
    (hsize : view.levIds.length ≤ cfg.maxSyncEvents) (hopen : view.storageVector = none)
    (hseal : lib.sealVector (viewItems st view.levIds) = .ok storage)
    (hrec : lib.reconcile storage view.initialMsg = .error e)
    {r : NegentropyThread × List NegReply} (hr : t.onComplete lib cfg st sub = .ok r) :
    r.1.staleWrite = true := by
  simp only [onComplete, hview, not_lt.2 hsize, if_false, hopen, hseal, handleReconcile, hrec,
    NegentropyViews.findView_removeView, and_self, if_true] at hr
  cases hr
  rfl

/-- A slice writes to a removed view exactly if a first message is rejected; otherwise it closes
what it sends NEG-ERR for. -/
theorem slice_closing {st : Store} {n : Nat} {r : NegentropyThread × List NegReply}
    (hr : t.slice lib cfg S ord st n = some (.ok r)) :
    (InitialRejected lib cfg S ord st n t → r.1.staleWrite = true) ∧
      (¬ InitialRejected lib cfg S ord st n t → Closing none t r) := by
  rw [slice] at hr
  split at hr
  · cases hr
  · rename_i queries hp
    cases hr
    constructor
    · rintro ⟨_, _, _, _, _, _, hp', -⟩
      rw [hp] at hp'
      cases hp'
    · intro _
      exact closing_of_shrink rfl (fun _ _ h => h) (by simp [NegReply.negErrs])
  · rename_i queries sl hp
    split at hr
    · cases hr
    · rename_i views hbatch
      simp only at hr
      split at hr
      · rename_i hcomplete
        have hr := Option.some.inj hr
        constructor
        · rintro ⟨_, _, _, view, storage, e, hp', -, hbatch', hview, hsize, hopen, hseal, hrec⟩
          rw [hp] at hp'
          cases hp'
          rw [hbatch] at hbatch'
          cases hbatch'
          exact onComplete_staleWrite hview hsize hopen hseal hrec hr
        · intro hnot
          have hcl := closing_onComplete hr (fun view storage e hview hsize hopen hseal hrec =>
            hnot ⟨queries, sl, views, view, storage, e, hp, hcomplete, hbatch, hview, hsize, hopen,
              hseal, hrec⟩)
          refine ⟨fun c i hne hnone => ?_, hcl.closed, hcl.staleWrite⟩
          exact hcl.absent c i hne (onEventBatch_absent hbatch hnone)
      · rename_i hcomplete
        cases hr
        constructor
        · rintro ⟨_, _, _, _, _, _, hp', hcomplete', -⟩
          rw [hp] at hp'
          cases hp'
          exact absurd hcomplete' hcomplete
        · intro _
          exact closing_of_shrink rfl (fun c i hnone => onEventBatch_absent hbatch hnone)
            (by simp [NegReply.negErrs])

/-! ## The NegOpen branch -/

/-- A NEG-OPEN from a tree closes what it sends NEG-ERR for if its message is accepted, or the new
view is refused. -/
theorem closing_openTree {db : Db} {sub : Subscription} {negPayload : Bytes} {treeId : Nat}
    {f : NostrFilter} (hf : sub.filterGroup.filters[0]? = some f)
    (hok : t.views.Full cfg.maxSubsPerConnection sub.connId sub.subId ∨
      ∃ resp, lib.reconcile (subRange (db.trees treeId) f) negPayload = .ok resp)
    {r : NegentropyThread × List NegReply}
    (hr : t.openTree lib cfg db sub negPayload treeId = .ok r) :
    Closing (some (sub.connId, sub.subId)) t r := by
  rw [openTree, hf] at hr
  obtain ⟨b, views', hadd, hfind⟩ := NegentropyViews.addView_spec cfg.maxSubsPerConnection
    (handleReconcile lib t.views sub.connId sub.subId (subRange (db.trees treeId) f) negPayload).1
    sub.connId sub.subId (.stateless ⟨sub, treeId⟩)
  simp only [NegentropyViews.addStatelessView, hadd] at hr
  have habsent : ∀ c i, some (sub.connId, sub.subId) ≠ some (c, i) →
      t.views.findView c i = none → views'.findView c i = none := by
    intro c i hne hnone
    have hkey : ¬ (c = sub.connId ∧ i = sub.subId) := by
      rintro ⟨rfl, rfl⟩
      exact hne rfl
    rw [hfind, if_neg hkey, findView_handleReconcile_of_ne lib t.views _ negPayload hkey, hnone]
  -- a NEG-ERR is sent for this id only, and then the new view must have been refused
  have hclosed : ∀ c i, (c, i) ∈ NegReply.negErrs (handleReconcile lib t.views sub.connId sub.subId
      (subRange (db.trees treeId) f) negPayload).2 → views'.findView c i = none := by
    intro c i hmem
    cases hrec : lib.reconcile (subRange (db.trees treeId) f) negPayload with
    | ok resp => simp [handleReconcile, hrec, NegReply.negErrs] at hmem
    | error e =>
      simp only [handleReconcile, hrec] at hmem hadd
      obtain ⟨rfl, rfl⟩ : c = sub.connId ∧ i = sub.subId := by simpa [NegReply.negErrs] using hmem
      have hfull : t.views.Full cfg.maxSubsPerConnection sub.connId sub.subId := by
        rcases hok with hfull | ⟨resp, hresp⟩
        · exact hfull
        · rw [hrec] at hresp
          cases hresp
      have hb := (NegentropyViews.addView_refused_iff cfg.maxSubsPerConnection
        (t.views.removeView sub.connId sub.subId) sub.connId sub.subId
        (.stateless ⟨sub, treeId⟩)).2 ((NegentropyViews.full_removeView _ _ _ _).2 hfull)
      rw [hadd] at hb
      rw [hfind, if_pos ⟨rfl, rfl⟩, if_neg (by simp [show b = false from hb])]
  cases b with
  | true =>
    cases hr
    exact ⟨habsent, hclosed, rfl⟩
  | false =>
    cases hr
    refine ⟨habsent, fun c i hmem => ?_, rfl⟩
    apply hclosed c i
    simpa [NegReply.negErrs] using hmem

/-- Otherwise it sends NEG-ERR for its id and has a view under it in the end. -/
theorem openTree_reopens {db : Db} {sub : Subscription} {negPayload : Bytes} {treeId : Nat}
    {f : NostrFilter} (hf : sub.filterGroup.filters[0]? = some f)
    (hfull : ¬ t.views.Full cfg.maxSubsPerConnection sub.connId sub.subId) {e : Err}
    (hrec : lib.reconcile (subRange (db.trees treeId) f) negPayload = .error e)
    {r : NegentropyThread × List NegReply}
    (hr : t.openTree lib cfg db sub negPayload treeId = .ok r) :
    (sub.connId, sub.subId) ∈ NegReply.negErrs r.2 ∧
      r.1.views.findView sub.connId sub.subId = some (.stateless ⟨sub, treeId⟩) := by
  rw [openTree, hf] at hr
  simp only [handleReconcile, hrec] at hr
  obtain ⟨b, views', hadd, hfind⟩ := NegentropyViews.addView_spec cfg.maxSubsPerConnection
    (t.views.removeView sub.connId sub.subId) sub.connId sub.subId (.stateless ⟨sub, treeId⟩)
  have hb := NegentropyViews.addView_refused_iff cfg.maxSubsPerConnection
    (t.views.removeView sub.connId sub.subId) sub.connId sub.subId (.stateless ⟨sub, treeId⟩)
  rw [NegentropyViews.full_removeView, hadd] at hb
  have htrue : b = true := by
    rw [← Bool.not_eq_false]
    exact fun hfalse => hfull (hb.1 hfalse)
  subst htrue
  simp only [NegentropyViews.addStatelessView, hadd, if_true] at hr
  cases hr
  refine ⟨by simp [NegReply.negErrs], ?_⟩
  exact (hfind _ _).trans (by simp)

/-- A NEG-OPEN in memory sends no NEG-ERR before the call of `process`. -/
theorem closing_openMemory (st : Store) (q : QueryPtr) (sub : Subscription) (negPayload : Bytes) :
    Closing (some (sub.connId, sub.subId)) t (t.openMemory cfg st q sub negPayload) := by
  obtain ⟨b, views', hview, hfind⟩ := NegentropyViews.addView_spec cfg.maxSubsPerConnection
    t.views sub.connId sub.subId (.memory { initialMsg := negPayload, serial := t.opened })
  have habsent : ∀ c i, some (sub.connId, sub.subId) ≠ some (c, i) →
      t.views.findView c i = none → views'.findView c i = none := by
    intro c i hne hnone
    rw [hfind, if_neg, hnone]
    rintro ⟨rfl, rfl⟩
    exact hne rfl
  rw [openMemory]
  simp only [NegentropyViews.addMemoryView, hview]
  cases b with
  | true =>
    refine ⟨habsent, fun c i hmem => ?_, rfl⟩
    simp only [if_true] at hmem
    split at hmem <;> simp [NegReply.negErrs] at hmem
  | false =>
    refine ⟨habsent, fun c i hmem => ?_, rfl⟩
    simp only [Bool.false_eq_true, if_false] at hmem
    split at hmem <;> simp [NegReply.negErrs] at hmem

/-- A handler and then one that makes no view. -/
theorem Closing.andThen {opened : Option (Nat × SubId)} {r r' : NegentropyThread × List NegReply}
    (h : Closing opened t r) (h' : Closing none r.1 r') : Closing opened t (r'.1, r.2 ++ r'.2) where
  absent := fun c i hne hnone => h'.absent c i nofun (h.absent c i hne hnone)
  closed := by
    intro c i hmem
    rw [NegReply.negErrs_append, List.mem_append] at hmem
    rcases hmem with hmem | hmem
    · exact h'.absent c i nofun (h.closed c i hmem)
    · exact h'.closed c i hmem
  staleWrite := h'.staleWrite.trans h.staleWrite

/-! ## Turns -/

/-- The first message of a NEG-OPEN, where the turn gets to reconcile it, is one that the library
accepts. For a tree that is in the turn of the NEG-OPEN, and it does not matter when the connection
has too many views; in memory it is in the slice that completes the query. -/
def FirstAccepted (lib : NegentropyLib) (cfg : NegentropyConfig) (S : StdSort) (ord : IndexOrder)
    (t : NegentropyThread) : Turn → Prop
  | .message db q n (.negOpen sub filterStr negPayload) =>
    match selectTree db.negentropyFilter filterStr with
    | some treeId => t.views.Full cfg.maxSubsPerConnection sub.connId sub.subId ∨
        ∀ f, sub.filterGroup.filters[0]? = some f →
          ∃ resp, lib.reconcile (subRange (db.trees treeId) f) negPayload = .ok resp
    | none => ¬ InitialRejected lib cfg S ord db.toStore n
        (t.openMemory cfg db.toStore q sub negPayload).1
  | .message _ _ _ (.negMsg _ _ _) => True
  | .message _ _ _ (.negClose _ _) => True
  | .message _ _ _ (.closeConn _) => True
  | .process st n => ¬ InitialRejected lib cfg S ord st n t

/-- A turn whose first message is accepted closes what it sends NEG-ERR for. -/
theorem closing_turn {u : Turn} {r : NegentropyThread × List NegReply}
    (hr : t.turn lib cfg S ord u = some (.ok r)) (hok : FirstAccepted lib cfg S ord t u) :
    Closing u.opens t r := by
  cases u with
  | process st n => exact (slice_closing hr).2 hok
  | message db q n msg =>
    cases msg with
    | negMsg connId subId negPayload => exact closing_negMsg (Option.some.inj hr)
    | negClose connId subId =>
      cases hr
      exact closing_negClose t connId subId
    | closeConn connId =>
      cases hr
      exact closing_closeConn t connId
    | negOpen sub filterStr negPayload =>
      simp only [turn, negOpen] at hr
      simp only [FirstAccepted] at hok
      split at hr
      · cases hr
      · cases hsel : selectTree db.negentropyFilter filterStr with
        | some treeId =>
          rw [hsel] at hr hok
          have hr := Option.some.inj hr
          have hf : ∃ f, sub.filterGroup.filters[0]? = some f := by
            rw [openTree] at hr
            split at hr
            · cases hr
            · rename_i f hf
              exact ⟨f, hf⟩
          obtain ⟨f, hf⟩ := hf
          exact closing_openTree hf (hok.imp_right fun h => h f hf) hr
        | none =>
          rw [hsel] at hr hok
          obtain ⟨e, he, hr⟩ := Option.map_eq_some_iff.1 hr
          cases e with
          | error e => cases hr
          | ok r' =>
            cases hr
            exact (closing_openMemory db.toStore q sub negPayload).andThen ((slice_closing he).2 hok)

/-- A turn whose first message is rejected leaves a view under an id for which it has sent NEG-ERR,
or writes to a view that it has removed. -/
theorem turn_of_rejected {u : Turn} {r : NegentropyThread × List NegReply}
    (hr : t.turn lib cfg S ord u = some (.ok r)) (hnot : ¬ FirstAccepted lib cfg S ord t u) :
    (∃ c i view, (c, i) ∈ NegReply.negErrs r.2 ∧ r.1.views.findView c i = some view) ∨
      r.1.staleWrite = true := by
  cases u with
  | process st n => exact Or.inr ((slice_closing hr).1 (not_not.1 hnot))
  | message db q n msg =>
    cases msg with
    | negMsg connId subId negPayload => exact absurd trivial hnot
    | negClose connId subId => exact absurd trivial hnot
    | closeConn connId => exact absurd trivial hnot
    | negOpen sub filterStr negPayload =>
      simp only [turn, negOpen] at hr
      simp only [FirstAccepted] at hnot
      split at hr
      · cases hr
      · cases hsel : selectTree db.negentropyFilter filterStr with
        | some treeId =>
          rw [hsel] at hr hnot
          push Not at hnot
          obtain ⟨hfull, f, hf, hrej⟩ := hnot
          cases hrec : lib.reconcile (subRange (db.trees treeId) f) negPayload with
          | ok resp => exact absurd hrec (hrej resp)
          | error e =>
            obtain ⟨hmem, hview⟩ := openTree_reopens hf hfull hrec (Option.some.inj hr)
            exact Or.inl ⟨_, _, _, hmem, hview⟩
        | none =>
          rw [hsel] at hr hnot
          obtain ⟨e, he, hr⟩ := Option.map_eq_some_iff.1 hr
          cases e with
          | error e => cases hr
          | ok r' =>
            cases hr
            exact Or.inr ((slice_closing he).1 (not_not.1 hnot))

/-! ## Runs -/

/-- A turn keeps the record true exactly if its first message is accepted. -/
theorem Records.errCloses_iff {u : Turn} {s s' : Recorded} (ha : Records lib cfg S ord u s s')
    (h : ErrCloses s) : ErrCloses s' ↔ FirstAccepted lib cfg S ord s.thread u := by
  cases ha with
  | mk call =>
    constructor
    · intro h'
      by_contra hnot
      rcases turn_of_rejected call hnot with ⟨c, i, view, hmem, hview⟩ | hstale
      · have hnone := h'.closed c i (List.mem_append_right _ hmem)
        rw [hview] at hnone
        cases hnone
      · have hfalse := h'.noStaleWrite
        rw [hstale] at hfalse
        cases hfalse
    · intro hok
      have hcl := closing_turn call hok
      refine ⟨fun c i hmem => ?_, hcl.staleWrite.trans h.noStaleWrite⟩
      rcases List.mem_append.1 hmem with hmem | hmem
      · rw [List.mem_filter, decide_eq_true_eq] at hmem
        exact hcl.absent c i hmem.2 (h.closed c i hmem.1)
      · exact hcl.closed c i hmem

/-- The states that turns lead to, where every first message is accepted. -/
def AcceptedRun (lib : NegentropyLib) (cfg : NegentropyConfig) (S : StdSort) (ord : IndexOrder)
    (s : Recorded) : Prop :=
  Relation.ReflTransGen
    (fun s s' => ∃ u, Records lib cfg S ord u s s' ∧ FirstAccepted lib cfg S ord s.thread u) {} s

/-- In a run in which every first message is accepted, NEG-ERR closes its subscription, and the next
turn keeps it so exactly if its first message is accepted too. -/
theorem negErr_closes_subscription {s : Recorded} (h : AcceptedRun lib cfg S ord s) :
    ErrCloses s ∧ ∀ u s', Records lib cfg S ord u s s' →
      (ErrCloses s' ↔ FirstAccepted lib cfg S ord s.thread u) := by
  have hs : ErrCloses s := by
    induction h with
    | refl => exact ⟨fun _ _ hmem => (List.not_mem_nil hmem).elim, rfl⟩
    | tail _ hs ih =>
      obtain ⟨u, ha, hok⟩ := hs
      exact (ha.errCloses_iff ih).2 hok
  exact ⟨hs, fun u s' ha => ha.errCloses_iff hs⟩

end Handlers

/-! ## A first message that is rejected -/

/-- A library that looks at the version byte of a message. -/
def versionLib : NegentropyLib :=
  { plainLib with
    reconcile := fun _ msg =>
      match msg with
      | 0x61 :: _ => .ok [0x61]
      | [] => .error (.herr "parse ends prematurely")
      | _ :: _ => .error (.herr "invalid negentropy protocol version byte") }

/-- The turn of a NEG-OPEN on a new database. -/
def openTurn (sub : Subscription) (filterStr negPayload : Bytes) : Turn :=
  .message Db.init 0 5 (.negOpen sub filterStr negPayload)

theorem selectTree_init : selectTree Db.init.negentropyFilter emptyFilterText = some 1 := by
  decide +kernel

/-- A NEG-OPEN for all events is accepted; then a NEG-MSG with an empty message gets NEG-ERR, and
the view is gone. -/
theorem negErr_closes_subscription_negMsg :
    ∃ s, AcceptedRun versionLib ⟨20, 10⟩ .insertion byteOrder s ∧
      (1, (openAll 11).subId) ∈ s.errored ∧ ErrCloses s := by
  have hopen : ∃ r, NegentropyThread.turn versionLib ⟨20, 10⟩ .insertion byteOrder {}
      (openTurn (openAll 11) emptyFilterText [0x61]) = some (.ok r) ∧
      ∃ r', r.1.turn versionLib ⟨20, 10⟩ .insertion byteOrder
        (.message Db.init 0 0 (.negMsg 1 (openAll 11).subId [])) = some (.ok r') ∧
        (1, (openAll 11).subId) ∈ NegReply.negErrs r'.2 := by
    simp only [openTurn, turn, negOpen, selectTree_init]
    exact ⟨_, rfl, _, rfl, List.mem_singleton.2 rfl⟩
  obtain ⟨r, hr, r', hr', hmem⟩ := hopen
  have haccept : FirstAccepted versionLib ⟨20, 10⟩ .insertion byteOrder {}
      (openTurn (openAll 11) emptyFilterText [0x61]) := by
    simp only [openTurn, FirstAccepted, selectTree_init]
    exact Or.inr fun f _ => ⟨_, rfl⟩
  have hfirst := Relation.ReflTransGen.single (a := ({} : Recorded))
    (r := fun s s' => ∃ u, Records versionLib ⟨20, 10⟩ .insertion byteOrder u s s' ∧
      FirstAccepted versionLib ⟨20, 10⟩ .insertion byteOrder s.thread u) ⟨_, .mk hr, haccept⟩
  have hrun : AcceptedRun versionLib ⟨20, 10⟩ .insertion byteOrder _ :=
    hfirst.tail ⟨.message Db.init 0 0 (.negMsg 1 (openAll 11).subId []), .mk hr', trivial⟩
  exact ⟨_, hrun, List.mem_append_right _ hmem, (negErr_closes_subscription hrun).1⟩

/-- A NEG-OPEN for all events with an empty message gets NEG-ERR, and its view is there afterwards.
One with a limit is served from memory; it gets NEG-ERR as well, and its view is written to when it
is gone. -/
theorem negErr_leaves_view :
    (∃ s view, Records versionLib ⟨20, 10⟩ .insertion byteOrder
        (openTurn (openAll 11) emptyFilterText []) {} s ∧ (1, (openAll 11).subId) ∈ s.errored ∧
      s.thread.views.findView 1 (openAll 11).subId = some (.stateless view)) ∧
    ∃ s, Records versionLib ⟨20, 10⟩ .insertion byteOrder
        (openTurn (openAll 5) (ascii "\x7b\"limit\":5\x7d") []) {} s ∧
      (1, (openAll 5).subId) ∈ s.errored ∧ s.thread.staleWrite = true := by
  constructor
  · have hopen : ∃ r view, NegentropyThread.turn versionLib ⟨20, 10⟩ .insertion byteOrder {}
        (openTurn (openAll 11) emptyFilterText []) = some (.ok r) ∧
        (1, (openAll 11).subId) ∈ NegReply.negErrs r.2 ∧
        r.1.views.findView 1 (openAll 11).subId = some (.stateless view) := by
      simp only [openTurn, turn, negOpen, selectTree_init]
      exact ⟨_, _, rfl, List.mem_singleton.2 rfl, rfl⟩
    obtain ⟨r, view, hr, hmem, hview⟩ := hopen
    exact ⟨_, view, ⟨hr⟩, List.mem_append_right _ hmem, hview⟩
  · have hselect : selectTree Db.init.negentropyFilter (ascii "\x7b\"limit\":5\x7d") = none := by
      decide +kernel
    have hopen : ∃ r, NegentropyThread.turn versionLib ⟨20, 10⟩ .insertion byteOrder {}
        (openTurn (openAll 5) (ascii "\x7b\"limit\":5\x7d") []) = some (.ok r) ∧
        (1, (openAll 5).subId) ∈ NegReply.negErrs r.2 ∧ r.1.staleWrite = true := by
      simp only [openTurn, turn, negOpen, hselect]
      exact ⟨_, rfl, List.mem_singleton.2 rfl, rfl⟩
    obtain ⟨r, hr, hmem, hstale⟩ := hopen
    exact ⟨_, ⟨hr⟩, List.mem_append_right _ hmem, hstale⟩

end NegentropyThread

end Strfry
