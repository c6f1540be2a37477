import Strfry.NegentropySessions

/-!
# Exceptions of a NEG-OPEN

The loop of `runNegentropy` has no handler, so an exception in it ends the process. The NegOpen
branch throws in two cases: the filter selects a tree but its group is empty, because the filter
has an empty array in one of the bounds that are left out of the text; or the query that runs next
has lost its view to a tree. Nothing else it calls throws.
-/

set_option autoImplicit false

namespace Strfry

open Lib

namespace NegentropyThread

/-! ## Time slices -/

/-- The items of different events with different ids are different. -/
theorem nodup_viewItems {st : Store} (hu : st.UniqueIds) {levIds : List Nat} (h : levIds.Nodup) :
    (viewItems st levIds).Nodup := by
  have hsorted : (levIds.insertionSort (· ≤ ·)).Nodup :=
    (List.perm_insertionSort _ _).nodup_iff.2 h
  apply hsorted.filterMap
  intro a b item ha hb
  obtain ⟨p, hp, rfl⟩ := Option.map_eq_some_iff.1 (Option.mem_def.1 ha)
  obtain ⟨p', hp', heq⟩ := Option.map_eq_some_iff.1 (Option.mem_def.1 hb)
  have hrow := hu (a, p) (b, p') (Table.get?_eq_some_iff.1 hp) (Table.get?_eq_some_iff.1 hp')
    (congrArg Prod.snd heq).symm
  exact congrArg Prod.fst hrow

/-- A slice throws exactly if the query that it runs has the view of a tree. -/
theorem slice_throws_iff {t : NegentropyThread} (ht : InStep True t) {st : Store}
    (hu : st.UniqueIds) (lib : NegentropyLib) (cfg : NegentropyConfig) (S : StdSort)
    (ord : IndexOrder) (n : Nat) :
    (∃ e, t.slice lib cfg S ord st n = some (.error e)) ↔
      ∃ queries sl view, t.queries.process S ord false st n = some (queries, some sl) ∧
        t.views.findView sl.sub.connId sl.sub.subId = some (.stateless view) := by
  constructor
  · rintro ⟨e, he⟩
    rw [slice] at he
    split at he
    · cases he
    · cases he
    · rename_i queries sl hp
      obtain ⟨-, hq, query, hatt, -, hadv, -⟩ := ht.attached_slice hp
      split at he
      · rename_i e' hbatch
        rw [onEventBatch] at hbatch
        split at hbatch
        · cases hbatch
        · rename_i view hview
          exact ⟨queries, sl, view, hp, hview⟩
        · cases hbatch
      · -- `onComplete` finds a view that can be sealed
        rename_i views hbatch
        obtain ⟨hatt', -⟩ := hatt.batch hadv hbatch
        split at he
        · have he := Option.some.inj he
          rw [onComplete] at he
          split at he
          · cases he
          · rename_i view hview
            change views.findView sl.sub.connId sl.sub.subId = some (.stateless view) at hview
            rw [onEventBatch] at hbatch
            split at hbatch
            · rename_i hnone
              cases hbatch
              rw [hnone] at hview
              cases hview
            · cases hbatch
            · cases hbatch
              rw [NegentropyViews.findView_assignIn, if_pos ⟨rfl, rfl⟩] at hview
              cases hview
          · rename_i view hview
            change views.findView sl.sub.connId sl.sub.subId = some (.memory view) at hview
            rw [hview] at hatt'
            have hseal := lib.sealVector_nodup _ (nodup_viewItems hu hatt'.nodup)
            split at he
            · cases he
            · simp only [hatt'.open_, hseal] at he
              split at he <;> cases he
        · cases he
  · rintro ⟨queries, sl, view, hp, hview⟩
    refine ⟨.herr "bad variant, expected memory view", ?_⟩
    simp only [slice, hp, onEventBatch, hview]

/-! ## The NegOpen branch -/

/-- The new query is refused, and the query at the front has lost its view to a tree. -/
def SpoiledFront (cfg : NegentropyConfig) (S : StdSort) (ord : IndexOrder) (st : Store) (n : Nat)
    (t : NegentropyThread) (sub : Subscription) : Prop :=
  t.queries.Full cfg.maxSubsPerConnection sub.connId sub.subId ∧
    ∃ q rest h view, t.queries.running = q :: rest ∧ t.queries.queries.lookup q = some h ∧
      h.dead = false ∧ ¬ (h.query.sub.connId = sub.connId ∧ h.query.sub.subId = sub.subId) ∧
      t.views.findView h.query.sub.connId h.query.sub.subId = some (.stateless view) ∧
      (h.query.process S ord st n).isSome

section OpenMemory

variable {t : NegentropyThread} {q : QueryPtr} {st : Store}

/-- The state before the slice of a NEG-OPEN in memory. -/
theorem openMemory_spec (cfg : NegentropyConfig) (st : Store) (ht : InStep True t) (hq : t.queries.queries.lookup q = none)
    (sub : Subscription) (negPayload : Bytes) :
    (∀ c i view, (t.openMemory cfg st q sub negPayload).1.views.findView c i =
        some (.stateless view) ↔ ¬ (c = sub.connId ∧ i = sub.subId) ∧
          t.views.findView c i = some (.stateless view)) ∧
      (t.queries.Full cfg.maxSubsPerConnection sub.connId sub.subId →
        (t.openMemory cfg st q sub negPayload).1.queries.running = t.queries.running ∧
        ∀ j h, h.dead = false → ¬ (h.query.sub.connId = sub.connId ∧
            h.query.sub.subId = sub.subId) →
          ((t.openMemory cfg st q sub negPayload).1.queries.queries.lookup j = some h ↔
            t.queries.queries.lookup j = some h)) ∧
      (¬ t.queries.Full cfg.maxSubsPerConnection sub.connId sub.subId →
        ∃ rest h, (t.openMemory cfg st q sub negPayload).1.queries.running = q :: rest ∧
          (t.openMemory cfg st q sub negPayload).1.queries.queries.lookup q = some h ∧
          h.query.sub.connId = sub.connId ∧ h.query.sub.subId = sub.subId) := by
  -- a query under another key that is not dead stays as it is
  have hkept : ∀ (s s' : QueryScheduler), QueryScheduler.Restricts
      (fun c i => !(c == sub.connId && i == sub.subId)) s s' → ∀ j h, h.dead = false →
      ¬ (h.query.sub.connId = sub.connId ∧ h.query.sub.subId = sub.subId) →
      (s'.queries.lookup j = some h ↔ s.queries.lookup j = some h) := by
    intro s s' hr j h hlive hkey
    rw [hr.lookup, Option.map_eq_some_iff]
    constructor
    · rintro ⟨h₀, hlook, rfl⟩
      rw [QueryScheduler.dead_deaden_iff] at hlive
      rw [hlook, QueryScheduler.deaden, if_pos hlive.2]
    · intro hlook
      refine ⟨h, hlook, ?_⟩
      rw [QueryScheduler.deaden, if_pos (by simpa [imp_iff_not_or] using hkey)]
  obtain ⟨b, s', hadd, hinv, -, htrue, hfalse⟩ := QueryScheduler.addSub_spec ht.queries
    cfg.maxSubsPerConnection st hq t.opened sub
  have hfull := QueryScheduler.addSub_refused_iff cfg.maxSubsPerConnection st t.queries q t.opened sub
  rw [hadd] at hfull
  have hr := QueryScheduler.removeSub_restricts ht.queries sub.connId sub.subId
  have hr' := QueryScheduler.removeSub_restricts hinv sub.connId sub.subId
  obtain ⟨b', views', hview, hfind⟩ := NegentropyViews.addView_spec cfg.maxSubsPerConnection
    t.views sub.connId sub.subId (.memory { initialMsg := negPayload, serial := t.opened })
  have hviews : ∀ c i view, views'.findView c i = some (.stateless view) ↔
      ¬ (c = sub.connId ∧ i = sub.subId) ∧ t.views.findView c i = some (.stateless view) := by
    intro c i view
    rw [hfind]
    by_cases hkey : c = sub.connId ∧ i = sub.subId
    · rw [if_pos hkey]
      cases b' <;> simp [hkey]
    · rw [if_neg hkey]
      simp [hkey]
  -- the scheduler that is left is one of two, as the view is refused or not
  have hqueries : ∀ s'' : QueryScheduler, (s'' = s' ∨ s'' = s'.removeSub sub.connId sub.subId) →
      (b = false → s''.running = t.queries.running ∧ ∀ j h, h.dead = false →
        ¬ (h.query.sub.connId = sub.connId ∧ h.query.sub.subId = sub.subId) →
        (s''.queries.lookup j = some h ↔ t.queries.queries.lookup j = some h)) ∧
      (b = true → ∃ rest h, s''.running = q :: rest ∧ s''.queries.lookup q = some h ∧
        h.query.sub.connId = sub.connId ∧ h.query.sub.subId = sub.subId) := by
    intro s'' hs''
    constructor
    · intro hb
      obtain ⟨hq', hrun'⟩ := hfalse hb
      have hold : ∀ j h, h.dead = false →
          ¬ (h.query.sub.connId = sub.connId ∧ h.query.sub.subId = sub.subId) →
          (s'.queries.lookup j = some h ↔ t.queries.queries.lookup j = some h) := by
        intro j h hlive hkey
        rw [hq']
        exact hkept _ _ hr j h hlive hkey
      rcases hs'' with rfl | rfl
      · exact ⟨hrun', hold⟩
      · refine ⟨hr'.running.trans hrun', fun j h hlive hkey => ?_⟩
        exact (hkept _ _ hr' j h hlive hkey).trans (hold j h hlive hkey)
    · intro hb
      have hs' := htrue hb
      have hlook : s'.queries.lookup q = some (QueryScheduler.newQuery st t.opened sub) := by
        rw [hs', QueryScheduler.enqueue, Map.lookup_insert, if_pos rfl]
      have hrun : ∃ rest, s'.running = q :: rest := by
        rw [hs', QueryScheduler.enqueue]
        exact ⟨_, rfl⟩
      obtain ⟨rest, hrun⟩ := hrun
      rcases hs'' with rfl | rfl
      · exact ⟨rest, _, hrun, hlook, rfl, rfl⟩
      · refine ⟨rest, _, hr'.running.trans hrun, by rw [hr'.lookup, hlook]; rfl, ?_, ?_⟩
        · rw [QueryScheduler.deaden_query]
          rfl
        · rw [QueryScheduler.deaden_query]
          rfl
  have hb : b = false ↔ t.queries.Full cfg.maxSubsPerConnection sub.connId sub.subId := hfull
  rw [openMemory]
  simp only [NegentropyViews.addMemoryView, hadd, hview]
  cases b' with
  | true =>
    obtain ⟨h₁, h₂⟩ := hqueries s' (Or.inl rfl)
    exact ⟨hviews, fun hf => h₁ (hb.2 hf), fun hf => h₂ (by
      rw [← Bool.not_eq_false]
      exact fun hfalse => hf (hb.1 hfalse))⟩
  | false =>
    obtain ⟨h₁, h₂⟩ := hqueries _ (Or.inr rfl)
    exact ⟨hviews, fun hf => h₁ (hb.2 hf), fun hf => h₂ (by
      rw [← Bool.not_eq_false]
      exact fun hfalse => hf (hb.1 hfalse))⟩

/-- The slice of a NEG-OPEN in memory throws exactly if the front is spoiled. -/
theorem slice_openMemory_throws_iff (cfg : NegentropyConfig) (ht : InStep True t) (hu : st.UniqueIds)
    (hq : t.queries.queries.lookup q = none) (lib : NegentropyLib) (S : StdSort) (ord : IndexOrder)
    (n : Nat) (sub : Subscription) (negPayload : Bytes) :
    (∃ e, (t.openMemory cfg st q sub negPayload).1.slice lib cfg S ord st n = some (.error e)) ↔
      SpoiledFront cfg S ord st n t sub := by
  have ht' := ht.openMemory cfg st hq sub negPayload
  obtain ⟨hviews, hrefused, hadded⟩ := openMemory_spec cfg st ht hq sub negPayload
  rw [slice_throws_iff ht' hu lib cfg S ord n]
  constructor
  · rintro ⟨queries, sl, view, hp, hview⟩
    obtain ⟨-, ⟨hnone, -⟩ | ⟨sl', h, query, calls, heq, hran⟩⟩ :=
      QueryScheduler.process_spec ht'.queries hp
    · cases hnone
    cases heq
    obtain ⟨hkey, hview⟩ := (hviews _ _ _).1 hview
    rw [hran.sub] at hkey hview
    obtain ⟨q', rest, hrun, hlook⟩ := hran.front
    by_cases hfull : t.queries.Full cfg.maxSubsPerConnection sub.connId sub.subId
    · obtain ⟨hrun', hlook'⟩ := hrefused hfull
      obtain ⟨-, -, hlive, -⟩ := (QueryScheduler.live_eq_some_iff ht'.queries).1 hran.live
      refine ⟨hfull, q', rest, h, view, hrun' ▸ hrun, (hlook' q' h hlive hkey).1 hlook, hlive, hkey,
        hview, ?_⟩
      rw [hran.process]
      rfl
    · -- the new query is at the front, with its own view
      obtain ⟨rest', h', hrun', hlook', hc, hi⟩ := hadded hfull
      rw [hrun'] at hrun
      cases hrun
      rw [hlook'] at hlook
      cases hlook
      exact absurd ⟨hc, hi⟩ hkey
  · rintro ⟨hfull, q', rest, h, view, hrun, hlook, hlive, hkey, hview, hproc⟩
    obtain ⟨hrun', hlook'⟩ := hrefused hfull
    obtain ⟨⟨query, calls, complete⟩, hproc⟩ := Option.isSome_iff_exists.1 hproc
    obtain ⟨s', hp⟩ := QueryScheduler.process_front (hrun'.trans hrun)
      ((hlook' q' h hlive hkey).2 hlook) hlive hproc
    exact ⟨s', _, view, hp, (hviews _ _ _).2 ⟨hkey, hview⟩⟩

end OpenMemory

/-- A NEG-OPEN from a tree throws exactly if the group has no filter. -/
theorem openTree_throws_iff (lib : NegentropyLib) (cfg : NegentropyConfig) (db : Db)
    (t : NegentropyThread) (sub : Subscription) (negPayload : Bytes) (treeId : Nat) :
    (∃ e, t.openTree lib cfg db sub negPayload treeId = .error e) ↔ sub.filterGroup.filters = [] := by
  rw [openTree]
  cases hf : sub.filterGroup.filters with
  | nil => simp
  | cons f fs =>
    simp only [List.getElem?_cons_zero, reduceCtorEq, iff_false, not_exists]
    intro e
    split <;> rintro ⟨⟩

/-- The parts of a NEG-OPEN that the ingester has passed on. -/
theorem ingesterProcessNegentropy_negOpen {hex : HexCodec} {text : JsonText} {maxSyncEvents connId : Nat}
    {cmd : Bytes} {arr : List Json} {sub : Subscription} {filterStr negPayload : Bytes}
    (h : ingesterProcessNegentropy hex text maxSyncEvents connId cmd arr =
      .ok (.negOpen sub filterStr negPayload)) :
    ∃ filterJson, arr[2]? = some filterJson ∧
      NostrFilterGroup.unwrapped hex filterJson ((maxSyncEvents + 1) % 2 ^ 64) =
        .ok sub.filterGroup ∧ filterStr = treeFilterStr text filterJson := by
  obtain ⟨_, -, h⟩ := bind_eq_ok.1 h
  obtain ⟨_, -, h⟩ := bind_eq_ok.1 h
  split at h
  · rw [ingesterNegOpen] at h
    split at h
    · cases h
    · obtain ⟨filterJson, hjson, h⟩ := bind_eq_ok.1 h
      obtain ⟨filter, hfilter, h⟩ := bind_eq_ok.1 h
      obtain ⟨_, -, h⟩ := bind_eq_ok.1 h
      obtain ⟨_, -, h⟩ := bind_eq_ok.1 h
      obtain ⟨_, -, h⟩ := bind_eq_ok.1 h
      obtain ⟨_, -, h⟩ := bind_eq_ok.1 h
      cases h
      refine ⟨filterJson, ?_, hfilter, rfl⟩
      rw [jsonAt] at hjson
      split at hjson
      · cases hjson
      · rename_i v hv
        cases hjson
        exact hv
  -- the other commands make other messages
  · split at h
    · obtain ⟨_, -, h⟩ := bind_eq_ok.1 h
      obtain ⟨_, -, h⟩ := bind_eq_ok.1 h
      obtain ⟨_, -, h⟩ := bind_eq_ok.1 h
      obtain ⟨_, -, h⟩ := bind_eq_ok.1 h
      cases h
    · split at h
      · obtain ⟨_, -, h⟩ := bind_eq_ok.1 h
        cases h
      · cases h

/-- The NegOpen branch throws nothing for a message that the ingester has passed on exactly if
no tree is selected for filters that all have an empty array, and, when none is selected, the query
that runs next has not lost its view to a tree. -/
theorem negOpen_throws_nothing_iff {lib : NegentropyLib} {cfg : NegentropyConfig}
    {t : NegentropyThread} (h : Reachable lib cfg True t) {db : Db} (hu : db.UniqueIds)
    {q : QueryPtr} (hq : t.queries.queries.lookup q = none) {hex : HexCodec} {text : JsonText}
    {connId : Nat} {cmd : Bytes} {arr : List Json} {sub : Subscription}
    {filterStr negPayload : Bytes}
    (hmsg : ingesterProcessNegentropy hex text cfg.maxSyncEvents connId cmd arr =
      .ok (.negOpen sub filterStr negPayload)) (S : StdSort) (ord : IndexOrder) (n : Nat) :
    (∀ e, t.negOpen lib cfg S ord db q n sub filterStr negPayload ≠ some (.error e)) ↔
      ∃ filterJson, arr[2]? = some filterJson ∧
        match selectTree db.negentropyFilter (treeFilterStr text filterJson) with
        | some _ => ∃ v ∈ NostrFilterGroup.unwrappedElems filterJson, ¬ v.HasEmptyArray
        | none => ¬ SpoiledFront cfg S ord db.toStore n t sub := by
  obtain ⟨filterJson, hjson, hgroup, rfl⟩ := ingesterProcessNegentropy_negOpen hmsg
  have hempty := NostrFilterGroup.unwrapped_eq_nil_iff hgroup
  simp only [hjson, Option.some.injEq, exists_eq_left', negOpen]
  cases selectTree db.negentropyFilter (treeFilterStr text filterJson) with
  | some treeId =>
    have hthrows := openTree_throws_iff lib cfg db t sub negPayload treeId
    rw [hempty] at hthrows
    simp only [ne_eq, Option.some.injEq]
    rw [← not_exists, hthrows]
    push Not
    rfl
  | none =>
    have hthrows := slice_openMemory_throws_iff cfg h.inStep hu hq lib S ord n sub negPayload
    simp only
    rw [← hthrows]
    push Not
    apply forall_congr'
    intro e
    rw [ne_eq, ne_eq, not_iff_not, Option.map_eq_some_iff]
    constructor
    · rintro ⟨r, hr, he⟩
      cases r with
      | error e' =>
        cases he
        exact hr
      | ok r => cases he
    · intro hr
      exact ⟨_, hr, rfl⟩

theorem uniqueIds_init : Db.init.UniqueIds := by
  intro r r' hr
  cases hr

/-- The first NEG-OPEN for all events. -/
theorem negOpen_throws_nothing_emptyObject :
    ∃ sub filterStr negPayload, ingesterProcessNegentropy hexCodec emptyObjectText 10 1
        (ascii "NEG-OPEN") (negOpenArr (.object [])) = .ok (.negOpen sub filterStr negPayload) ∧
      ∀ e, NegentropyThread.negOpen plainLib ⟨20, 10⟩ .insertion byteOrder Db.init 0 0 {} sub
        filterStr negPayload ≠ some (.error e) := by
  have hmsg : ∃ sub filterStr negPayload, ingesterProcessNegentropy hexCodec emptyObjectText 10 1
      (ascii "NEG-OPEN") (negOpenArr (.object [])) = .ok (.negOpen sub filterStr negPayload) :=
    ⟨_, _, _, rfl⟩
  obtain ⟨sub, filterStr, negPayload, hmsg⟩ := hmsg
  refine ⟨sub, filterStr, negPayload, hmsg, ?_⟩
  have hreach : Reachable plainLib ⟨20, 10⟩ True {} := Relation.ReflTransGen.refl
  apply (negOpen_throws_nothing_iff hreach uniqueIds_init rfl hmsg _ _ _).2
  have hselect : selectTree Db.init.negentropyFilter
      (treeFilterStr emptyObjectText (.object [])) = some 1 := by
    decide +kernel
  refine ⟨.object [], rfl, ?_⟩
  rw [hselect]
  exact ⟨.object [], List.mem_singleton.2 rfl, by simp [Json.HasEmptyArray]⟩

/-- With `since` an empty array, the group is empty, but the text without the time bounds is that
of the default tree. -/
theorem negOpen_throws_emptySince :
    ∃ sub filterStr negPayload, ingesterProcessNegentropy hexCodec emptyObjectText 10 1
        (ascii "NEG-OPEN") (negOpenArr (.object [(ascii "since", .array [])])) =
          .ok (.negOpen sub filterStr negPayload) ∧
      (∃ r ∈ Db.init.negentropyFilter.rows, r.2 = emptyFilterText) ∧
      selectTree Db.init.negentropyFilter filterStr = some 1 ∧ sub.filterGroup.filters[0]? = none ∧
      NegentropyThread.negOpen plainLib ⟨20, 10⟩ .insertion byteOrder Db.init 0 0 {} sub filterStr
        negPayload = some (.error .outOfRange) := by
  have hmsg : ∃ sub filterStr negPayload, ingesterProcessNegentropy hexCodec emptyObjectText 10 1
      (ascii "NEG-OPEN") (negOpenArr (.object [(ascii "since", .array [])])) =
        .ok (.negOpen sub filterStr negPayload) ∧ filterStr = emptyFilterText ∧
      sub.filterGroup.filters[0]? = none := ⟨_, _, _, rfl, rfl, rfl⟩
  obtain ⟨sub, _, negPayload, hmsg, rfl, hnone⟩ := hmsg
  have hrow : (1, emptyFilterText) ∈ Db.init.negentropyFilter.rows := by decide +kernel
  have hselect : selectTree Db.init.negentropyFilter emptyFilterText = some 1 := by decide +kernel
  refine ⟨sub, _, negPayload, hmsg, ⟨_, hrow, rfl⟩, hselect, hnone, ?_⟩
  rw [negOpen, hselect]
  simp only [openTree, hnone]

end NegentropyThread

end Strfry
