import Strfry.DBQuery
import Strfry.Lib.Map

/-!
# Scheduled queries

`QueryScheduler` runs the queries of all connections in turn, one time slice each. A removed query
stays in the deque with its flag `dead` set and is freed when its turn comes. The queries are on
the heap; the address of a new one is up to the allocator and an argument of `addSub`.

`QueryScheduler.Inv` says that the deque holds each query on the heap once, and that the
connections hold exactly those that are not dead. Each operation keeps it and has one lemma about
the live queries: `live_removeSub`, `live_closeConn`, `live_addSub`, `process_spec`.
-/

set_option autoImplicit false

namespace Strfry

open Lib

/-- `DBQuery *`. -/
abbrev QueryPtr := Nat

/-- A `DBQuery` on the heap. `serial` is a history variable: the number of the message that the
query was made for. -/
structure HeapQuery where
  query : DBQuery
  dead : Bool := false
  serial : Nat

/-- `QueryScheduler`. -/
structure QueryScheduler where
  conns : Map Nat (Map SubId QueryPtr) := ∅
  queries : Map QueryPtr HeapQuery := ∅
  running : List QueryPtr := []

/-- What the callbacks of one call of `process` are given: the subscription, the levIds in the
order of the callbacks, and whether the query is complete. -/
structure Slice where
  sub : Subscription
  serial : Nat
  levIds : List Nat
  complete : Bool

namespace QueryScheduler

/-- `findQuery`. -/
def findQuery (s : QueryScheduler) (connId : Nat) (subId : SubId) : Option QueryPtr :=
  s.conns.find₂ connId subId

/-- `query->dead = true`. -/
def kill (queries : Map QueryPtr HeapQuery) (q : QueryPtr) : Map QueryPtr HeapQuery :=
  match queries.lookup q with
  | none => queries
  | some h => queries.insert q { h with dead := true }

/-- `removeSub`. -/
def removeSub (s : QueryScheduler) (connId : Nat) (subId : SubId) : QueryScheduler :=
  match s.findQuery connId subId with
  | none => s
  | some q =>
    { s with
      queries := kill s.queries q
      conns := s.conns.eraseIn connId subId }

/-- `closeConn`. -/
def closeConn (s : QueryScheduler) (connId : Nat) : QueryScheduler :=
  match s.conns.lookup connId with
  | none => s
  | some connQueries =>
    { s with
      queries := (connQueries.entries.map Sigma.snd).foldl kill s.queries
      conns := s.conns.erase connId }

/-- The query that a new one with the same id replaces is removed. -/
def removeExisting (s : QueryScheduler) (connId : Nat) (subId : SubId) : QueryScheduler :=
  if (s.findQuery connId subId).isSome then s.removeSub connId subId else s

/-- `addSub`, with the address `q` of the new query. -/
def addSub (maxSubsPerConnection : Nat) (st : Store) (s : QueryScheduler) (q : QueryPtr)
    (serial : Nat) (sub : Subscription) : Bool × QueryScheduler :=
  let sub := { sub with latestEventId := st.getMostRecentLevId }
  let s := s.removeExisting sub.connId sub.subId
  let conns := s.conns.tryEmplace sub.connId ∅
  if Map.size ((conns.lookup sub.connId).getD ∅) ≥ maxSubsPerConnection then
    (false, { s with conns := conns })
  else
    (true,
      { conns := conns.emplaceIn sub.connId sub.subId q
        queries := s.queries.insert q { query := { sub := sub }, serial := serial }
        running := q :: s.running })

/-- The levIds that are passed on: with `ensureExists` those that still have a payload. -/
def passedOn (ensureExists : Bool) (st : Store) (levIds : List Nat) : List Nat :=
  if ensureExists then levIds.filter fun levId => (st.eventPayload.get? levId).isSome else levIds

/-- `process`, in which the query pauses after `n` iterations at the latest. `none` is undefined
behaviour. -/
def process (S : StdSort) (ord : IndexOrder) (ensureExists : Bool) (st : Store) (n : Nat)
    (s : QueryScheduler) : Option (QueryScheduler × Option Slice) :=
  match s.running with
  | [] => some (s, none)
  | q :: running =>
    match s.queries.lookup q with
    | none => none
    | some h =>
      if h.dead then some ({ s with running := running, queries := s.queries.erase q }, none)
      else
        match h.query.process S ord st n with
        | none => none
        | some (query, calls, complete) =>
          let slice : Slice := ⟨h.query.sub, h.serial, passedOn ensureExists st calls, complete⟩
          if complete then
            let s := { s with running := running }.removeSub h.query.sub.connId h.query.sub.subId
            some ({ s with queries := s.queries.erase q }, some slice)
          else
            some ({ s with
              queries := s.queries.insert q { h with query := query }
              running := running ++ [q] }, some slice)

end QueryScheduler

/-! ## What a time slice does to a query -/

/-- The handler is called at most once in an iteration. -/
theorem DBScan.iter_state {σ : Type} {S : StdSort} {ord : IndexOrder} {st : Store}
    {handleEvent : σ → Nat → Bool × σ} {s : DBScan} {state t : σ}
    (h : s.iter S ord st handleEvent state = .done t ∨
      ∃ s', s.iter S ord st handleEvent state = .next s' t) :
    t = state ∨ ∃ levId, t = (handleEvent state levId).2 := by
  unfold iter at h
  split at h
  · split at h
    · rcases h with h | ⟨s', h⟩
      · cases h
      · cases h
        exact Or.inl rfl
    · rcases h with h | ⟨s', h⟩ <;> cases h
  · split at h
    · rcases h with h | ⟨s', h⟩
      · cases h
        exact Or.inl rfl
      · cases h
    · rename_i ev rest _
      -- the candidate is handled or dropped; what follows leaves the state alone
      have hr : ∀ r : Bool × σ,
          (if s.doSend st ev then handleEvent state ev.levId else (false, state)) = r →
          r.2 = state ∨ ∃ levId, r.2 = (handleEvent state levId).2 := by
        rintro r rfl
        split
        · exact Or.inr ⟨_, rfl⟩
        · exact Or.inl rfl
      simp only at h
      generalize hres : (if s.doSend st ev then handleEvent state ev.levId else (false, state)) = r
        at h
      have hstate := hr r hres
      split at h
      · rcases h with h | ⟨s', h⟩
        · cases h
          exact hstate
        · cases h
      · split at h
        · rcases h with h | ⟨s', h⟩
          · cases h
          · cases h
            exact hstate
        · rcases h with h | ⟨s', h⟩ <;> cases h

namespace DBQuery

/-- Callbacks made by a query: each for an event it had not sent before and that is not newer than
the subscription. -/
structure Advances (q q' : DBQuery) (calls : List Nat) : Prop where
  sub : q'.sub = q.sub
  nodup : calls.Nodup
  new : ∀ levId ∈ calls, levId ∉ q.sentEventsFull
  full : q'.sentEventsFull = q.sentEventsFull ∪ calls.toFinset
  le_latest : ∀ levId ∈ calls, (levId : WithTop Nat) ≤ q.sub.latestEventId

theorem Advances.refl (q : DBQuery) : Advances q q [] :=
  ⟨rfl, List.nodup_nil, by simp, by simp, by simp⟩

theorem Advances.trans {q₁ q₂ q₃ : DBQuery} {calls₁ calls₂ : List Nat}
    (h₁ : Advances q₁ q₂ calls₁) (h₂ : Advances q₂ q₃ calls₂) :
    Advances q₁ q₃ (calls₁ ++ calls₂) where
  sub := h₂.sub.trans h₁.sub
  nodup := by
    rw [List.nodup_append]
    refine ⟨h₁.nodup, h₂.nodup, ?_⟩
    intro a ha b hb hab
    apply h₂.new b hb
    rw [h₁.full, ← hab]
    exact Finset.mem_union_right _ (List.mem_toFinset.2 ha)
  new := by
    intro levId hmem
    rcases List.mem_append.1 hmem with hmem | hmem
    · exact h₁.new levId hmem
    · intro hin
      apply h₂.new levId hmem
      rw [h₁.full]
      exact Finset.mem_union_left _ hin
  full := by rw [h₂.full, h₁.full, List.toFinset_append, Finset.union_assoc]
  le_latest := by
    intro levId hmem
    rcases List.mem_append.1 hmem with hmem | hmem
    · exact h₁.le_latest levId hmem
    · rw [← h₁.sub]
      exact h₂.le_latest levId hmem

/-- What one call of the event handler adds. -/
theorem handleEvent_calls (limit : Nat) (latest : WithTop Nat) (full curr : Finset Nat)
    (levId : Nat) :
    ∃ calls : List Nat, (handleEvent limit latest ⟨full, curr, []⟩ levId).2.calls = calls ∧
      (handleEvent limit latest ⟨full, curr, []⟩ levId).2.full = full ∪ calls.toFinset ∧
      calls.Nodup ∧ (∀ l ∈ calls, l ∉ full ∧ (l : WithTop Nat) ≤ latest) := by
  unfold handleEvent
  split
  · exact ⟨[], rfl, by simp, List.nodup_nil, by simp⟩
  split
  · exact ⟨[], rfl, by simp, List.nodup_nil, by simp⟩
  · rename_i hlatest
    by_cases hin : levId ∈ full
    · refine ⟨[], ?_, ?_, List.nodup_nil, by simp⟩
      · simp only [hin, if_true]
      · simp only [hin, if_true, List.toFinset_nil, Finset.union_empty]
    · refine ⟨[levId], ?_, ?_, List.nodup_singleton _, ?_⟩
      · simp only [hin, if_false, List.nil_append]
      · simp only [hin, if_false]
        ext
        simp
      · intro l hl
        rw [List.mem_singleton] at hl
        subst hl
        exact ⟨hin, not_lt.1 hlatest⟩

theorem step_advances {S : StdSort} {ord : IndexOrder} {st : Store} {q q' : DBQuery}
    {f : NostrFilter} {calls : List Nat} (h : q.step S ord st f = some (q', calls)) :
    Advances q q' calls := by
  unfold step at h
  -- the iteration leaves the record of sent events alone or makes one call of the handler
  have key : ∀ t : Sent, (t = ⟨q.sentEventsFull, q.sentEventsCurr, []⟩ ∨ ∃ levId,
      t = (handleEvent f.limit q.sub.latestEventId ⟨q.sentEventsFull, q.sentEventsCurr, []⟩
        levId).2) → t.calls.Nodup ∧ t.full = q.sentEventsFull ∪ t.calls.toFinset ∧
      ∀ l ∈ t.calls, l ∉ q.sentEventsFull ∧ (l : WithTop Nat) ≤ q.sub.latestEventId := by
    rintro t (rfl | ⟨levId, rfl⟩)
    · simp
    · obtain ⟨calls, hcalls, hfull, hnd, hall⟩ := handleEvent_calls f.limit q.sub.latestEventId
        q.sentEventsFull q.sentEventsCurr levId
      rw [hcalls]
      exact ⟨hnd, hfull, hall⟩
  simp only at h
  split at h
  · rename_i t hiter
    cases h
    obtain ⟨hnd, hfull, hall⟩ := key t (DBScan.iter_state (Or.inl hiter))
    exact ⟨rfl, hnd, fun l hl => (hall l hl).1, hfull, fun l hl => (hall l hl).2⟩
  · rename_i s' t hiter
    cases h
    obtain ⟨hnd, hfull, hall⟩ := key t (DBScan.iter_state (Or.inr ⟨s', hiter⟩))
    exact ⟨rfl, hnd, fun l hl => (hall l hl).1, hfull, fun l hl => (hall l hl).2⟩
  · cases h

/-- A time slice on any snapshot. -/
theorem process_advances {S : StdSort} {ord : IndexOrder} {st : Store} (n : Nat) {q q' : DBQuery}
    {calls : List Nat} {complete : Bool} (h : q.process S ord st n = some (q', calls, complete)) :
    Advances q q' calls := by
  induction n generalizing q calls with
  | zero =>
    rw [process] at h
    split at h
    · cases h
      exact .refl _
    · cases h
      exact ⟨rfl, List.nodup_nil, by simp, by simp, by simp⟩
  | succ n ih =>
    rw [process] at h
    split at h
    · cases h
      exact .refl _
    · split at h
      · cases h
      · rename_i f _ q₁ calls₁ hstep
        obtain ⟨⟨q₂, calls₂, b⟩, hproc, heq⟩ := Option.map_eq_some_iff.1 h
        cases heq
        exact (step_advances hstep).trans (ih hproc)

/-- While cursors are left to initialise, no callback is made, and the query is not complete. -/
theorem process_init {S : StdSort} {ord : IndexOrder} {st : Store} {n : Nat} {q q' : DBQuery}
    {f : NostrFilter} {calls : List Nat} {complete : Bool}
    (hf : q.sub.filterGroup.filters[q.filterGroupIndex]? = some f)
    (hinit : (q.scanner.getD (DBScan.make f)).nextInitIndex + n ≤
      (q.scanner.getD (DBScan.make f)).cursors.length)
    (h : q.process S ord st n = some (q', calls, complete)) : calls = [] ∧ complete = false := by
  induction n generalizing q calls with
  | zero =>
    simp only [process, hf] at h
    cases h
    exact ⟨rfl, rfl⟩
  | succ n ih =>
    have hlt : (q.scanner.getD (DBScan.make f)).nextInitIndex <
        (q.scanner.getD (DBScan.make f)).cursors.length := by omega
    simp only [process, hf, step, DBScan.iter, if_pos hlt] at h
    cases hstep : (q.scanner.getD (DBScan.make f)).initStep S ord st with
    | none =>
      rw [hstep] at h
      cases h
    | some s =>
      rw [hstep] at h
      obtain ⟨⟨q₂, calls₂, b⟩, hproc, heq⟩ := Option.map_eq_some_iff.1 h
      cases heq
      obtain ⟨⟨found, s₁⟩, hcollect, rfl⟩ := Option.map_eq_some_iff.1 hstep
      -- the next cursor is the next to initialise, and there are as many
      have hlength : s₁.cursors.length = (q.scanner.getD (DBScan.make f)).cursors.length := by
        rw [DBScan.collectAt] at hcollect
        split at hcollect
        · cases hcollect
        · obtain ⟨_, -, heq⟩ := Option.map_eq_some_iff.1 hcollect
          cases heq
          exact List.length_set
      obtain ⟨hcalls, hcomplete⟩ : calls₂ = [] ∧ b = false := by
        refine ih ?_ ?_ hproc
        · exact hf
        · show ((q.scanner.getD (DBScan.make f)).nextInitIndex + 1) + n ≤ s₁.cursors.length
          omega
      exact ⟨by rw [hcalls]; rfl, hcomplete⟩

end DBQuery

/-! ## The invariant -/

namespace QueryScheduler

/-- The deque holds every query on the heap once, and the connections those that are not dead. -/
structure Inv (s : QueryScheduler) : Prop where
  owner : ∀ connId subId q, s.findQuery connId subId = some q ↔ ∃ h, s.queries.lookup q = some h ∧
    h.dead = false ∧ h.query.sub.connId = connId ∧ h.query.sub.subId = subId
  nodup : s.running.Nodup
  mem_running : ∀ q, q ∈ s.running ↔ ∃ h, s.queries.lookup q = some h

/-- The query of a connection under an id that is not dead. -/
def live (s : QueryScheduler) (connId : Nat) (subId : SubId) : Option HeapQuery :=
  (s.findQuery connId subId).bind fun q => s.queries.lookup q

theorem inv_empty : Inv {} where
  owner := by simp [findQuery, Map.find₂]
  nodup := List.nodup_nil
  mem_running := by simp

theorem live_eq_some_iff {s : QueryScheduler} (hinv : s.Inv) {connId : Nat} {subId : SubId}
    {h : HeapQuery} : s.live connId subId = some h ↔ ∃ q, s.queries.lookup q = some h ∧
      h.dead = false ∧ h.query.sub.connId = connId ∧ h.query.sub.subId = subId := by
  rw [live, Option.bind_eq_some_iff]
  apply exists_congr
  intro q
  constructor
  · rintro ⟨hfind, hlook⟩
    obtain ⟨h', hlook', hrest⟩ := (hinv.owner _ _ _).1 hfind
    rw [hlook] at hlook'
    cases hlook'
    exact ⟨hlook, hrest⟩
  · rintro ⟨hlook, hrest⟩
    exact ⟨(hinv.owner _ _ _).2 ⟨h, hlook, hrest⟩, hlook⟩

/-- The connections hold no address but those of queries. -/
theorem live_isSome_iff {s : QueryScheduler} (hinv : s.Inv) (connId : Nat) (subId : SubId) :
    (s.live connId subId).isSome ↔ (s.findQuery connId subId).isSome := by
  rw [live]
  cases hfind : s.findQuery connId subId with
  | none => rfl
  | some q =>
    obtain ⟨h, hlook, -⟩ := (hinv.owner _ _ _).1 hfind
    rw [Option.bind_some, hlook]
    rfl

/-- A live query is on the heap once. -/
theorem Inv.query_unique {s : QueryScheduler} (hinv : s.Inv) {q q' : QueryPtr} {h h' : HeapQuery}
    (hq : s.queries.lookup q = some h) (hq' : s.queries.lookup q' = some h')
    (hlive : h.dead = false) (hlive' : h'.dead = false)
    (hconn : h.query.sub.connId = h'.query.sub.connId)
    (hid : h.query.sub.subId = h'.query.sub.subId) : q = q' := by
  have h₁ := (hinv.owner _ _ _).2 ⟨h, hq, hlive, rfl, rfl⟩
  have h₂ := (hinv.owner _ _ _).2 ⟨h', hq', hlive', rfl, rfl⟩
  rw [hconn, hid, h₂] at h₁
  exact (Option.some.inj h₁).symm

/-! ## Removal -/

/-- A query with its flag set unless it is one of those to keep. -/
def deaden (keep : Nat → SubId → Bool) (h : HeapQuery) : HeapQuery :=
  if keep h.query.sub.connId h.query.sub.subId then h else { h with dead := true }

@[simp] theorem deaden_query (keep : Nat → SubId → Bool) (h : HeapQuery) :
    (deaden keep h).query = h.query := by
  unfold deaden
  split <;> rfl

theorem deaden_of_dead (keep : Nat → SubId → Bool) {h : HeapQuery} (hdead : h.dead = true) :
    deaden keep h = h := by
  unfold deaden
  split
  · rfl
  · cases h
    simp_all

theorem dead_deaden_iff {keep : Nat → SubId → Bool} {h : HeapQuery} : (deaden keep h).dead = false ↔
    h.dead = false ∧ keep h.query.sub.connId h.query.sub.subId = true := by
  unfold deaden
  split <;> simp_all

/-- `s'` is `s` with the queries marked dead that `keep` excludes. -/
structure Restricts (keep : Nat → SubId → Bool) (s s' : QueryScheduler) : Prop where
  find : ∀ connId subId, s'.findQuery connId subId =
    if keep connId subId then s.findQuery connId subId else none
  lookup : ∀ q, s'.queries.lookup q = (s.queries.lookup q).map (deaden keep)
  running : s'.running = s.running

theorem Restricts.inv {keep : Nat → SubId → Bool} {s s' : QueryScheduler} (hinv : s.Inv)
    (hr : Restricts keep s s') : s'.Inv where
  owner := by
    intro connId subId q
    rw [hr.find, hr.lookup]
    constructor
    · intro hfind
      split at hfind
      · rename_i hkeep
        obtain ⟨h, hlook, hlive, rfl, rfl⟩ := (hinv.owner _ _ _).1 hfind
        refine ⟨deaden keep h, by rw [hlook]; rfl, dead_deaden_iff.2 ⟨hlive, hkeep⟩, ?_, ?_⟩
        · rw [deaden_query]
        · rw [deaden_query]
      · cases hfind
    · rintro ⟨h', hmap, hlive, rfl, rfl⟩
      obtain ⟨h, hlook, rfl⟩ := Option.map_eq_some_iff.1 hmap
      obtain ⟨hlive, hkeep⟩ := dead_deaden_iff.1 hlive
      rw [deaden_query, if_pos hkeep]
      exact (hinv.owner _ _ _).2 ⟨h, hlook, hlive, rfl, rfl⟩
  nodup := hr.running ▸ hinv.nodup
  mem_running := by
    intro q
    rw [hr.running, hinv.mem_running, hr.lookup]
    cases s.queries.lookup q <;> simp

theorem Restricts.live {keep : Nat → SubId → Bool} {s s' : QueryScheduler} (hinv : s.Inv)
    (hr : Restricts keep s s') (connId : Nat) (subId : SubId) :
    s'.live connId subId = if keep connId subId then s.live connId subId else none := by
  ext h
  rw [live_eq_some_iff (hr.inv hinv)]
  split
  · rename_i hkeep
    rw [live_eq_some_iff hinv]
    apply exists_congr
    intro q
    rw [hr.lookup]
    constructor
    · rintro ⟨hmap, hlive, rfl, rfl⟩
      obtain ⟨h₀, hlook, rfl⟩ := Option.map_eq_some_iff.1 hmap
      obtain ⟨-, hk⟩ := dead_deaden_iff.1 hlive
      have hsame : deaden keep h₀ = h₀ := if_pos hk
      rw [hsame] at hlive ⊢
      exact ⟨hlook, hlive, rfl, rfl⟩
    · rintro ⟨hlook, hlive, rfl, rfl⟩
      have hsame : deaden keep h = h := if_pos hkeep
      exact ⟨by rw [hlook, Option.map_some, hsame], hlive, rfl, rfl⟩
  · rename_i hkeep
    simp only [reduceCtorEq, iff_false]
    rintro ⟨q, hmap, hlive, rfl, rfl⟩
    rw [hr.lookup] at hmap
    obtain ⟨h₀, -, rfl⟩ := Option.map_eq_some_iff.1 hmap
    rw [deaden_query] at hkeep
    exact hkeep (dead_deaden_iff.1 hlive).2

theorem Restricts.refl {keep : Nat → SubId → Bool} {s : QueryScheduler} (hinv : s.Inv)
    (hall : ∀ connId subId q, s.findQuery connId subId = some q → keep connId subId = true) :
    Restricts keep s s where
  find := by
    intro connId subId
    split
    · rfl
    · rename_i hkeep
      cases hfind : s.findQuery connId subId with
      | none => rfl
      | some q => exact absurd (hall _ _ q hfind) hkeep
  lookup := by
    intro q
    cases hlook : s.queries.lookup q with
    | none => rfl
    | some h =>
      rw [Option.map_some]
      congr 1
      cases hdead : h.dead with
      | true => exact (deaden_of_dead keep hdead).symm
      | false =>
        have hfind := (hinv.owner _ _ q).2 ⟨h, hlook, hdead, rfl, rfl⟩
        exact (if_pos (hall _ _ q hfind)).symm
  running := rfl

theorem lookup_kill (queries : Map QueryPtr HeapQuery) (q j : QueryPtr) :
    (kill queries q).lookup j =
      if j = q then (queries.lookup q).map (fun h => { h with dead := true })
      else queries.lookup j := by
  unfold kill
  cases hlook : queries.lookup q with
  | none =>
    simp only [Option.map_none]
    by_cases hj : j = q
    · rw [if_pos hj, hj, hlook]
    · rw [if_neg hj]
  | some h => simp only [Map.lookup_insert, Option.map_some]

theorem lookup_foldl_kill (qs : List QueryPtr) (queries : Map QueryPtr HeapQuery) (j : QueryPtr) :
    (qs.foldl kill queries).lookup j =
      if j ∈ qs then (queries.lookup j).map (fun h => { h with dead := true })
      else queries.lookup j := by
  induction qs generalizing queries with
  | nil => simp
  | cons q qs ih =>
    rw [List.foldl_cons, ih, lookup_kill]
    by_cases hj : j = q
    · subst hj
      by_cases hmem : j ∈ qs <;> cases queries.lookup j <;> simp [hmem]
    · simp [hj]

/-- Marking the queries `qs` is marking those that are not kept. -/
theorem map_deaden_eq {keep : Nat → SubId → Bool} {s : QueryScheduler} (qs : List QueryPtr)
    (hqs : ∀ q h, s.queries.lookup q = some h → h.dead = false →
      (q ∈ qs ↔ keep h.query.sub.connId h.query.sub.subId = false))
    (hdead : ∀ q ∈ qs, ∀ h, s.queries.lookup q = some h → h.dead = false) (q : QueryPtr) :
    (if q ∈ qs then (s.queries.lookup q).map (fun h => { h with dead := true })
      else s.queries.lookup q) = (s.queries.lookup q).map (deaden keep) := by
  cases hlook : s.queries.lookup q with
  | none => simp
  | some h =>
    split
    · rename_i hmem
      have hk := (hqs q h hlook (hdead q hmem h hlook)).1 hmem
      simp [deaden, hk]
    · rename_i hmem
      rw [Option.map_some]
      congr 1
      cases hd : h.dead with
      | true => exact (deaden_of_dead keep hd).symm
      | false =>
        have hk := mt (hqs q h hlook hd).2 hmem
        simp [deaden, hk]

/-- `removeSub` kills one query. -/
theorem removeSub_restricts {s : QueryScheduler} (hinv : s.Inv) (connId : Nat) (subId : SubId) :
    Restricts (fun c i => !(c == connId && i == subId)) s (s.removeSub connId subId) := by
  unfold removeSub
  cases hfind : s.findQuery connId subId with
  | none =>
    apply Restricts.refl hinv
    intro c i q hq
    simp only [Bool.not_eq_true', Bool.and_eq_false_iff, beq_eq_false_iff_ne]
    by_contra hcontra
    push Not at hcontra
    obtain ⟨rfl, rfl⟩ := hcontra
    rw [hfind] at hq
    cases hq
  | some q =>
    obtain ⟨h, hlook, hlive, rfl, rfl⟩ := (hinv.owner _ _ _).1 hfind
    refine ⟨fun c i => ?_, fun j => ?_, rfl⟩
    · simp only [findQuery, Map.find₂_eraseIn]
      by_cases hkey : c = h.query.sub.connId ∧ i = h.query.sub.subId <;> simp [hkey]
    · show (kill s.queries q).lookup j = _
      rw [← map_deaden_eq [q] ?_ ?_ j, lookup_kill]
      · by_cases hj : j = q
        · subst hj
          simp
        · simp [hj]
      · intro q' h' hlook' hlive'
        simp only [List.mem_singleton, Bool.not_eq_false', Bool.and_eq_true, beq_iff_eq]
        constructor
        · rintro rfl
          rw [hlook] at hlook'
          cases hlook'
          exact ⟨rfl, rfl⟩
        · rintro ⟨hconn, hid⟩
          exact hinv.query_unique hlook' hlook hlive' hlive hconn hid
      · intro q' hq' h' hlook'
        rw [List.mem_singleton] at hq'
        subst hq'
        rw [hlook] at hlook'
        cases hlook'
        exact hlive

/-- `closeConn` kills the queries of one connection. -/
theorem closeConn_restricts {s : QueryScheduler} (hinv : s.Inv) (connId : Nat) :
    Restricts (fun c _ => !(c == connId)) s (s.closeConn connId) := by
  unfold closeConn
  cases hconn : s.conns.lookup connId with
  | none =>
    apply Restricts.refl hinv
    intro c i q hq
    simp only [Bool.not_eq_true', beq_eq_false_iff_ne]
    rintro rfl
    rw [findQuery, Map.find₂, hconn] at hq
    cases hq
  | some connQueries =>
    have hfind : ∀ i q, connQueries.lookup i = some q ↔ s.findQuery connId i = some q := by
      intro i q
      rw [findQuery, Map.find₂, hconn, Option.bind_some]
    -- the queries of the connection are those on the heap that are not dead
    have hmem : ∀ q, q ∈ connQueries.entries.map Sigma.snd ↔
        ∃ h, s.queries.lookup q = some h ∧ h.dead = false ∧ h.query.sub.connId = connId := by
      intro q
      rw [List.mem_map]
      constructor
      · rintro ⟨⟨i, q'⟩, hentry, rfl⟩
        obtain ⟨h, hlook, hlive, hc, -⟩ :=
          (hinv.owner _ _ _).1 ((hfind i q').1 (AList.mem_lookup_iff.2 hentry))
        exact ⟨h, hlook, hlive, hc⟩
      · rintro ⟨h, hlook, hlive, hc⟩
        have hq := (hinv.owner connId h.query.sub.subId q).2 ⟨h, hlook, hlive, hc, rfl⟩
        exact ⟨⟨h.query.sub.subId, q⟩, AList.mem_lookup_iff.1 ((hfind _ q).2 hq), rfl⟩
    refine ⟨fun c i => ?_, fun q => ?_, rfl⟩
    · simp only [findQuery, Map.find₂_erase]
      by_cases hc : c = connId <;> simp [hc]
    · show ((connQueries.entries.map Sigma.snd).foldl kill s.queries).lookup q = _
      rw [← map_deaden_eq (connQueries.entries.map Sigma.snd) ?_ ?_ q, lookup_foldl_kill]
      · intro q' h' hlook' hlive'
        rw [hmem]
        simp only [Bool.not_eq_false', beq_iff_eq]
        constructor
        · rintro ⟨h, hlook, -, hc⟩
          rw [hlook'] at hlook
          cases hlook
          exact hc
        · intro hc
          exact ⟨h', hlook', hlive', hc⟩
      · intro q' hq' h' hlook'
        obtain ⟨h, hlook, hlive, -⟩ := (hmem q').1 hq'
        rw [hlook'] at hlook
        cases hlook
        exact hlive

theorem live_removeSub {s : QueryScheduler} (hinv : s.Inv) (connId c : Nat) (subId i : SubId) :
    (s.removeSub connId subId).live c i =
      if c = connId ∧ i = subId then none else s.live c i := by
  rw [(removeSub_restricts hinv connId subId).live hinv]
  by_cases hkey : c = connId ∧ i = subId <;> simp [hkey]

theorem live_closeConn {s : QueryScheduler} (hinv : s.Inv) (connId c : Nat) (i : SubId) :
    (s.closeConn connId).live c i = if c = connId then none else s.live c i := by
  rw [(closeConn_restricts hinv connId).live hinv]
  by_cases hc : c = connId <;> simp [hc]

theorem Inv.removeSub {s : QueryScheduler} (hinv : s.Inv) (connId : Nat) (subId : SubId) :
    (s.removeSub connId subId).Inv :=
  (removeSub_restricts hinv connId subId).inv hinv

theorem Inv.closeConn {s : QueryScheduler} (hinv : s.Inv) (connId : Nat) :
    (s.closeConn connId).Inv :=
  (closeConn_restricts hinv connId).inv hinv

theorem removeExisting_eq (s : QueryScheduler) (connId : Nat) (subId : SubId) :
    s.removeExisting connId subId = s.removeSub connId subId := by
  unfold removeExisting
  split
  · rfl
  · rename_i hnone
    rw [QueryScheduler.removeSub, Option.not_isSome_iff_eq_none.1 hnone]

/-! ## Addition -/

/-- The query that `addSub` makes. -/
def newQuery (st : Store) (serial : Nat) (sub : Subscription) : HeapQuery where
  query := { sub := { sub with latestEventId := st.getMostRecentLevId } }
  serial := serial

/-- The state after the query `h` has been put at the front of the deque. -/
def enqueue (s : QueryScheduler) (q : QueryPtr) (h : HeapQuery) : QueryScheduler where
  conns := Map.emplaceIn (s.conns.tryEmplace h.query.sub.connId ∅) h.query.sub.connId
    h.query.sub.subId q
  queries := s.queries.insert q h
  running := q :: s.running

section Enqueue

variable {s : QueryScheduler} {q : QueryPtr} {h : HeapQuery}

theorem findQuery_enqueue (hfree : s.findQuery h.query.sub.connId h.query.sub.subId = none)
    (c : Nat) (i : SubId) : (s.enqueue q h).findQuery c i =
      if c = h.query.sub.connId ∧ i = h.query.sub.subId then some q else s.findQuery c i := by
  rw [findQuery] at hfree
  rw [findQuery, enqueue, Map.find₂_emplaceIn, Map.find₂_tryEmplace, Map.find₂_tryEmplace, hfree]
  rfl

theorem Inv.ne_of_lookup (hinv : s.Inv) (hq : s.queries.lookup q = none) {q' : QueryPtr} {c : Nat}
    {i : SubId} (hfind : s.findQuery c i = some q') : q' ≠ q := by
  rintro rfl
  obtain ⟨h, hlook, -⟩ := (hinv.owner _ _ _).1 hfind
  rw [hq] at hlook
  cases hlook

theorem Inv.enqueue (hinv : s.Inv) (hq : s.queries.lookup q = none) (hlive : h.dead = false)
    (hfree : s.findQuery h.query.sub.connId h.query.sub.subId = none) : (s.enqueue q h).Inv where
  owner := by
    intro c i q'
    rw [findQuery_enqueue hfree]
    simp only [QueryScheduler.enqueue, Map.lookup_insert]
    by_cases hkey : c = h.query.sub.connId ∧ i = h.query.sub.subId
    · obtain ⟨rfl, rfl⟩ := hkey
      simp only [and_self, if_true, Option.some.injEq]
      constructor
      · rintro rfl
        exact ⟨h, if_pos rfl, hlive, rfl, rfl⟩
      · rintro ⟨h', hlook, hlive', hkey⟩
        split at hlook
        · rename_i heq
          exact heq.symm
        · have := (hinv.owner _ _ q').2 ⟨h', hlook, hlive', hkey⟩
          rw [hfree] at this
          cases this
    · rw [if_neg hkey]
      constructor
      · intro hfind
        obtain ⟨h', hlook, hrest⟩ := (hinv.owner _ _ _).1 hfind
        refine ⟨h', ?_, hrest⟩
        rw [if_neg (hinv.ne_of_lookup hq hfind)]
        exact hlook
      · rintro ⟨h', hlook, hlive', hc, hi⟩
        split at hlook
        · cases hlook
          exact absurd ⟨hc.symm, hi.symm⟩ hkey
        · exact (hinv.owner _ _ _).2 ⟨h', hlook, hlive', hc, hi⟩
  nodup := by
    apply List.nodup_cons.2
    refine ⟨fun hmem => ?_, hinv.nodup⟩
    obtain ⟨h', hlook⟩ := (hinv.mem_running q).1 hmem
    rw [hq] at hlook
    cases hlook
  mem_running := by
    intro q'
    simp only [QueryScheduler.enqueue, List.mem_cons, hinv.mem_running, Map.lookup_insert]
    by_cases hq' : q' = q <;> simp [hq']

theorem live_enqueue (hinv : s.Inv) (hq : s.queries.lookup q = none)
    (hfree : s.findQuery h.query.sub.connId h.query.sub.subId = none) (c : Nat) (i : SubId) :
    (s.enqueue q h).live c i =
      if c = h.query.sub.connId ∧ i = h.query.sub.subId then some h else s.live c i := by
  rw [live, findQuery_enqueue hfree]
  split
  · rw [Option.bind_some, enqueue, Map.lookup_insert, if_pos rfl]
  · rw [live]
    cases hfind : s.findQuery c i with
    | none => rfl
    | some q' =>
      have hne := hinv.ne_of_lookup hq hfind
      simp only [Option.bind_some, enqueue, Map.lookup_insert, if_neg hne]

end Enqueue

/-- `addSub`: an earlier query with the same id is gone in any case, and the new one, when it is
accepted, is at the front of the deque. -/
theorem addSub_spec {s : QueryScheduler} (hinv : s.Inv) (maxSubs : Nat) (st : Store)
    {q : QueryPtr} (hq : s.queries.lookup q = none) (serial : Nat) (sub : Subscription) :
    ∃ b s', s.addSub maxSubs st q serial sub = (b, s') ∧ s'.Inv ∧
      (∀ c i, s'.live c i = if c = sub.connId ∧ i = sub.subId then
        (if b then some (newQuery st serial sub) else none) else s.live c i) ∧
      (b = true → s' = (s.removeSub sub.connId sub.subId).enqueue q (newQuery st serial sub)) ∧
      (b = false → s'.queries = (s.removeSub sub.connId sub.subId).queries ∧
        s'.running = s.running) := by
  have hinv₁ := hinv.removeSub sub.connId sub.subId
  have hr := removeSub_restricts hinv sub.connId sub.subId
  have hlive₁ := live_removeSub hinv sub.connId
  have hq₁ : (s.removeSub sub.connId sub.subId).queries.lookup q = none := by
    rw [hr.lookup, hq]
    rfl
  have hfree : (s.removeSub sub.connId sub.subId).findQuery sub.connId sub.subId = none := by
    rw [hr.find]
    simp
  rw [addSub]
  simp only [removeExisting_eq]
  split
  · refine ⟨false, _, rfl, ⟨fun c i q' => ?_, hinv₁.nodup, hinv₁.mem_running⟩, fun c i => ?_,
      nofun, fun _ => ⟨rfl, hr.running⟩⟩
    · rw [findQuery, Map.find₂_tryEmplace]
      exact hinv₁.owner c i q'
    · rw [live, findQuery, Map.find₂_tryEmplace]
      exact (hlive₁ c sub.subId i).trans (by simp)
  · refine ⟨true, (s.removeSub sub.connId sub.subId).enqueue q (newQuery st serial sub), rfl,
      hinv₁.enqueue hq₁ rfl hfree, fun c i => ?_, fun _ => rfl, nofun⟩
    rw [live_enqueue hinv₁ hq₁ hfree, hlive₁]
    by_cases hkey : c = sub.connId ∧ i = sub.subId <;> simp [hkey, newQuery]

/-! ## A time slice -/

section Process

variable {s s' : QueryScheduler} {q : QueryPtr} {rest : List QueryPtr} {h : HeapQuery}

/-- The query `q` has left the heap, and its connection. -/
structure Retires (q : QueryPtr) (s s' : QueryScheduler) : Prop where
  lookup : ∀ j, s'.queries.lookup j = if j = q then none else s.queries.lookup j
  find : ∀ c i, s'.findQuery c i = if s.findQuery c i = some q then none else s.findQuery c i

theorem Retires.inv (hr : Retires q s s') (hinv : s.Inv) (hrun : s.running = q :: rest)
    (hrest : s'.running = rest) : s'.Inv where
  owner := by
    intro c i j
    rw [hr.find, hr.lookup]
    constructor
    · intro hj
      split at hj
      · cases hj
      · rename_i hne
        have hjq : j ≠ q := fun heq => hne (heq ▸ hj)
        rw [if_neg hjq]
        exact (hinv.owner _ _ _).1 hj
    · rintro ⟨h', hj, hrest'⟩
      split at hj
      · cases hj
      · rename_i hjq
        have hfj := (hinv.owner c i j).2 ⟨h', hj, hrest'⟩
        rw [hfj, if_neg fun heq => hjq (Option.some.inj heq)]
  nodup := by
    have := hinv.nodup
    rw [hrun, List.nodup_cons] at this
    rw [hrest]
    exact this.2
  mem_running := by
    intro j
    have hnd := hinv.nodup
    rw [hrun, List.nodup_cons] at hnd
    have hmem := hinv.mem_running j
    rw [hrun, List.mem_cons] at hmem
    rw [hrest, hr.lookup]
    by_cases hj : j = q
    · subst hj
      simp [hnd.1]
    · rw [if_neg hj, ← hmem]
      simp [hj]

theorem Retires.live (hr : Retires q s s') (c : Nat) (i : SubId) :
    s'.live c i = if s.findQuery c i = some q then none else s.live c i := by
  rw [QueryScheduler.live, hr.find]
  split
  · rfl
  · rename_i hne
    rw [QueryScheduler.live]
    cases hj : s.findQuery c i with
    | none => rfl
    | some j =>
      have hjq : j ≠ q := fun heq => hne (heq ▸ hj)
      rw [Option.bind_some, Option.bind_some, hr.lookup, if_neg hjq]

/-- The query at the front goes to the back, after a time slice. -/
theorem Inv.rotate (hinv : s.Inv) (hrun : s.running = q :: rest) (hq : s.queries.lookup q = some h)
    {query : DBQuery} (hsub : query.sub = h.query.sub) :
    Inv { s with
      queries := s.queries.insert q { h with query := query }
      running := rest ++ [q] } where
  owner := by
    intro c i j
    show s.findQuery c i = some j ↔ _
    rw [hinv.owner]
    simp only [Map.lookup_insert]
    by_cases hj : j = q
    · subst hj
      simp [hq, hsub]
    · simp [hj]
  nodup := by
    have hnd := hinv.nodup
    rw [hrun] at hnd
    exact (List.perm_append_singleton q rest).nodup_iff.2 hnd
  mem_running := by
    intro j
    have hmem := hinv.mem_running j
    rw [hrun, List.mem_cons] at hmem
    simp only [List.mem_append, List.mem_singleton, Map.lookup_insert]
    by_cases hj : j = q
    · simp [hj]
    · simp only [hj, false_or] at hmem
      simp [hj, hmem]

/-- A call of `process` that runs a query: which one, and what becomes of it. -/
structure Ran (S : StdSort) (ord : IndexOrder) (ensureExists : Bool) (st : Store) (n : Nat)
    (s s' : QueryScheduler) (slice : Slice) (h : HeapQuery) (query : DBQuery) (calls : List Nat) :
    Prop where
  live : s.live slice.sub.connId slice.sub.subId = some h
  front : ∃ q rest, s.running = q :: rest ∧ s.queries.lookup q = some h
  sub : slice.sub = h.query.sub
  serial : slice.serial = h.serial
  process : h.query.process S ord st n = some (query, calls, slice.complete)
  levIds : slice.levIds = passedOn ensureExists st calls
  live' : ∀ c i, s'.live c i = if c = slice.sub.connId ∧ i = slice.sub.subId then
    (if slice.complete then none else some { h with query := query }) else s.live c i

/-- `process` runs a live query, or it only frees a dead one. -/
theorem process_spec {S : StdSort} {ord : IndexOrder} {ensureExists : Bool} {st : Store} {n : Nat}
    {o : Option Slice} (hinv : s.Inv) (hp : s.process S ord ensureExists st n = some (s', o)) :
    s'.Inv ∧ ((o = none ∧ ∀ c i, s'.live c i = s.live c i) ∨
      ∃ slice h query calls, o = some slice ∧
        Ran S ord ensureExists st n s s' slice h query calls) := by
  rw [process] at hp
  split at hp
  · cases hp
    exact ⟨hinv, Or.inl ⟨rfl, fun _ _ => rfl⟩⟩
  rename_i q rest hrun
  split at hp
  · cases hp
  rename_i h hq
  have hother : ∀ c i, s.findQuery c i = some q → h.dead = false ∧
      c = h.query.sub.connId ∧ i = h.query.sub.subId := by
    intro c i hfind
    obtain ⟨h', hlook, hlive, hc, hi⟩ := (hinv.owner _ _ _).1 hfind
    rw [hq] at hlook
    cases hlook
    exact ⟨hlive, hc.symm, hi.symm⟩
  split at hp
  · rename_i hdead
    cases hp
    -- a dead query belongs to no connection
    have hnone : ∀ c i, s.findQuery c i ≠ some q := by
      intro c i hfind
      have := (hother c i hfind).1
      rw [hdead] at this
      cases this
    have hret : Retires q s { s with running := rest, queries := s.queries.erase q } :=
      ⟨Map.lookup_erase _ _, fun c i => (if_neg (hnone c i)).symm⟩
    refine ⟨hret.inv hinv hrun rfl, Or.inl ⟨rfl, fun c i => ?_⟩⟩
    rw [hret.live, if_neg (hnone c i)]
  rename_i hdead
  rw [Bool.not_eq_true] at hdead
  split at hp
  · cases hp
  rename_i query calls complete hproc
  have hfq : s.findQuery h.query.sub.connId h.query.sub.subId = some q :=
    (hinv.owner _ _ _).2 ⟨h, hq, hdead, rfl, rfl⟩
  have hkey : ∀ c i, s.findQuery c i = some q ↔
      c = h.query.sub.connId ∧ i = h.query.sub.subId := by
    intro c i
    constructor
    · intro hfind
      exact (hother c i hfind).2
    · rintro ⟨rfl, rfl⟩
      exact hfq
  have hlive : s.live h.query.sub.connId h.query.sub.subId = some h :=
    (live_eq_some_iff hinv).2 ⟨q, hq, hdead, rfl, rfl⟩
  cases complete with
  | true =>
    simp only [if_true, Option.some.injEq, Prod.mk.injEq] at hp
    obtain ⟨rfl, rfl⟩ := hp
    have hrem : QueryScheduler.removeSub { s with running := rest } h.query.sub.connId
        h.query.sub.subId =
        { conns := s.conns.eraseIn h.query.sub.connId h.query.sub.subId
          queries := kill s.queries q
          running := rest } := by
      rw [findQuery] at hfq
      simp only [QueryScheduler.removeSub, findQuery, hfq]
    have hret : Retires q s
        { conns := s.conns.eraseIn h.query.sub.connId h.query.sub.subId
          queries := (kill s.queries q).erase q
          running := rest } := by
      constructor
      · intro j
        rw [Map.lookup_erase, lookup_kill]
        by_cases hj : j = q <;> simp [hj]
      · intro c i
        simp only [hkey]
        exact Map.find₂_eraseIn _ _ _ _ _
    rw [hrem]
    refine ⟨hret.inv hinv hrun rfl, Or.inr ⟨_, h, query, calls, rfl, hlive,
      ⟨q, rest, hrun, hq⟩, rfl, rfl, hproc, rfl, fun c i => ?_⟩⟩
    rw [hret.live]
    simp only [hkey, if_true]
  | false =>
    simp only [Bool.false_eq_true, if_false, Option.some.injEq, Prod.mk.injEq] at hp
    obtain ⟨rfl, rfl⟩ := hp
    have hsub := (DBQuery.process_advances n hproc).sub
    refine ⟨hinv.rotate hrun hq hsub, Or.inr ⟨_, h, query, calls, rfl, hlive,
      ⟨q, rest, hrun, hq⟩, rfl, rfl, hproc, rfl, fun c i => ?_⟩⟩
    show ((s.findQuery c i).bind fun j =>
      (s.queries.insert q { h with query := query }).lookup j) = _
    by_cases hc : s.findQuery c i = some q
    · rw [hc, if_pos ((hkey c i).1 hc), Option.bind_some, Map.lookup_insert, if_pos rfl]
      rfl
    · rw [if_neg fun hk => hc ((hkey c i).2 hk), live]
      cases hj : s.findQuery c i with
      | none => rfl
      | some j =>
        have hjq : j ≠ q := fun heq => hc (heq ▸ hj)
        rw [Option.bind_some, Option.bind_some, Map.lookup_insert, if_neg hjq]

end Process

/-! ## The limit of a connection -/

/-- The connection has as many queries as it may have, not counting the one with the same id. -/
def Full (maxSubs : Nat) (s : QueryScheduler) (connId : Nat) (subId : SubId) : Prop :=
  maxSubs ≤ Map.size (((s.removeSub connId subId).conns.lookup connId).getD ∅)

theorem addSub_refused_iff (maxSubs : Nat) (st : Store) (s : QueryScheduler) (q : QueryPtr)
    (serial : Nat) (sub : Subscription) :
    (s.addSub maxSubs st q serial sub).1 = false ↔ s.Full maxSubs sub.connId sub.subId := by
  have hsize : ∀ m : Map Nat (Map SubId QueryPtr),
      ((m.tryEmplace sub.connId ∅).lookup sub.connId).getD ∅ = (m.lookup sub.connId).getD ∅ := by
    intro m
    rw [Map.lookup_tryEmplace, if_pos rfl, Option.getD_some]
  rw [addSub, Full]
  simp only [removeExisting_eq, hsize]
  split <;> simp_all

/-- The queries that count are those of the connection with another id. -/
theorem full_iff {s : QueryScheduler} (hinv : s.Inv) (maxSubs connId : Nat) (subId : SubId) :
    s.Full maxSubs connId subId ↔
      maxSubs ≤ {i | i ≠ subId ∧ (s.live connId i).isSome}.ncard := by
  have hset : {i | ((s.removeSub connId subId).conns.find₂ connId i).isSome} =
      {i | i ≠ subId ∧ (s.live connId i).isSome} := by
    ext i
    have hfind := live_isSome_iff (hinv.removeSub connId subId) connId i
    rw [findQuery, live_removeSub hinv] at hfind
    simp only [Set.mem_ofPred_eq, ← hfind, true_and]
    by_cases hi : i = subId <;> simp [hi]
  rw [Full, Map.size_lookup, hset]

/-! ## Connections without an entry -/

section NoEntry

variable {s s' : QueryScheduler} {c : Nat}

theorem removeSub_noEntry (h : s.conns.lookup c = none) (connId : Nat) (subId : SubId) :
    (s.removeSub connId subId).conns.lookup c = none := by
  unfold removeSub
  split
  · exact h
  · exact Map.lookup_eraseIn_eq_none h connId subId

theorem closeConn_noEntry (h : s.conns.lookup c = none) (connId : Nat) :
    (s.closeConn connId).conns.lookup c = none := by
  unfold closeConn
  split
  · exact h
  · rw [Map.lookup_erase, h, ite_self]

/-- Nothing is left of a connection that has been closed. -/
theorem closeConn_self (s : QueryScheduler) (connId : Nat) :
    (s.closeConn connId).conns.lookup connId = none := by
  unfold closeConn
  split
  · rename_i hnone
    exact hnone
  · rw [Map.lookup_erase, if_pos rfl]

theorem addSub_noEntry (h : s.conns.lookup c = none) (maxSubs : Nat) (st : Store) (q : QueryPtr)
    (serial : Nat) {sub : Subscription} (hne : c ≠ sub.connId) :
    (s.addSub maxSubs st q serial sub).2.conns.lookup c = none := by
  have hold : (Map.tryEmplace (s.removeSub sub.connId sub.subId).conns sub.connId ∅).lookup c =
      none := by
    rw [Map.lookup_tryEmplace, if_neg hne]
    exact removeSub_noEntry h _ _
  rw [addSub]
  simp only [removeExisting_eq]
  split
  · exact hold
  · simp only [Map.emplaceIn]
    rw [Map.lookup_insert, if_neg hne]
    exact hold

theorem process_noEntry {S : StdSort} {ord : IndexOrder} {ensureExists : Bool} {st : Store} {n : Nat}
    {o : Option Slice} (h : s.conns.lookup c = none)
    (hp : s.process S ord ensureExists st n = some (s', o)) : s'.conns.lookup c = none := by
  rw [process] at hp
  split at hp
  · cases hp
    exact h
  rename_i q running _
  split at hp
  · cases hp
  split at hp
  · cases hp
    exact h
  split at hp
  · cases hp
  rename_i query calls complete _
  cases complete with
  | true =>
    simp only [if_true, Option.some.injEq, Prod.mk.injEq] at hp
    obtain ⟨rfl, rfl⟩ := hp
    have h' : ({ s with running := running } : QueryScheduler).conns.lookup c = none := h
    exact removeSub_noEntry h' _ _
  | false =>
    simp only [Bool.false_eq_true, if_false, Option.some.injEq, Prod.mk.injEq] at hp
    obtain ⟨rfl, rfl⟩ := hp
    exact h

end NoEntry

/-- A live query at the front is run. -/
theorem process_front {S : StdSort} {ord : IndexOrder} {st : Store} {n : Nat} {s : QueryScheduler}
    {q : QueryPtr} {rest : List QueryPtr} {h : HeapQuery} (hrun : s.running = q :: rest)
    (hlook : s.queries.lookup q = some h) (hlive : h.dead = false) {query : DBQuery}
    {calls : List Nat} {complete : Bool}
    (hproc : h.query.process S ord st n = some (query, calls, complete)) :
    ∃ s', s.process S ord false st n = some (s', some ⟨h.query.sub, h.serial, calls, complete⟩) := by
  rw [process]
  simp only [hrun, hlook, hlive, Bool.false_eq_true, if_false, hproc, passedOn]
  cases complete with
  | true => exact ⟨_, rfl⟩
  | false => exact ⟨_, rfl⟩

end QueryScheduler

end Strfry
