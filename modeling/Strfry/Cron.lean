import Strfry.StoreInvariants

/-!
# Expiry of events

`runCron` deletes expired events in two transactions: a read-only one collects their levIds, a
later one deletes them. In between, other processes may commit. The collection leaves out the
newest event, because the next event would get its levId again if it went away.

`Expiry` is the database with the passes between their two transactions and, as a history, the
levIds that have been given out. Its invariant says that the largest of these is in the table.
-/

set_option autoImplicit false

namespace Strfry

open Lib

namespace Store

/-- The entries of the index `expiration`: an event without an expiration has none. -/
def expirationIndex (st : Store) : List (Entry Bytes) :=
  st.event.rows.filterMap fun r =>
    if r.2.expiration ≠ 0 then some ⟨[], r.2.expiration, (r.1 : Nat)⟩ else none

/-- The callback of `generic_foreachFull` along the entries of the index. -/
def expiredLoop (st : Store) (mostRecent now ephemeralCutoff : Nat) :
    List (Entry Bytes) → Except Err (List Nat)
  | [] => .ok []
  | e :: rest =>
    if e.num > now then .ok []
    -- it is not deleted because that could cause levId re-use
    else if e.row = mostRecent then expiredLoop st mostRecent now ephemeralCutoff rest
    else if e.num = 1 then
      match st.event.get? e.row with
      | none => .error (.herr "missing event from index, corrupt DB?")
      | some p =>
        if p.createdAt ≤ ephemeralCutoff then
          (expiredLoop st mostRecent now ephemeralCutoff rest).map (e.row :: ·)
        else expiredLoop st mostRecent now ephemeralCutoff rest
    else (expiredLoop st mostRecent now ephemeralCutoff rest).map (e.row :: ·)

/-- The read-only transaction of a pass: `expiredLevIds`. The cutoff is a difference of 64-bit
integers. -/
def expiredLevIds (st : Store) (now ephemeralEventsLifetimeSeconds : Nat) :
    Except Err (List Nat) :=
  st.expiredLoop st.getMostRecentLevId now
    ((now + 2 ^ 64 - ephemeralEventsLifetimeSeconds) % 2 ^ 64)
    (ascFrom st.expirationIndex ⟨[], 0, (0 : Nat)⟩)

end Store

/-! ## What a pass collects -/

theorem Store.row_mem_expirationIndex {st : Store} {e : Entry Bytes}
    (h : e ∈ st.expirationIndex) : ∃ p, (e.row, p) ∈ st.event.rows := by
  obtain ⟨r, hr, heq⟩ := List.mem_filterMap.1 h
  split at heq
  · cases heq
    exact ⟨r.2, hr⟩
  · cases heq

theorem Store.mem_expiredLoop {st : Store} {mostRecent now ephemeralCutoff : Nat}
    {es : List (Entry Bytes)} {levIds : List Nat}
    (h : st.expiredLoop mostRecent now ephemeralCutoff es = .ok levIds) {levId : Nat}
    (hmem : levId ∈ levIds) : levId ≠ mostRecent ∧ ∃ e ∈ es, e.row = levId := by
  induction es generalizing levIds with
  | nil =>
    cases h
    cases hmem
  | cons e rest ih =>
    have hskip : ∀ {levIds}, st.expiredLoop mostRecent now ephemeralCutoff rest = .ok levIds →
        levId ∈ levIds → levId ≠ mostRecent ∧ ∃ e' ∈ e :: rest, e'.row = levId := by
      intro levIds hrest hin
      obtain ⟨hne, e', he', heq⟩ := ih hrest hin
      exact ⟨hne, e', List.mem_cons_of_mem _ he', heq⟩
    have htake : e.row ≠ mostRecent →
        (st.expiredLoop mostRecent now ephemeralCutoff rest).map (e.row :: ·) = .ok levIds →
        levId ≠ mostRecent ∧ ∃ e' ∈ e :: rest, e'.row = levId := by
      intro hne hcons
      obtain ⟨levIds', hrest, rfl⟩ := map_eq_ok.1 hcons
      rcases List.mem_cons.1 hmem with rfl | hin
      · exact ⟨hne, e, List.mem_cons_self, rfl⟩
      · exact hskip hrest hin
    rw [Store.expiredLoop] at h
    split at h
    · cases h
      cases hmem
    split at h
    · exact hskip h hmem
    · rename_i hne
      split at h
      · split at h
        · cases h
        · split at h
          · exact htake hne h
          · exact hskip h hmem
      · exact htake hne h

/-- A pass collects levIds below the newest one of its snapshot. -/
theorem Store.expiredLevIds_lt {st : Store} {now ephemeralEventsLifetimeSeconds : Nat}
    {levIds : List Nat} (h : st.expiredLevIds now ephemeralEventsLifetimeSeconds = .ok levIds)
    {levId : Nat} (hmem : levId ∈ levIds) : levId < st.event.lastKey := by
  obtain ⟨hne, e, he, rfl⟩ := Store.mem_expiredLoop h hmem
  obtain ⟨p, hp⟩ := Store.row_mem_expirationIndex (mem_ascFrom.1 he).1
  exact lt_of_le_of_ne (Table.le_lastKey hp) hne

/-- Removals below the newest event keep the newest levId. -/
theorem Db.lastKey_deleteLoop {filters : List FilterInfo} {db : Db} {levIds : List Nat}
    (h : ∀ levId ∈ levIds, levId < db.event.lastKey) :
    (db.deleteLoop filters levIds).1.event.lastKey = db.event.lastKey := by
  apply le_antisymm
  · by_cases hrows : (db.deleteLoop filters levIds).1.event.rows = []
    · rw [Table.lastKey, hrows]
      exact Nat.zero_le _
    · obtain ⟨p, hp⟩ := Table.lastKey_mem hrows
      exact Table.le_lastKey (Db.mem_deleteLoop.1 hp).1
  · by_cases hrows : db.event.rows = []
    · rw [Table.lastKey, hrows]
      exact Nat.zero_le _
    · obtain ⟨p, hp⟩ := Table.lastKey_mem hrows
      exact Table.le_lastKey (Db.mem_deleteLoop.2 ⟨hp, fun hin => lt_irrefl _ (h _ hin)⟩)

/-! ## The levIds of a batch -/

/-- The levIds that a batch has given out, in the order in which it did. -/
def writtenLevIds (evs' : List EventToWrite) : List Nat :=
  (evs'.filter fun ev => ev.status = .written).map EventToWrite.levId

theorem WriteOutcome.lastKey_eq {filters : List FilterInfo} {prevId : Option Bytes} {db db' : Db}
    {ev ev' : EventToWrite} (h : WriteOutcome filters prevId db ev db' ev')
    (hs : ev'.status = .written) : db'.event.lastKey = ev'.levId := by
  have hmem : (ev'.levId, ev.packed) ∈ db'.event.rows := (h.mem_rows hs).2 (Or.inl rfl)
  obtain ⟨p, hp⟩ := Table.lastKey_mem (List.ne_nil_of_mem hmem)
  apply le_antisymm _ (Table.le_lastKey hmem)
  rcases (h.mem_rows hs).1 hp with heq | ⟨hold, -⟩
  · exact (congrArg Prod.fst heq).le
  · exact (h.levId_gt hs hold).le

/-- A batch gives out levIds in increasing order above the newest one, and the last of them is the
newest one afterwards. -/
theorem WriteRun.levIds {ord : IndexOrder} {filters : List FilterInfo}
    {prevId : Option Bytes} {db db' : Db} {evs evs' : List EventToWrite}
    (h : WriteRun ord filters prevId db evs db' evs') :
    (writtenLevIds evs').Pairwise (· < ·) ∧
      (∀ levId ∈ writtenLevIds evs', db.event.lastKey < levId ∧ levId ≤ db'.event.lastKey) ∧
      (db'.event.lastKey = db.event.lastKey ∨ db'.event.lastKey ∈ writtenLevIds evs') := by
  induction h with
  | nil => exact ⟨.nil, nofun, Or.inl rfl⟩
  | @cons prevId db db₁ db' ev ev' rest rest' hone hout hrun ih =>
    obtain ⟨hpair, hbounds, hlast⟩ := ih
    by_cases hs : ev'.status = .written
    · have hcons : writtenLevIds (ev' :: rest') = ev'.levId :: writtenLevIds rest' := by
        rw [writtenLevIds, List.filter_cons_of_pos (by simpa using hs), List.map_cons]
        rfl
      have hkey := hout.lastKey_eq hs
      have hid := hout.levId_eq hs
      rw [hcons]
      refine ⟨List.pairwise_cons.2 ⟨fun levId hl => hkey ▸ (hbounds levId hl).1, hpair⟩, ?_, ?_⟩
      · intro levId hl
        rcases List.mem_cons.1 hl with rfl | hl
        · refine ⟨by omega, ?_⟩
          rcases hlast with hlast | hlast
          · rw [hlast, hkey]
          · exact (hkey ▸ (hbounds _ hlast).1).le
        · obtain ⟨hlt, hle⟩ := hbounds levId hl
          exact ⟨by omega, hle⟩
      · rcases hlast with hlast | hlast
        · exact Or.inr (by rw [hlast, hkey]; exact List.mem_cons_self)
        · exact Or.inr (List.mem_cons_of_mem _ hlast)
    · have hdb := hout.eq_of_not_written hs
      subst hdb
      have hcons : writtenLevIds (ev' :: rest') = writtenLevIds rest' := by
        rw [writtenLevIds, List.filter_cons_of_neg (by simpa using hs)]
        rfl
      rw [hcons]
      exact ⟨hpair, hbounds, hlast⟩

/-! ## Interleaved writers and passes -/

/-- The database, the passes that have collected their levIds and not deleted them yet, and the
history of the levIds given out in committed transactions. -/
structure Expiry where
  db : Db
  passes : List (List Nat) := []
  assigned : List Nat := []

namespace Expiry

/-- One transaction of a writer or of a pass. -/
inductive Step (ord : IndexOrder) (hex : HexCodec) (text : JsonText) : Expiry → Expiry → Prop
  | write (S : StdSort) (cache : NegentropyFilterCache) {s : Expiry} {db' : Db}
      {evs evs' : List EventToWrite} : Submitted hex evs →
      (writeEvents S ord hex text cache s.db evs).2 = .ok (db', evs') →
      Step ord hex text s { s with db := db', assigned := s.assigned ++ writtenLevIds evs' }
  /-- The first transaction of a pass. -/
  | collect (now ephemeralEventsLifetimeSeconds : Nat) {s : Expiry} {levIds : List Nat} :
      s.db.expiredLevIds now ephemeralEventsLifetimeSeconds = .ok levIds →
      Step ord hex text s { s with passes := s.passes ++ [levIds] }
  /-- The second one, of any pass that is waiting. -/
  | delete {s : Expiry} {pre post : List (List Nat)} {levIds : List Nat} {db' : Db}
      {numDeleted : Nat} : s.passes = pre ++ levIds :: post →
      (s.db.deleteEvents hex text {} levIds).2 = .ok (db', numDeleted) →
      Step ord hex text s { s with db := db', passes := pre ++ post }
  /-- A pass ends without the second one: there is nothing to delete, or it fails. -/
  | leave {s : Expiry} {pre post : List (List Nat)} {levIds : List Nat} :
      s.passes = pre ++ levIds :: post → Step ord hex text s { s with passes := pre ++ post }

/-- The states reachable from a new database. -/
def Reachable (ord : IndexOrder) (hex : HexCodec) (text : JsonText) (s : Expiry) : Prop :=
  Relation.ReflTransGen (Step ord hex text) ⟨Db.init, [], []⟩ s

/-- The invariant: the newest levId is the largest one given out, and no pass is after it. -/
structure Inv (s : Expiry) : Prop where
  store : StoreInv s.db.toStore
  sorted : s.assigned.Pairwise (· < ·)
  bounds : ∀ levId ∈ s.assigned, 0 < levId ∧ levId ≤ s.db.event.lastKey
  newest : s.assigned ≠ [] → s.db.event.lastKey ∈ s.assigned
  passes : ∀ levIds ∈ s.passes, ∀ levId ∈ levIds, levId < s.db.event.lastKey

section Run

variable {ord : IndexOrder} {hex : HexCodec} {text : JsonText} {s s' : Expiry}

theorem Inv.write {S : StdSort} {cache : NegentropyFilterCache} {db' : Db}
    {evs evs' : List EventToWrite} (h : s.Inv) (hsub : Submitted hex evs)
    (hok : (writeEvents S ord hex text cache s.db evs).2 = .ok (db', evs')) :
    Inv { s with db := db', assigned := s.assigned ++ writtenLevIds evs' } := by
  have hrun := writeEvents_run h.store hsub.writable hok
  obtain ⟨hpair, hbounds, hlast⟩ := hrun.levIds
  have hmono : s.db.event.lastKey ≤ db'.event.lastKey := by
    rcases hlast with hlast | hlast
    · exact hlast.ge
    · exact (hbounds _ hlast).1.le
  refine ⟨hrun.storeInv h.store (hsub.writable.perm (S.perm _ _)), ?_, ?_, ?_, ?_⟩
  · refine List.pairwise_append.2 ⟨h.sorted, hpair, fun a ha b hb => ?_⟩
    exact (h.bounds a ha).2.trans_lt (hbounds b hb).1
  · intro levId hl
    rcases List.mem_append.1 hl with hl | hl
    · exact ⟨(h.bounds levId hl).1, (h.bounds levId hl).2.trans hmono⟩
    · exact ⟨(Nat.zero_le _).trans_lt (hbounds levId hl).1, (hbounds levId hl).2⟩
  · intro hne
    rcases hlast with hlast | hlast
    · show db'.event.lastKey ∈ _
      by_cases hempty : s.assigned = []
      · -- what the batch has given out would be above the newest levId
        obtain ⟨levId, hl⟩ := List.exists_mem_of_ne_nil _ hne
        rw [hempty, List.nil_append] at hl
        have := hbounds levId hl
        omega
      · rw [hlast]
        exact List.mem_append_left _ (h.newest hempty)
    · exact List.mem_append_right _ hlast
  · intro levIds hp levId hl
    exact (h.passes levIds hp levId hl).trans_le hmono

theorem Inv.delete {pre post : List (List Nat)} {levIds : List Nat} {db' : Db} {numDeleted : Nat}
    (h : s.Inv) (hpasses : s.passes = pre ++ levIds :: post)
    (hok : (s.db.deleteEvents hex text {} levIds).2 = .ok (db', numDeleted)) :
    Inv { s with db := db', passes := pre ++ post } := by
  have hdb := deleteEvents_eq_ok hok
  have hmem : levIds ∈ s.passes := by
    rw [hpasses]
    exact List.mem_append_right _ List.mem_cons_self
  have hlast : db'.event.lastKey = s.db.event.lastKey := by
    rw [hdb]
    exact Db.lastKey_deleteLoop (h.passes levIds hmem)
  refine ⟨?_, h.sorted, ?_, ?_, ?_⟩
  · rw [hdb]
    exact h.store.deleteLoop _
  · show ∀ levId ∈ s.assigned, _ ∧ levId ≤ db'.event.lastKey
    rw [hlast]
    exact h.bounds
  · show s.assigned ≠ [] → db'.event.lastKey ∈ s.assigned
    rw [hlast]
    exact h.newest
  · intro levIds' hp levId hl
    show levId < db'.event.lastKey
    rw [hlast]
    refine h.passes levIds' ?_ levId hl
    rw [hpasses]
    rcases List.mem_append.1 hp with hp | hp
    · exact List.mem_append_left _ hp
    · exact List.mem_append_right _ (List.mem_cons_of_mem _ hp)

/-- The step lemma. -/
theorem Step.inv (hstep : Step ord hex text s s') (h : s.Inv) : s'.Inv := by
  cases hstep with
  | write S cache hsub hok => exact h.write hsub hok
  | collect now lifetime hok =>
    refine { h with passes := ?_ }
    intro levIds hp levId hl
    rcases List.mem_append.1 hp with hp | hp
    · exact h.passes levIds hp levId hl
    · rw [List.mem_singleton] at hp
      subst hp
      exact Store.expiredLevIds_lt hok hl
  | delete hpasses hok => exact h.delete hpasses hok
  | @leave _ pre post levIds hpasses =>
    refine { h with passes := ?_ }
    intro levIds' hp
    apply h.passes
    rw [hpasses]
    rcases List.mem_append.1 hp with hp | hp
    · exact List.mem_append_left _ hp
    · exact List.mem_append_right _ (List.mem_cons_of_mem _ hp)

/-- The run lemma. -/
theorem Reachable.inv (h : Reachable ord hex text s) : s.Inv := by
  induction h with
  | refl => exact ⟨storeInv_empty, .nil, nofun, nofun, nofun⟩
  | tail _ hstep ih => exact hstep.inv ih

/-- In every committed state the largest levId ever given out is in the table. So the next one is
above all of them, and none is given out twice. -/
theorem levIds_never_reused (h : Reachable ord hex text s) :
    (s.assigned ≠ [] → ∃ levId packed, (levId, packed) ∈ s.db.event.rows ∧
      levId ∈ s.assigned ∧ ∀ levId' ∈ s.assigned, levId' ≤ levId) ∧
    (∀ packed, ∀ levId ∈ s.assigned, levId < (s.db.event.insertNext packed).1) ∧
    s.assigned.Nodup := by
  have hinv := h.inv
  refine ⟨fun hne => ?_, fun packed levId hl => Nat.lt_succ_of_le (hinv.bounds levId hl).2,
    hinv.sorted.imp fun hlt => hlt.ne⟩
  have hnewest := hinv.newest hne
  have hrows : s.db.event.rows ≠ [] := by
    intro hnil
    have hpos := (hinv.bounds _ hnewest).1
    rw [Table.lastKey, hnil] at hpos
    exact lt_irrefl 0 hpos
  obtain ⟨packed, hp⟩ := Table.lastKey_mem hrows
  exact ⟨_, packed, hp, hnewest, fun levId' hl => (hinv.bounds levId' hl).2⟩

end Run

/-- An ephemeral event with the byte `b` as its id, to be written. -/
def ephemeral (b : UInt8) : EventToWrite :=
  ⟨repeatedEvent b 9 10 20000, [], .pending, 0, 0⟩

theorem submitted_ephemeral (bs : List UInt8) : Submitted hexCodec (bs.map ephemeral) := by
  intro ev hev
  obtain ⟨b, -, rfl⟩ := List.mem_map.1 hev
  exact ⟨rfl, fromJson_plainEvent _ _ _ _ _ _⟩

/-- A pass and two batches, one before it and one between its transactions: the levIds given out
and collected, and the database in the end. -/
def ephemeralRun : Except Err (List Nat × List Nat × Db) := do
  let (db₁, evs₁) ← (writeEvents .insertion byteOrder hexCodec emptyObjectText {} Db.init
    ([1, 2].map ephemeral)).2
  let levIds ← db₁.expiredLevIds 1000 300
  let (db₂, evs₂) ← (writeEvents .insertion byteOrder hexCodec emptyObjectText {} db₁
    ([3].map ephemeral)).2
  let (db₃, _) ← (db₂.deleteEvents hexCodec emptyObjectText {} levIds).2
  .ok (writtenLevIds evs₁ ++ writtenLevIds evs₂, levIds, db₃)

/-- Of two expired events a pass collects the first; a third one is written before it is deleted. -/
theorem levIds_never_reused_ephemeral :
    ∃ s, Reachable byteOrder hexCodec emptyObjectText s ∧ s.assigned = [1, 2, 3] ∧
      s.db.event.rows.map Prod.fst = [2, 3] ∧
      (∃ levId packed, (levId, packed) ∈ s.db.event.rows ∧ levId ∈ s.assigned ∧
        ∀ levId' ∈ s.assigned, levId' ≤ levId) ∧
      (∀ packed, ∀ levId ∈ s.assigned, levId < (s.db.event.insertNext packed).1) ∧
      s.assigned.Nodup := by
  have heval : (ephemeralRun.map fun r => (r.1, r.2.1, r.2.2.event.rows.map Prod.fst)) =
      .ok ([1, 2, 3], [1], [2, 3]) := by decide +kernel
  obtain ⟨⟨assigned, levIds, db⟩, hrun, heq⟩ := map_eq_ok.1 heval
  simp only [Prod.mk.injEq] at heq
  obtain ⟨⟨db₁, evs₁⟩, hwrite₁, hrun⟩ := bind_eq_ok.1 hrun
  obtain ⟨levIds', hcollect, hrun⟩ := bind_eq_ok.1 hrun
  obtain ⟨⟨db₂, evs₂⟩, hwrite₂, hrun⟩ := bind_eq_ok.1 hrun
  obtain ⟨⟨db₃, n⟩, hdelete, hrun⟩ := bind_eq_ok.1 hrun
  cases hrun
  have hreach : Reachable byteOrder hexCodec emptyObjectText
      ⟨db, [], writtenLevIds evs₁ ++ writtenLevIds evs₂⟩ := by
    refine .tail (.tail (.tail (.tail .refl
      (.write .insertion {} (submitted_ephemeral [1, 2]) hwrite₁)) (.collect 1000 300 hcollect))
      (.write .insertion {} (submitted_ephemeral [3]) hwrite₂)) ?_
    show Step _ _ _ _ ⟨db, [] ++ [], _⟩
    exact .delete rfl hdelete
  obtain ⟨hlargest, hnext, hnodup⟩ := levIds_never_reused hreach
  refine ⟨_, hreach, heq.1, heq.2.2, hlargest ?_, hnext, hnodup⟩
  show writtenLevIds evs₁ ++ writtenLevIds evs₂ ≠ []
  rw [heq.1]
  exact nofun

end Expiry

end Strfry
