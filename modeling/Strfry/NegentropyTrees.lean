import Strfry.HttpQuery
import Strfry.Lib.Selection
import Strfry.NegentropyFilters
import Strfry.NegentropySync

/-!
# The trees mirror the store

A tree holds the pairs of the stored events that match its filter. Nothing recomputes it: `writeEvents` and
`deleteEvents` insert and erase the pair of every event that they store or remove, in each tree whose filter
matches, with the filters that the cache of their process has; and `cmd_negentropy build` fills a tree that
was added when there were events already.

A tree that has been built, and the default tree, is a sound and complete selection of the stored events, in
every state of every run of any number of processes (`selected_of_run`). So a session that is served from a
tree reconciles what the filter of its NEG-OPEN selects of all stored events, at its first message and at
every later one (`session_serves_matching`). Until it is built a tree is only sound.
-/

set_option autoImplicit false

namespace Strfry

open Lib

/-! ## cmd_negentropy build -/

/-- The constructor of `DBQuery` that takes a filter. -/
def DBQuery.ofJson (hex : HexCodec) (filter : Json) : Except Err DBQuery := do
  let g ← NostrFilterGroup.unwrapped hex filter maxU64
  .ok (.new ⟨1, QueryEnv.queryId, g, ⊤⟩)

/-- The records of the events that the query has found. -/
def Store.records (st : Store) (levIds : List Nat) : Except Err (List (Nat × Bytes)) :=
  levIds.mapM fun levId => (st.lookupEventByLevId levId).map fun packed => (packed.createdAt, packed.id)

/-- What `cmd_negentropy build` does when the query takes the slices to complete: it throws, or has a database
to commit. `none` is a query that has not completed, or has undefined behaviour. -/
def Db.buildTree (S : StdSort) (ord : IndexOrder) (hex : HexCodec) (text : JsonText) (slices : List Nat)
    (db : Db) (treeId : Nat) : Option (Except Err Db) :=
  match db.negentropyFilter.get? treeId with
  | none => some (.error (.herr ("couldn't find treeId: " ++ toString treeId)))
  | some filterStr =>
    match text.fromString filterStr >>= DBQuery.ofJson hex with
    | .error e => some (.error e)
    | .ok q =>
      match runSlices S ord db.toStore slices q with
      | some (_, levIds, true) =>
        some ((db.toStore.records levIds).map fun recs =>
          db.negentropyBuild treeId (db.trees treeId ∪ recs.toFinset))
      | _ => none

/-! ## One row more or less -/

/-- The event of a row matches the filter. -/
def NostrFilter.selects (f : NostrFilter) (r : Nat × PackedEvent) : Bool := f.doesMatch r.2

/-- The rows of the events. -/
def Db.stored (db : Db) : Set (Nat × PackedEvent) := { r | r ∈ db.event.rows }

/-- The tree has only pairs of stored events that match. -/
def Db.SoundTree (db : Db) (f : NostrFilter) (treeId : Nat) : Prop :=
  Selection.Sound f.selects itemOf db.stored (db.trees treeId)

/-- The tree has the pairs of all stored events that match. -/
def Db.CompleteTree (db : Db) (f : NostrFilter) (treeId : Nat) : Prop :=
  Selection.Complete f.selects itemOf db.stored (db.trees treeId)

/-- The trees of the filters are sound, and those with the property complete. -/
structure InStep (built : FilterInfo → Prop) (filters : List FilterInfo) (db : Db) : Prop where
  sound : ∀ info ∈ filters, db.SoundTree info.f info.treeId
  complete : ∀ info ∈ filters, built info → db.CompleteTree info.f info.treeId

section Update

variable {built : FilterInfo → Prop} {filters : List FilterInfo} {db : Db}

theorem updateNegentropy_cons (info : FilterInfo) (filters : List FilterInfo) (ev : PackedEvent)
    (insert : Bool) (trees : Nat → Tree) :
    updateNegentropy (info :: filters) ev insert trees = updateNegentropy filters ev insert
      (if info.f.doesMatch ev then
        Function.update trees info.treeId (updateTree ev insert (trees info.treeId)) else trees) := rfl

/-- Other trees are left alone. -/
theorem updateNegentropy_of_ne {ev : PackedEvent} {insert : Bool} {trees : Nat → Tree} {treeId : Nat}
    (h : treeId ∉ filters.map FilterInfo.treeId) :
    updateNegentropy filters ev insert trees treeId = trees treeId := by
  induction filters generalizing trees with
  | nil => rfl
  | cons info filters ih =>
    rw [List.map_cons, List.mem_cons, not_or] at h
    rw [updateNegentropy_cons, ih h.2]
    split
    · exact Function.update_of_ne h.1 _ _
    · rfl

/-- A tree is updated once, if its filter matches. -/
theorem updateNegentropy_of_mem {ev : PackedEvent} {insert : Bool} {trees : Nat → Tree} {info : FilterInfo}
    (hnodup : (filters.map FilterInfo.treeId).Nodup) (h : info ∈ filters) :
    updateNegentropy filters ev insert trees info.treeId =
      if info.f.doesMatch ev then updateTree ev insert (trees info.treeId) else trees info.treeId := by
  induction filters generalizing trees with
  | nil => cases h
  | cons head filters ih =>
    rw [List.map_cons, List.nodup_cons] at hnodup
    rw [updateNegentropy_cons]
    rcases List.mem_cons.mp h with rfl | h
    · rw [updateNegentropy_of_ne hnodup.1]
      split
      · exact Function.update_self _ _ _
      · rfl
    · -- the tree of the head is another one
      have hne : info.treeId ≠ head.treeId := by
        intro heq
        apply hnodup.1
        rw [← heq]
        exact List.mem_map_of_mem h
      have hkeep : (if head.f.doesMatch ev then
          Function.update trees head.treeId (updateTree ev insert (trees head.treeId)) else trees)
            info.treeId = trees info.treeId := by
        split
        · exact Function.update_of_ne hne _ _
        · rfl
      rw [ih hnodup.2 h, hkeep]

theorem stored_insertEvent (packed : PackedEvent) (json : Bytes) :
    (db.insertEvent filters packed json).2.stored = insert (db.event.lastKey + 1, packed) db.stored := by
  ext r
  exact Db.mem_insertEvent

/-- Storing an event keeps the trees in step. -/
theorem InStep.insertEvent (h : InStep built filters db) (hnodup : (filters.map FilterInfo.treeId).Nodup)
    (packed : PackedEvent) (json : Bytes) : InStep built filters (db.insertEvent filters packed json).2 := by
  have htree : ∀ info ∈ filters, (db.insertEvent filters packed json).2.trees info.treeId =
      Selection.add info.f.selects itemOf (db.event.lastKey + 1, packed) (db.trees info.treeId) :=
    fun info hinfo => updateNegentropy_of_mem hnodup hinfo
  constructor
  · intro info hinfo
    rw [Db.SoundTree, htree info hinfo, stored_insertEvent]
    exact (h.sound info hinfo).add _
  · intro info hinfo hbuilt
    rw [Db.CompleteTree, htree info hinfo, stored_insertEvent]
    exact (h.complete info hinfo hbuilt).add _

/-- Events with the same pair are the same event. -/
theorem injOn_itemOf (hu : db.toStore.UniqueIds) : db.stored.InjOn itemOf := by
  intro a ha b hb hab
  exact hu a b ha hb (congrArg Prod.snd hab)

/-- Removing an event keeps the trees in step. -/
theorem InStep.deleteEvent (h : InStep built filters db) (hnodup : (filters.map FilterInfo.treeId).Nodup)
    (hu : db.toStore.UniqueIds) (levId : Nat) : InStep built filters (db.deleteEvent filters levId) := by
  have hrows : (db.deleteEvent filters levId).stored = { r ∈ db.stored | r.1 ≠ levId } := by
    ext r
    exact Db.mem_deleteEvent
  cases hget : db.event.get? levId with
  | none =>
    rw [Db.deleteEvent, hget]
    exact h
  | some packed =>
    have hmem : (levId, packed) ∈ db.stored := Table.get?_eq_some_iff.mp hget
    -- the row that goes is the only one with its levId
    have hstored : (db.deleteEvent filters levId).stored = db.stored \ {(levId, packed)} := by
      rw [hrows]
      ext r
      rw [Set.mem_ofPred_eq, Set.mem_sdiff, Set.mem_singleton_iff]
      refine and_congr_right fun hr => not_congr ⟨?_, fun heq => congrArg Prod.fst heq⟩
      rintro rfl
      exact Prod.ext rfl (Table.eq_of_mem hr hmem)
    have htree : ∀ info ∈ filters, (db.deleteEvent filters levId).trees info.treeId =
        Selection.remove info.f.selects itemOf (levId, packed) (db.trees info.treeId) := by
      intro info hinfo
      rw [Db.deleteEvent, hget]
      exact updateNegentropy_of_mem hnodup hinfo
    constructor
    · intro info hinfo
      rw [Db.SoundTree, htree info hinfo, hstored]
      exact (h.sound info hinfo).remove _
    · intro info hinfo hbuilt
      rw [Db.CompleteTree, htree info hinfo, hstored]
      exact (h.complete info hinfo hbuilt).remove (injOn_itemOf hu) hmem

theorem InStep.deleteLoop (h : InStep built filters db) (hnodup : (filters.map FilterInfo.treeId).Nodup)
    (hu : db.toStore.UniqueIds) (levIds : List Nat) :
    InStep built filters (db.deleteLoop filters levIds).1 := by
  induction levIds generalizing db with
  | nil => exact h
  | cons levId levIds ih =>
    rw [Db.fst_deleteLoop_cons]
    refine ih (h.deleteEvent hnodup hu levId) ?_
    intro a b ha hb
    exact hu a b (Db.mem_deleteEvent.mp ha).1 (Db.mem_deleteEvent.mp hb).1

theorem InStep.writeOutcome {prevId : Option Bytes} {ev ev' : EventToWrite} {db' : Db}
    (h : InStep built filters db) (hnodup : (filters.map FilterInfo.treeId).Nodup)
    (hu : db.toStore.UniqueIds) (hout : WriteOutcome filters prevId db ev db' ev') :
    InStep built filters db' := by
  cases hout with
  | duplicate | deleted | replaced => exact h
  | written toDelete hfresh hnodel hbeats htargets =>
    apply (h.insertEvent hnodup ev.packed ev.jsonStr).deleteLoop hnodup
    -- the new event has an id of its own
    intro a b ha hb hid
    rcases Db.mem_insertEvent.mp ha with rfl | ha
    · rcases Db.mem_insertEvent.mp hb with rfl | hb
      · rfl
      · exact absurd hid.symm (hfresh b hb)
    · rcases Db.mem_insertEvent.mp hb with rfl | hb
      · exact absurd hid (hfresh a ha)
      · exact hu a b ha hb hid

/-- A batch keeps the trees in step. -/
theorem InStep.writeRun {ord : IndexOrder} {prevId : Option Bytes} {evs evs' : List EventToWrite} {db' : Db}
    (h : InStep built filters db) (hnodup : (filters.map FilterInfo.treeId).Nodup)
    (hinv : StoreInv db.toStore) (hw : Writable evs) (hrun : WriteRun ord filters prevId db evs db' evs') :
    InStep built filters db' := by
  induction hrun with
  | nil => exact h
  | @cons prevId db db₁ db' ev ev' rest rest' hone hout hrun ih =>
    have hev : WellPacked ev.packed := (hw ev List.mem_cons_self).2
    have hrest : Writable rest := fun e he => hw e (List.mem_cons_of_mem _ he)
    exact ih (h.writeOutcome hnodup hinv.uniqueIds hout) (hout.storeInv hinv hev) hrest

/-! Trees that no filter is for are left alone. -/

theorem trees_deleteLoop_of_notMem {treeId : Nat} (h : treeId ∉ filters.map FilterInfo.treeId)
    (levIds : List Nat) : (db.deleteLoop filters levIds).1.trees treeId = db.trees treeId := by
  induction levIds generalizing db with
  | nil => rfl
  | cons levId levIds ih =>
    rw [Db.fst_deleteLoop_cons, ih, Db.deleteEvent]
    split
    · rfl
    · exact updateNegentropy_of_ne h

theorem trees_writeRun_of_notMem {ord : IndexOrder} {prevId : Option Bytes}
    {evs evs' : List EventToWrite} {db' : Db} {treeId : Nat}
    (h : treeId ∉ filters.map FilterInfo.treeId) (hrun : WriteRun ord filters prevId db evs db' evs') :
    db'.trees treeId = db.trees treeId := by
  induction hrun with
  | nil => rfl
  | cons _ hout _ ih =>
    rw [ih]
    cases hout with
    | duplicate | deleted | replaced => rfl
    | written => exact (trees_deleteLoop_of_notMem h _).trans (updateNegentropy_of_ne h)

end Update

/-! ## A build -/

/-- The query of a build answers its filter: it has no more cursors, and the events no later timestamps,
than there are bits for; and there are fewer events than a filter may return. -/
structure BuildFits (hex : HexCodec) (text : JsonText) (db : Db) (treeId : Nat) : Prop where
  created_lt : ∀ r ∈ db.event.rows, r.2.createdAt < 2 ^ 40
  length_lt : db.event.rows.length < maxU64
  cursors : ∀ filterStr q, (treeId, filterStr) ∈ db.negentropyFilter.rows →
    text.fromString filterStr >>= DBQuery.ofJson hex = .ok q →
      ∀ f ∈ q.sub.filterGroup.filters, DBScan.numCursors f ≤ 2 ^ 24

section Build

variable {S : StdSort} {ord : IndexOrder} {hex : HexCodec} {text : JsonText} {db db' : Db} {f : NostrFilter}

/-- The records are those of the events with the levIds. -/
theorem mem_records {st : Store} {levIds : List Nat} {recs : List (Nat × Bytes)}
    (h : st.records levIds = .ok recs) {x : Nat × Bytes} :
    x ∈ recs ↔ ∃ r ∈ st.event.rows, r.1 ∈ levIds ∧ itemOf r = x := by
  induction levIds generalizing recs with
  | nil =>
    cases h
    simp
  | cons levId levIds ih =>
    rw [Store.records, List.mapM_cons] at h
    obtain ⟨y, hy, h⟩ := bind_eq_ok.mp h
    obtain ⟨ys, hys, h⟩ := bind_eq_ok.mp h
    cases h
    obtain ⟨packed, hlookup, rfl⟩ := map_eq_ok.mp hy
    have hrow : (levId, packed) ∈ st.event.rows := by
      rw [Store.lookupEventByLevId] at hlookup
      split at hlookup
      · cases hlookup
      · rename_i p hget
        cases hlookup
        exact Table.get?_eq_some_iff.mp hget
    rw [List.mem_cons, ih hys]
    constructor
    · rintro (rfl | ⟨r, hr, hmem, rfl⟩)
      · exact ⟨_, hrow, List.mem_cons_self, rfl⟩
      · exact ⟨r, hr, List.mem_cons_of_mem _ hmem, rfl⟩
    · rintro ⟨r, hr, hmem, rfl⟩
      rcases List.mem_cons.mp hmem with heq | hmem
      · left
        rw [itemOf, Table.eq_of_mem (heq ▸ hr : (levId, r.2) ∈ st.event.rows) hrow]
      · exact .inr ⟨r, hr, hmem, rfl⟩

/-- What the query of a build finds. -/
theorem mem_calls_of_runSlices {slices : List Nat} {q q' : DBQuery} {v : Json} {levIds : List Nat}
    (hst : SnapshotOk db.toStore) (hq : DBQuery.ofJson hex v = .ok q)
    (hcur : ∀ f ∈ q.sub.filterGroup.filters, DBScan.numCursors f ≤ 2 ^ 24)
    (h : runSlices S ord db.toStore slices q = some (q', levIds, true)) {levId : Nat} :
    levId ∈ levIds ↔ ∃ f ∈ q.sub.filterGroup.filters, levId ∈ answer db.toStore f ⊤ := by
  obtain ⟨g, hg, hq⟩ := bind_eq_ok.mp hq
  cases hq
  obtain ⟨q₁, calls, complete, hrun, hexact⟩ :=
    (answers_of_numCursors_le hcur S ord db.toStore ⟨1, QueryEnv.queryId, g, ⊤⟩ hst rfl).1 slices
  have heq := Option.some.inj (h.symm.trans hrun)
  cases heq
  exact (hexact rfl).mem_iff levId

/-- An answer has only events that match. -/
theorem doesMatch_of_mem_answer {r : Nat × PackedEvent} (hr : r ∈ db.event.rows)
    (h : r.1 ∈ answer db.toStore f ⊤) : f.doesMatch r.2 = true := by
  obtain ⟨r', hr', heq⟩ := mem_answer h
  obtain ⟨hrow, hmatch, -⟩ := mem_matchingRows.mp hr'
  rwa [← Table.eq_of_mem (heq ▸ hrow : (r.1, r'.2) ∈ db.event.rows) hr]

/-- A filter without a limit is answered with every event that matches. -/
theorem mem_answer_of_doesMatch (hlength : db.event.rows.length < maxU64) (hlimit : f.limit = maxU64)
    {r : Nat × PackedEvent} (hr : r ∈ db.event.rows) (hmatch : f.doesMatch r.2 = true) :
    r.1 ∈ answer db.toStore f ⊤ := by
  have hle : (answer db.toStore f ⊤).length ≤ db.event.rows.length := by
    rw [answer, List.length_map, List.length_take, newestMatching, List.length_insertionSort]
    exact (Nat.min_le_right _ _).trans (List.length_filter_le _ _)
  apply mem_answer_of_length_lt
  · rw [hlimit]
    exact hle.trans_lt hlength
  · exact mem_matchingRows.mpr ⟨hr, hmatch, le_top⟩

/-- The filters of the query of a text that compiles alone. -/
theorem filters_of_compileRow {row : Nat × Bytes} {info : FilterInfo} {q : DBQuery}
    (hinfo : compileRow hex text row = .ok info)
    (hq : text.fromString row.2 >>= DBQuery.ofJson hex = .ok q) :
    q.sub.filterGroup.filters = if info.f.neverMatch then [] else [info.f] := by
  obtain ⟨v, hv, hinfo⟩ := bind_eq_ok.mp hinfo
  obtain ⟨f, hf, hinfo⟩ := bind_eq_ok.mp hinfo
  cases hinfo
  obtain ⟨v', hv', hq⟩ := bind_eq_ok.mp hq
  rw [hv] at hv'
  cases hv'
  obtain ⟨g, hg, hq⟩ := bind_eq_ok.mp hq
  cases hq
  cases v with
  | object kvs =>
    cases hnever : f.neverMatch with
    | true =>
      rw [if_pos rfl]
      apply (NostrFilterGroup.unwrapped_eq_nil_iff hg).mpr
      intro w hw
      rcases List.mem_singleton.mp hw with rfl
      exact (NostrFilter.neverMatch_iff hf).mp hnever
    | false =>
      rw [if_neg Bool.false_ne_true]
      obtain ⟨g', hg', hfilters⟩ := NostrFilterGroup.unwrapped_object hf hnever
      rw [hg] at hg'
      cases hg'
      exact hfilters
  | _ => cases hf

/-- The tree after a build: what it had before, and the records. -/
theorem buildTree_eq_ok {slices : List Nat} {treeId : Nat}
    (h : db.buildTree S ord hex text slices treeId = some (.ok db')) :
    ∃ filterStr q q' levIds recs, (treeId, filterStr) ∈ db.negentropyFilter.rows ∧
      text.fromString filterStr >>= DBQuery.ofJson hex = .ok q ∧
      runSlices S ord db.toStore slices q = some (q', levIds, true) ∧
      db.toStore.records levIds = .ok recs ∧
      db' = db.negentropyBuild treeId (db.trees treeId ∪ recs.toFinset) := by
  rw [Db.buildTree] at h
  cases hget : db.negentropyFilter.get? treeId with
  | none =>
    simp only [hget] at h
    cases h
  | some filterStr =>
    simp only [hget] at h
    cases hq : text.fromString filterStr >>= DBQuery.ofJson hex with
    | error e =>
      simp only [hq] at h
      cases h
    | ok q =>
      simp only [hq] at h
      split at h
      · rename_i q' levIds hrun
        obtain ⟨recs, hrecs, rfl⟩ := map_eq_ok.mp (Option.some.inj h)
        exact ⟨filterStr, q, q', levIds, recs, Table.get?_eq_some_iff.mp hget, hq, hrun, hrecs, rfl⟩
      · cases h

end Build

/-! ## Runs -/

/-- The writers, and as a history the trees that have been built. -/
structure TreeRun where
  writers : Writers
  built : List Nat

namespace TreeRun

/-- The default tree is complete from the start. -/
def init : TreeRun := ⟨Writers.init, [1]⟩

/-- A step of the writers, where a build commits what `cmd_negentropy build` has found. All steps but a build
leave the counter as it is, or add a filter. -/
inductive Step (ord : IndexOrder) (hex : HexCodec) (text : JsonText) : TreeRun → TreeRun → Prop
  | other {s : TreeRun} {w : Writers} : Writers.Step ord hex text s.writers w →
      (w.added = s.writers.added → w.db.modificationCounter = s.writers.db.modificationCounter) →
      Step ord hex text s { s with writers := w }
  | build {s : TreeRun} (S : StdSort) (slices : List Nat) {treeId : Nat} {db' : Db} :
      BuildFits hex text s.writers.db treeId →
      s.writers.db.buildTree S ord hex text slices treeId = some (.ok db') →
      Step ord hex text s ⟨{ s.writers with db := db' }, treeId :: s.built⟩

/-- What any order of these steps can reach. -/
def Reachable (ord : IndexOrder) (hex : HexCodec) (text : JsonText) : TreeRun → Prop :=
  Relation.ReflTransGen (Step ord hex text) init

/-- The tree is to have all events that match: it has been built, with a filter without a limit. -/
def IsComplete (s : TreeRun) (info : FilterInfo) : Prop :=
  info.treeId ∈ s.built ∧ info.f.limit = maxU64

/-- The invariant. -/
structure Inv (hex : HexCodec) (text : JsonText) (s : TreeRun) : Prop where
  writers : s.writers.Inv hex text
  levId_pos : ∀ r ∈ s.writers.db.event.rows, 0 < r.1
  unused : ∀ treeId, s.writers.db.negentropyFilter.lastKey < treeId →
    s.writers.db.trees treeId = ∅ ∧ treeId ∉ s.built
  inStep : ∀ row ∈ s.writers.db.negentropyFilter.rows, ∀ info, compileRow hex text row = .ok info →
    InStep s.IsComplete [info] s.writers.db

section Run

variable {ord : IndexOrder} {hex : HexCodec} {text : JsonText} {s s' : TreeRun}

theorem treeId_of_compileRow {row : Nat × Bytes} {info : FilterInfo}
    (h : compileRow hex text row = .ok info) : info.treeId = row.1 := by
  obtain ⟨v, -, h⟩ := bind_eq_ok.mp h
  obtain ⟨f, -, h⟩ := bind_eq_ok.mp h
  cases h
  rfl

theorem inStep_singleton {built : FilterInfo → Prop} {info : FilterInfo} {db : Db} :
    InStep built [info] db ↔ db.SoundTree info.f info.treeId ∧
      (built info → db.CompleteTree info.f info.treeId) := by
  constructor
  · intro h
    exact ⟨h.sound info (List.mem_singleton_self info), h.complete info (List.mem_singleton_self info)⟩
  · rintro ⟨hsound, hcomplete⟩
    constructor
    · intro info' hinfo'
      rw [List.mem_singleton.mp hinfo']
      exact hsound
    · intro info' hinfo'
      rw [List.mem_singleton.mp hinfo']
      exact hcomplete

/-- The rows of the filters, and the entries of a cache that has them all. -/
theorem inStep_rows {built : FilterInfo → Prop} {rows : List (Nat × Bytes)} {filters : List FilterInfo}
    {db : Db} (hloaded : List.Forall₂ (fun row info => compileRow hex text row = .ok info) rows filters) :
    (∀ row ∈ rows, ∀ info, compileRow hex text row = .ok info → InStep built [info] db) ↔
      InStep built filters db := by
  constructor
  · intro h
    have hone : ∀ info ∈ filters, InStep built [info] db := by
      intro info hinfo
      obtain ⟨row, hrow, hcompile⟩ := exists_of_forall₂ hloaded.flip hinfo
      exact h row hrow info hcompile
    constructor
    · intro info hinfo
      exact (inStep_singleton.mp (hone info hinfo)).1
    · intro info hinfo
      exact (inStep_singleton.mp (hone info hinfo)).2
  · intro h row hrow info hcompile
    obtain ⟨info', hinfo', hcompile'⟩ := exists_of_forall₂ hloaded hrow
    have heq : info' = info := Except.ok.inj (hcompile'.symm.trans hcompile)
    subst heq
    exact inStep_singleton.mpr ⟨h.sound info' hinfo', h.complete info' hinfo'⟩

theorem nodup_treeIds {t : Table Bytes} {filters : List FilterInfo}
    (hloaded : List.Forall₂ (fun row info => compileRow hex text row = .ok info) t.rows filters) :
    (filters.map FilterInfo.treeId).Nodup := by
  have heq : filters.map FilterInfo.treeId = t.rows.map Prod.fst := by
    generalize t.rows = rows at hloaded
    induction hloaded with
    | nil => rfl
    | cons hcompile _ ih =>
      rw [List.map_cons, List.map_cons, treeId_of_compileRow hcompile, ih]
  rw [heq]
  exact t.nodup_keys

theorem inv_init : init.Inv hex text where
  writers := Writers.inv_init
  levId_pos r hr := absurd hr List.not_mem_nil
  unused treeId hlt := by
    refine ⟨rfl, ?_⟩
    rintro hmem
    rcases List.mem_singleton.mp hmem with rfl
    exact absurd hlt (lt_irrefl 1)
  inStep row hrow info hcompile := by
    rw [inStep_singleton]
    refine ⟨Selection.sound_empty, ?_⟩
    rintro - r hr
    exact absurd hr List.not_mem_nil

/-- A transaction of a process whose cache is up to date. -/
theorem Inv.transaction (h : s.Inv hex text) {p : Nat} {w : Writers}
    (hfresh : ((s.writers.cacheOf p).freshen hex text s.writers.db).2 = .ok ())
    (hw : w.Inv hex text) (hsame : s.writers.db.SameFilters w.db)
    (hpos : ∀ r ∈ w.db.event.rows, 0 < r.1)
    (htrees : ∀ treeId, treeId ∉ ((s.writers.cacheOf p).current hex text s.writers.db).map
      FilterInfo.treeId → w.db.trees treeId = s.writers.db.trees treeId)
    (hstep : ∀ built filters, (filters.map FilterInfo.treeId).Nodup →
      filters = (s.writers.cacheOf p).current hex text s.writers.db →
        InStep built filters s.writers.db → InStep built filters w.db) :
    Inv hex text { s with writers := w } := by
  have hloaded := h.writers.loaded hfresh
  refine ⟨hw, hpos, fun treeId hlt => ?_, ?_⟩
  · rw [hsame.2] at hlt
    obtain ⟨hempty, hbuilt⟩ := h.unused treeId hlt
    refine ⟨?_, hbuilt⟩
    rw [htrees treeId, hempty]
    -- the ids of the filters are those of the rows
    intro hmem
    obtain ⟨info, hinfo, rfl⟩ := List.mem_map.mp hmem
    obtain ⟨row, hrow, hcompile⟩ := exists_of_forall₂ hloaded.flip hinfo
    rw [treeId_of_compileRow hcompile] at hlt
    exact absurd (Table.le_lastKey hrow) hlt.not_ge
  · show ∀ row ∈ w.db.negentropyFilter.rows, ∀ info, compileRow hex text row = .ok info →
      InStep s.IsComplete [info] w.db
    rw [hsame.2, inStep_rows hloaded]
    apply hstep _ _ (nodup_treeIds hloaded) rfl
    exact (inStep_rows hloaded).mp h.inStep

/-- A cache that is filled in between changes nothing. -/
theorem Inv.sameDb (h : s.Inv hex text) {w : Writers} (hw : w.Inv hex text)
    (hdb : w.db = s.writers.db) : Inv hex text { s with writers := w } := by
  refine ⟨hw, ?_, ?_, ?_⟩
  · rw [hdb]
    exact h.levId_pos
  · rw [hdb]
    exact h.unused
  · rw [hdb]
    exact h.inStep

/-- What a build finds is the selection of its filter. -/
theorem Inv.found (h : s.Inv hex text) {S : StdSort} {slices levIds : List Nat} {treeId : Nat}
    {filterStr : Bytes} {info : FilterInfo} {q q' : DBQuery} {recs : List (Nat × Bytes)}
    (hfits : BuildFits hex text s.writers.db treeId)
    (hmem : (treeId, filterStr) ∈ s.writers.db.negentropyFilter.rows)
    (hcompile : compileRow hex text (treeId, filterStr) = .ok info)
    (hq : text.fromString filterStr >>= DBQuery.ofJson hex = .ok q)
    (hrun : runSlices S ord s.writers.db.toStore slices q = some (q', levIds, true))
    (hrecs : s.writers.db.toStore.records levIds = .ok recs) :
    Selection.Sound info.f.selects itemOf s.writers.db.stored recs.toFinset ∧
      (info.f.limit = maxU64 →
        Selection.Complete info.f.selects itemOf s.writers.db.stored recs.toFinset) := by
  have hst : SnapshotOk s.writers.db.toStore := ⟨h.levId_pos, hfits.created_lt⟩
  have hfilters := filters_of_compileRow hcompile hq
  have hcalls : ∀ levId, levId ∈ levIds ↔
      ∃ f ∈ q.sub.filterGroup.filters, levId ∈ answer s.writers.db.toStore f ⊤ := by
    intro levId
    obtain ⟨v, -, hq'⟩ := bind_eq_ok.mp hq
    exact mem_calls_of_runSlices hst hq' (hfits.cursors filterStr q hmem hq) hrun
  constructor
  · intro x hx
    obtain ⟨r, hr, hlev, rfl⟩ := (mem_records hrecs).mp (List.mem_toFinset.mp hx)
    obtain ⟨f, hf, hanswer⟩ := (hcalls r.1).mp hlev
    have hinfo : f = info.f := by
      rw [hfilters] at hf
      split at hf
      · cases hf
      · exact List.mem_singleton.mp hf
    subst hinfo
    exact ⟨r, hr, doesMatch_of_mem_answer hr hanswer, rfl⟩
  · intro hlimit r hr hmatch
    apply List.mem_toFinset.mpr
    refine (mem_records hrecs).mpr ⟨r, hr, (hcalls r.1).mpr ⟨info.f, ?_, ?_⟩, rfl⟩
    · -- a filter that matches an event is not left out of the group
      have hcan : info.f.neverMatch = false := ((NostrFilter.doesMatch_iff _ _).mp hmatch).1
      rw [hfilters, hcan, if_neg Bool.false_ne_true]
      exact List.mem_singleton_self _
    · exact mem_answer_of_doesMatch hfits.length_lt hlimit hr hmatch

/-- A build fills up its tree, and leaves the other ones alone. -/
theorem Inv.build (h : s.Inv hex text) {S : StdSort} {slices : List Nat} {treeId : Nat} {db' : Db}
    (hfits : BuildFits hex text s.writers.db treeId)
    (hbuild : s.writers.db.buildTree S ord hex text slices treeId = some (.ok db')) :
    Inv hex text ⟨{ s.writers with db := db' }, treeId :: s.built⟩ := by
  obtain ⟨filterStr, q, q', levIds, recs, hmem, hq, hrun, hrecs, rfl⟩ := buildTree_eq_ok hbuild
  have hwriters : Writers.Step ord hex text s.writers { s.writers with db := _ } :=
    .build treeId (s.writers.db.trees treeId ∪ recs.toFinset)
  refine ⟨hwriters.inv h.writers, h.levId_pos, ?_, ?_⟩
  · intro treeId' hlt
    have hne : treeId' ≠ treeId := by
      rintro rfl
      exact absurd (Table.le_lastKey hmem) (not_le.mpr hlt)
    obtain ⟨hempty, hbuilt⟩ := h.unused treeId' hlt
    refine ⟨(Function.update_of_ne hne _ _).trans hempty, ?_⟩
    rw [List.mem_cons, not_or]
    exact ⟨hne, hbuilt⟩
  · intro row hrow info hcompile
    obtain ⟨hsound, hcomplete⟩ := inStep_singleton.mp (h.inStep row hrow info hcompile)
    have hid := treeId_of_compileRow hcompile
    apply inStep_singleton.mpr
    by_cases heq : info.treeId = treeId
    · -- the row is the one that the query was made from
      have hrow' : row = (treeId, filterStr) :=
        Prod.ext (hid.symm.trans heq) (Table.eq_of_mem ((hid.symm.trans heq) ▸ hrow) hmem)
      subst hrow'
      have htree : (s.writers.db.negentropyBuild treeId (s.writers.db.trees treeId ∪ recs.toFinset)).trees
          info.treeId = s.writers.db.trees info.treeId ∪ recs.toFinset := by
        rw [heq]
        exact Function.update_self _ _ _
      have hfound := h.found hfits hmem hcompile hq hrun hrecs
      rw [Db.SoundTree, Db.CompleteTree, htree]
      refine ⟨hsound.union hfound.1, fun hbuilt => ?_⟩
      exact (hfound.2 hbuilt.2).union_right _
    · have htree : (s.writers.db.negentropyBuild treeId (s.writers.db.trees treeId ∪ recs.toFinset)).trees
          info.treeId = s.writers.db.trees info.treeId := Function.update_of_ne heq _ _
      rw [Db.SoundTree, Db.CompleteTree, htree]
      refine ⟨hsound, fun hbuilt => hcomplete ⟨?_, hbuilt.2⟩⟩
      exact (List.mem_cons.mp hbuilt.1).resolve_left heq

/-- The step lemma. -/
theorem Step.inv (hstep : Step ord hex text s s') (h : s.Inv hex text) : s'.Inv hex text := by
  cases hstep with
  | build S slices hfits hbuild => exact h.build hfits hbuild
  | @other w hstep hcounter =>
    have hw := hstep.inv h.writers
    cases hstep with
    | @write p S cache' db' evs evs' hsub hok =>
      have hres : (writeEvents S ord hex text (s.writers.cacheOf p) s.writers.db evs).2 =
          .ok (db', evs') := by rw [hok]
      have hrun := writeEvents_run h.writers.store hsub.writable hres
      -- the cache has been freshened, as the transaction has gone through
      have hfresh : ((s.writers.cacheOf p).freshen hex text s.writers.db).2 = .ok () := by
        cases hfresh : ((s.writers.cacheOf p).freshen hex text s.writers.db).2 with
        | ok u => rfl
        | error e =>
          rw [← writeEvents_error_iff h.writers.store hsub.writable, hres] at hfresh
          cases hfresh
      refine h.transaction hfresh hw (Db.sameFilters_writeRun hrun) ?_ ?_ ?_
      · intro r hr
        by_cases hold : r ∈ s.writers.db.event.rows
        · exact h.levId_pos r hold
        · exact (Nat.zero_le _).trans_lt (hrun.gt_lastKey hr hold)
      · intro treeId hnot
        exact trees_writeRun_of_notMem hnot hrun
      · rintro built filters hnodup rfl hin
        exact hin.writeRun hnodup h.writers.store (hsub.writable.perm (S.perm _ _)) hrun
    | @delete p cache' db' levIds numDeleted hok =>
      have hres : (s.writers.db.deleteEvents hex text (s.writers.cacheOf p) levIds).2 =
          .ok (db', numDeleted) := by rw [hok]
      have hdb := deleteEvents_eq_ok hres
      have hfresh : ((s.writers.cacheOf p).freshen hex text s.writers.db).2 = .ok () := by
        rw [Db.deleteEvents] at hres
        split at hres
        · cases hres
        · rename_i hfresh
          rw [hfresh]
      subst hdb
      refine h.transaction hfresh hw (Db.sameFilters_deleteLoop levIds _) ?_ ?_ ?_
      · intro r hr
        exact h.levId_pos r (Db.mem_deleteLoop.mp hr).1
      · intro treeId hnot
        exact trees_deleteLoop_of_notMem hnot levIds
      · rintro built filters hnodup rfl hin
        exact hin.deleteLoop hnodup h.writers.store.uniqueIds levIds
    | writeFails | deleteFails | start => exact h.sameDb hw rfl
    -- a build is a step of its own
    | build treeId tree => exact absurd (hcounter rfl) (Nat.succ_ne_self _)
    | @add maxFilterLimit filterStr treeId db' hok =>
      obtain ⟨-, v, -, rfl, rfl⟩ := Db.negentropyAdd_eq_ok hok
      refine ⟨hw, h.levId_pos, fun treeId' hlt => h.unused treeId' ?_, ?_⟩
      · refine lt_of_le_of_lt ?_ hlt
        exact (Nat.le_succ _).trans (Table.le_lastKey (Table.mem_rows_insertNext.mpr (.inl rfl)))
      · intro row hrow info hcompile
        rcases Table.mem_rows_insertNext.mp hrow with rfl | hrow
        · -- the tree of the new filter is empty, and has not been built
          obtain ⟨hempty, hbuilt⟩ :=
            h.unused (s.writers.db.negentropyFilter.lastKey + 1) (Nat.lt_succ_self _)
          have hid : info.treeId = s.writers.db.negentropyFilter.lastKey + 1 := treeId_of_compileRow hcompile
          apply inStep_singleton.mpr
          constructor
          · rw [Db.SoundTree, hid]
            show Selection.Sound _ _ _ (s.writers.db.trees _)
            rw [hempty]
            exact Selection.sound_empty
          · rintro ⟨hmem, -⟩
            rw [hid] at hmem
            exact absurd hmem hbuilt
        · have hold := inStep_singleton.mp (h.inStep row hrow info hcompile)
          exact inStep_singleton.mpr hold

/-- The run lemma. -/
theorem Reachable.inv (h : Reachable ord hex text s) : s.Inv hex text := by
  induction h with
  | refl => exact inv_init
  | tail _ hstep ih => exact hstep.inv ih

end Run

end TreeRun

/-! ## The bounds of a NEG-OPEN -/

section Bounds

variable {hex : HexCodec} {st st' : FilterLoop}

/-- The loop without the time bounds that it has read. -/
def FilterLoop.unbounded (st : FilterLoop) : FilterLoop :=
  { st with filter := { st.filter with since := 0, until_ := maxU64 } }

/-- The member is a time bound. -/
def isBound (kv : Bytes × Json) : Bool := kv.1 == ascii "since" || kv.1 == ascii "until"

theorem FieldAdded.addField {k : Bytes} {v : Json} (h : FieldAdded hex st k v st') :
    addField hex st k v = .ok st' := by
  cases h with
  | ids hs | authors hs | kinds hs | tag hs => simp [Strfry.addField, hs, bind, Except.bind, ascii]
  | since n | until_ n | limit n =>
    simp [Strfry.addField, Json.getUnsigned, bind, Except.bind, ascii]

/-- A member that is no time bound is read in the same way. -/
theorem FieldAdded.unbounded {k : Bytes} {v : Json} (h : FieldAdded hex st k v st')
    (hk : isBound (k, v) = false) : FieldAdded hex st.unbounded k v st'.unbounded := by
  cases h with
  | ids hs => exact .ids hs
  | authors hs => exact .authors hs
  | kinds hs => exact .kinds hs
  | tag hs => exact .tag hs
  | limit n => exact .limit n
  | since n | until_ n => cases hk

/-- A time bound is not more than 64 bits, and changes nothing else. -/
theorem FieldAdded.bound {k : Bytes} {v : Json} (h : FieldAdded hex st k v st')
    (hk : isBound (k, v) = true) : st'.unbounded = st.unbounded := by
  cases h with
  | since n | until_ n => rfl
  | ids | authors | kinds | limit => cases hk
  | @tag tag v s hs =>
    rw [isBound, Bool.or_eq_true, beq_iff_eq, beq_iff_eq] at hk
    rcases hk with hk | hk <;> cases hk

theorem FieldAdded.until_le {k : Bytes} {v : Json} (h : FieldAdded hex st k v st')
    (hle : st.filter.until_ ≤ maxU64) : st'.filter.until_ ≤ maxU64 := by
  cases h with
  | until_ n => exact Nat.le_pred_of_lt n.toNat_lt
  | _ => exact hle

/-- The loop over the members that are no time bounds. -/
theorem addMembers_unbounded {kvs : List (Bytes × Json)} (hne : ∀ kv ∈ kvs, kv.2 ≠ .array [])
    (h : kvs.foldlM (addMember hex) st = .ok st') :
    (kvs.filter fun kv => !isBound kv).foldlM (addMember hex) st.unbounded = .ok st'.unbounded := by
  induction kvs generalizing st with
  | nil =>
    cases h
    rfl
  | cons kv kvs ih =>
    rw [List.forall_mem_cons] at hne
    rw [List.foldlM_cons] at h
    obtain ⟨mid, hmid, h⟩ := bind_eq_ok.mp h
    have hfield := (addMember_cases hmid).resolve_left fun hempty => hne.1 hempty.1
    cases hbound : isBound kv with
    | true =>
      rw [List.filter_cons_of_neg (by rw [hbound]; decide), ← hfield.2.bound hbound]
      exact ih hne.2 h
    | false =>
      rw [List.filter_cons_of_pos (by rw [hbound]; decide), List.foldlM_cons]
      refine bind_eq_ok.mpr ⟨mid.unbounded, ?_, ih hne.2 h⟩
      rw [addMember]
      split
      · rename_i hempty
        exact absurd hempty hne.1
      · exact (hfield.2.unbounded hbound).addField

theorem addMembers_until_le {kvs : List (Bytes × Json)} (hle : st.filter.until_ ≤ maxU64)
    (h : kvs.foldlM (addMember hex) st = .ok st') : st'.filter.until_ ≤ maxU64 := by
  induction kvs generalizing st with
  | nil =>
    cases h
    exact hle
  | cons kv kvs ih =>
    rw [List.foldlM_cons] at h
    obtain ⟨mid, hmid, h⟩ := bind_eq_ok.mp h
    apply ih _ h
    rcases addMember_cases hmid with ⟨-, rfl⟩ | ⟨-, hfield⟩
    · exact hle
    · exact hfield.until_le hle

theorem erase_bounds (kvs : List (Bytes × Json)) :
    ((Json.object kvs).erase "since").erase "until" = .object (kvs.filter fun kv => !isBound kv) := by
  simp only [Json.erase, List.filter_filter, Json.object.injEq]
  apply List.filter_congr
  intro kv _
  rw [isBound, Bool.not_or, Bool.and_comm]
  rfl

/-- A filter is what is left of it without its time bounds, and the bounds. -/
theorem NostrFilter.make_erase {kvs : List (Bytes × Json)} {limit : Nat} {f : NostrFilter}
    (h : make hex (.object kvs) limit = .ok f) (hcan : f.neverMatch = false) (limit' : Nat) :
    f.until_ ≤ maxU64 ∧
    ∃ f', make hex (((Json.object kvs).erase "since").erase "until") limit' = .ok f' ∧
      ∀ ev, f.doesMatch ev = true ↔
        f'.doesMatch ev = true ∧ f.since ≤ ev.createdAt ∧ ev.createdAt ≤ f.until_ := by
  have hne : ∀ kv ∈ kvs, kv.2 ≠ .array [] := by
    intro kv hkv hempty
    have hnever := (neverMatch_iff h).mpr ⟨kvs, rfl, kv, hkv, hempty⟩
    rw [hcan] at hnever
    cases hnever
  obtain ⟨st, hst, hfinish⟩ := bind_eq_ok.mp h
  -- the end of the constructor looks at the tags only
  obtain ⟨f', hf'⟩ : ∃ f', finishFilter limit' st.unbounded = .ok f' := by
    rw [finishFilter] at hfinish
    split at hfinish
    · cases hfinish
    · rename_i htags
      exact ⟨_, if_neg htags⟩
  have hle : st.filter.until_ ≤ maxU64 := addMembers_until_le le_rfl hst
  have hbounds : f.since = st.filter.since ∧ f.until_ = st.filter.until_ := by
    rw [finishFilter] at hfinish
    split at hfinish
    · cases hfinish
    · cases hfinish
      exact ⟨rfl, rfl⟩
  refine ⟨hbounds.2 ▸ hle, f', ?_, fun ev => ?_⟩
  · rw [erase_bounds]
    exact bind_eq_ok.mpr ⟨st.unbounded, addMembers_unbounded hne hst, hf'⟩
  · rw [finishFilter_doesMatch hf', finishFilter_doesMatch hfinish, doesMatch_iff, doesMatch_iff, hbounds.1,
      hbounds.2]
    have htime : st.unbounded.filter.since ≤ ev.createdAt ∧ ev.createdAt ≤ st.unbounded.filter.until_ :=
      ⟨Nat.zero_le _, Nat.le_pred_of_lt ev.createdAt_lt⟩
    constructor
    · rintro ⟨hnever, hbetween, hrest⟩
      exact ⟨⟨hnever, htime, hrest⟩, hbetween⟩
    · rintro ⟨⟨hnever, -, hrest⟩, hbetween⟩
      exact ⟨hnever, hbetween, hrest⟩

end Bounds

/-! ## The trees mirror the store -/

namespace TreeRun

section Run

variable {ord : IndexOrder} {hex : HexCodec} {text : JsonText} {s s' : TreeRun}

/-- In every state of every run, the tree of a filter without a limit that has been built has exactly the
pairs of the stored events that match the filter. -/
theorem selected_of_run (h : Reachable ord hex text s) {row : Nat × Bytes} {info : FilterInfo}
    (hrow : row ∈ s.writers.db.negentropyFilter.rows) (hcompile : compileRow hex text row = .ok info)
    (hlimit : info.f.limit = maxU64) (hbuilt : row.1 ∈ s.built) (x : Nat × Bytes) :
    x ∈ s.writers.db.trees row.1 ↔
      ∃ r ∈ s.writers.db.event.rows, info.f.doesMatch r.2 = true ∧ itemOf r = x := by
  obtain ⟨hsound, hcomplete⟩ := inStep_singleton.mp (h.inv.inStep row hrow info hcompile)
  have hid := treeId_of_compileRow hcompile
  rw [← hid]
  rw [← hid] at hbuilt
  exact Selection.mem_iff hsound (hcomplete ⟨hbuilt, hlimit⟩) x

/-- A tree that has not been built, or whose filter has a limit, has only pairs of stored events that
match. -/
theorem sound_of_run (h : Reachable ord hex text s) {row : Nat × Bytes} {info : FilterInfo}
    (hrow : row ∈ s.writers.db.negentropyFilter.rows) (hcompile : compileRow hex text row = .ok info)
    {x : Nat × Bytes} (hx : x ∈ s.writers.db.trees row.1) :
    ∃ r ∈ s.writers.db.event.rows, info.f.doesMatch r.2 = true ∧ itemOf r = x := by
  obtain ⟨hsound, -⟩ := inStep_singleton.mp (h.inv.inStep row hrow info hcompile)
  rw [← treeId_of_compileRow hcompile] at hx
  exact hsound x hx

/-- The rows of the filters stay, and so do the trees that have been built. -/
theorem Step.keeps (hstep : Step ord hex text s s') (h : s.Inv hex text) :
    (∀ row ∈ s.writers.db.negentropyFilter.rows, row ∈ s'.writers.db.negentropyFilter.rows) ∧
      ∀ treeId ∈ s.built, treeId ∈ s'.built := by
  cases hstep with
  | build S slices hfits hbuild =>
    obtain ⟨-, -, -, -, -, -, -, -, -, rfl⟩ := buildTree_eq_ok hbuild
    exact ⟨fun row hrow => hrow, fun treeId hmem => List.mem_cons_of_mem _ hmem⟩
  | @other w hstep hcounter =>
    refine ⟨fun row hrow => ?_, fun treeId hmem => hmem⟩
    cases hstep with
    | @write p S cache' db' evs evs' hsub hok =>
      have hrun := writeEvents_run h.writers.store hsub.writable (congrArg Prod.snd hok)
      exact (Db.sameFilters_writeRun hrun).2.symm ▸ hrow
    | delete p hok =>
      rw [deleteEvents_eq_ok (congrArg Prod.snd hok)]
      exact (Db.sameFilters_deleteLoop _ _).2.symm ▸ hrow
    | writeFails | deleteFails | start => exact hrow
    | build treeId tree => exact hrow
    | add maxFilterLimit hok =>
      obtain ⟨-, v, -, rfl, rfl⟩ := Db.negentropyAdd_eq_ok hok
      exact Table.mem_rows_insertNext.mpr (.inr hrow)

theorem Reachable.keeps (h : Reachable ord hex text s)
    (hrun : Relation.ReflTransGen (Step ord hex text) s s') {row : Nat × Bytes}
    (hrow : row ∈ s.writers.db.negentropyFilter.rows) (hbuilt : row.1 ∈ s.built) :
    row ∈ s'.writers.db.negentropyFilter.rows ∧ row.1 ∈ s'.built := by
  induction hrun with
  | refl => exact ⟨hrow, hbuilt⟩
  | tail hrun hstep ih =>
    have hkeeps := hstep.keeps (Reachable.inv (h.trans hrun))
    exact ⟨hkeeps.1 _ ih.1, hkeeps.2 _ ih.2⟩

/-- What a session is served from: the pairs of the stored events that match a group. The last timestamp that
there is lies outside of every range. -/
def IsServing (db : Db) (g : NostrFilterGroup) (storage : Tree) : Prop :=
  ∀ x, x ∈ storage ↔
    ∃ r ∈ db.event.rows, g.doesMatch r.2 = true ∧ r.2.createdAt ≠ maxU64 ∧ itemOf r = x

/-- The range of a tree between the time bounds of a filter. -/
theorem mem_subRange {tree : Tree} {f : NostrFilter} (hle : f.until_ ≤ maxU64) {x : Nat × Bytes} :
    x ∈ subRange tree f ↔ x ∈ tree ∧ f.since ≤ x.1 ∧ x.1 ≤ f.until_ ∧ x.1 ≠ maxU64 := by
  rw [subRange, Finset.mem_filter]
  refine and_congr_right fun _ => and_congr_right fun _ => ?_
  show (x.1 < if f.until_ = maxU64 then maxU64 else f.until_ + 1) ↔ _
  -- the upper bound leaves the last timestamp out, and the others up to `until`
  split
  · omega
  · omega

/-- The range of a tree between the time bounds of a filter has the events that match the filter, if the
filter of the tree is the same without them. -/
theorem subRange_of_run (h : Reachable ord hex text s) {row : Nat × Bytes} {info : FilterInfo}
    (hrow : row ∈ s.writers.db.negentropyFilter.rows) (hcompile : compileRow hex text row = .ok info)
    (hlimit : info.f.limit = maxU64) (hbuilt : row.1 ∈ s.built) {f : NostrFilter} {g : NostrFilterGroup}
    (hle : f.until_ ≤ maxU64) (hg : g.filters = [f])
    (hsame : ∀ ev, f.doesMatch ev = true ↔
      info.f.doesMatch ev = true ∧ f.since ≤ ev.createdAt ∧ ev.createdAt ≤ f.until_) :
    IsServing s.writers.db g (subRange (s.writers.db.trees row.1) f) := by
  have hgroup : ∀ ev, g.doesMatch ev = f.doesMatch ev := by
    intro ev
    rw [NostrFilterGroup.doesMatch, hg, List.any_cons, List.any_nil, Bool.or_false]
  intro x
  rw [mem_subRange hle, selected_of_run h hrow hcompile hlimit hbuilt]
  constructor
  · rintro ⟨⟨r, hr, hmatch, rfl⟩, hsince, huntil, hne⟩
    exact ⟨r, hr, (hgroup r.2).trans ((hsame r.2).mpr ⟨hmatch, hsince, huntil⟩), hne, rfl⟩
  · rintro ⟨r, hr, hmatch, hne, rfl⟩
    obtain ⟨hinfo, hsince, huntil⟩ := (hsame r.2).mp ((hgroup r.2).symm.trans hmatch)
    exact ⟨⟨r, hr, hinfo, rfl⟩, hsince, huntil, hne⟩

/-- The message that a NEG-OPEN for an object becomes: its group is that of the filter, and its text that of
the filter without the bounds. -/
theorem ingesterNegOpen_object {maxSyncEvents connId : Nat} {subscriptionStr : Bytes} {arr : List Json}
    {kvs : List (Bytes × Json)} {sub : Subscription} {filterStr negPayload : Bytes}
    (h : ingesterNegOpen hex text maxSyncEvents connId subscriptionStr arr =
      .ok (.negOpen sub filterStr negPayload)) (hobject : arr[2]? = some (.object kvs)) :
    NostrFilterGroup.unwrapped hex (.object kvs) ((maxSyncEvents + 1) % 2 ^ 64) = .ok sub.filterGroup ∧
      filterStr = treeFilterStr text (.object kvs) := by
  rw [ingesterNegOpen] at h
  split at h
  · cases h
  · obtain ⟨v, hv, h⟩ := bind_eq_ok.mp h
    rw [jsonAt, hobject] at hv
    cases hv
    obtain ⟨g, hg, h⟩ := bind_eq_ok.mp h
    obtain ⟨subId, -, h⟩ := bind_eq_ok.mp h
    obtain ⟨payload, -, h⟩ := bind_eq_ok.mp h
    obtain ⟨payloadStr, -, h⟩ := bind_eq_ok.mp h
    obtain ⟨payload', -, h⟩ := bind_eq_ok.mp h
    cases h
    exact ⟨hg, rfl⟩

/-- A session that is served from a tree that has been built reconciles what the filter of its NEG-OPEN
selects of all stored events: at the NEG-OPEN, and in every later state at a NEG-MSG. The filter has no
limit, and the library reads the text of it without the bounds. -/
theorem session_serves_matching (hreach : Reachable ord hex text s) {maxSyncEvents connId treeId : Nat}
    {subscriptionStr : Bytes} {arr : List Json} {kvs : List (Bytes × Json)} {sub : Subscription}
    {filterStr negPayload : Bytes}
    (hingest : ingesterNegOpen hex text maxSyncEvents connId subscriptionStr arr =
      .ok (.negOpen sub filterStr negPayload))
    (hobject : arr[2]? = some (.object kvs)) (hunlimited : (Json.object kvs).Unlimited)
    (hagain : text.fromString filterStr = .ok (((Json.object kvs).erase "since").erase "until"))
    (hcan : sub.filterGroup.filters ≠ [])
    (hselect : selectTree s.writers.db.negentropyFilter filterStr = some treeId)
    (hbuilt : treeId ∈ s.built) (lib : NegentropyLib) (cfg : NegentropyConfig) :
    (∃ storage, IsServing s.writers.db sub.filterGroup storage ∧
      ∀ (S : StdSort) (q : QueryPtr) (n : Nat) (t : NegentropyThread),
        ∃ t' more, NegentropyThread.negOpen lib cfg S ord s.writers.db q n t sub filterStr negPayload =
          some (.ok (t', (NegentropyThread.handleReconcile lib t.views sub.connId sub.subId storage
            negPayload).2 ++ more))) ∧
    ∀ s', Relation.ReflTransGen (Step ord hex text) s s' →
      ∃ storage, IsServing s'.writers.db sub.filterGroup storage ∧
        ∀ (t : NegentropyThread) (payload : Bytes),
          t.views.findView sub.connId sub.subId = some (.stateless ⟨sub, treeId⟩) →
          NegentropyThread.negMsg lib s'.writers.db t sub.connId sub.subId payload =
            .ok ({ t with views := (NegentropyThread.handleReconcile lib t.views sub.connId sub.subId storage
              payload).1 }, (NegentropyThread.handleReconcile lib t.views sub.connId sub.subId storage
                payload).2) := by
  obtain ⟨hg, rfl⟩ := ingesterNegOpen_object hingest hobject
  obtain ⟨f, hf, hfilters⟩ := NostrFilterGroup.unwrapped_of_object hg hcan
  have hnever : f.neverMatch = false := (sub.filterGroup.wf f (by simp [hfilters])).canMatch
  obtain ⟨hle, f', hf', hsame⟩ := NostrFilter.make_erase hf hnever maxU64
  have hhead : sub.filterGroup.filters[0]? = some f := by rw [hfilters]; rfl
  -- the row of the tree compiles to the filter without its bounds
  obtain ⟨row, hfind, rfl⟩ := Option.map_eq_some_iff.mp hselect
  have hrow := List.mem_of_find?_eq_some hfind
  have htext : row.2 = treeFilterStr text (.object kvs) := by
    have heq := List.find?_some hfind
    exact beq_iff_eq.mp heq
  have hcompile : compileRow hex text row = .ok ⟨f', row.1⟩ := by
    rw [compileRow, htext, hagain]
    exact bind_eq_ok.mpr ⟨_, rfl, bind_eq_ok.mpr ⟨f', hf', rfl⟩⟩
  have hlimit : f'.limit = maxU64 := by
    refine NostrFilter.limit_of_unlimited ?_ le_rfl hf'
    rw [erase_bounds]
    rintro kvs' ⟨⟩ kv hkv
    exact hunlimited kvs rfl kv (List.mem_of_mem_filter hkv)
  have hserving : ∀ s', Relation.ReflTransGen (Step ord hex text) s s' →
      IsServing s'.writers.db sub.filterGroup (subRange (s'.writers.db.trees row.1) f) := by
    intro s' hrun
    have hkept := hreach.keeps hrun hrow hbuilt
    exact subRange_of_run (hreach.trans hrun) hkept.1 hcompile hlimit hkept.2 hle hfilters hsame
  constructor
  · refine ⟨_, hserving s .refl, fun S q n t => ?_⟩
    simp only [NegentropyThread.negOpen, hselect, NegentropyThread.openTree, hhead]
    split
    · exact ⟨_, [], by rw [List.append_nil]⟩
    · exact ⟨_, _, rfl⟩
  · intro s' hrun
    refine ⟨_, hserving s' hrun, fun t payload hview => ?_⟩
    simp only [NegentropyThread.negMsg, hview, hhead]

end Run

/-- The database when the notes have been written, a tree for notes been added, and it been built. -/
def notesTree : Except Err (Db × Db × Db) := do
  let written ← (writeEvents .insertion byteOrder hexCodec Writers.threeTexts {} Db.init twoNotes).2
  let added ← written.1.negentropyAdd hexCodec Writers.threeTexts 500 Writers.notesText
  match added.2.buildTree .insertion byteOrder hexCodec Writers.threeTexts [1000] 2 with
  | some (.ok db) => .ok (written.1, added.2, db)
  | some (.error e) => .error e
  | none => .error .badJson

/-- A NEG-OPEN for notes from a time on. -/
def notesSince : List (Bytes × Json) :=
  [(ascii "kinds", .array [.unsigned 1]), (ascii "since", .unsigned 15)]

def negOpenNotes : List Json :=
  [.string (ascii "NEG-OPEN"), .string (ascii "a"), .object notesSince, .string []]

/-- The query of a build for notes has one cursor. -/
theorem numCursors_notes {q : DBQuery}
    (hq : Writers.threeTexts.fromString Writers.notesText >>= DBQuery.ofJson hexCodec = .ok q) :
    ∀ f ∈ q.sub.filterGroup.filters, DBScan.numCursors f ≤ 2 ^ 24 := by
  have heval : (Writers.threeTexts.fromString Writers.notesText >>= DBQuery.ofJson hexCodec).map
      (fun q => q.sub.filterGroup.filters.map DBScan.numCursors) = .ok [1] := by decide +kernel
  rw [hq] at heval
  have hcur : q.sub.filterGroup.filters.map DBScan.numCursors = [1] := Except.ok.inj heval
  intro f hf
  have hmem : DBScan.numCursors f ∈ [1] := hcur ▸ List.mem_map_of_mem hf
  rw [List.mem_singleton.mp hmem]
  norm_num

/-- A run that writes a batch and adds a tree. -/
theorem exists_addedRun {text : JsonText} {evs evs' : List EventToWrite} {written added : Db} {limit treeId : Nat}
    {filterStr : Bytes} (hsub : Submitted hexCodec evs)
    (hwrite : (writeEvents .insertion byteOrder hexCodec text {} Db.init evs).2 = .ok (written, evs'))
    (hadd : written.negentropyAdd hexCodec text limit filterStr = .ok (treeId, added)) :
    ∃ s : TreeRun, Reachable byteOrder hexCodec text s ∧ s.writers.db = added ∧ s.built = [1] := by
  have hrun := writeEvents_run storeInv_empty hsub.writable hwrite
  obtain ⟨cache', hcache⟩ : ∃ cache', (writeEvents .insertion byteOrder hexCodec text {} Db.init evs).1 =
      cache' := ⟨_, rfl⟩
  have hok : writeEvents .insertion byteOrder hexCodec text {} Db.init evs =
      (cache', .ok (written, evs')) := by
    rw [← hcache, ← hwrite]
  have hwritten : Step byteOrder hexCodec text init
      ⟨⟨written, Function.update (fun _ => {}) 0 cache', []⟩, [1]⟩ :=
    .other (.write 0 .insertion hsub hok) fun _ => (Db.sameFilters_writeRun hrun).1
  have hadded : Step byteOrder hexCodec text
      ⟨⟨written, Function.update (fun _ => {}) 0 cache', []⟩, [1]⟩
      ⟨⟨added, Function.update (fun _ => {}) 0 cache', [(treeId, filterStr)]⟩, [1]⟩ :=
    .other (.add limit hadd) fun h => absurd h (List.cons_ne_nil _ _)
  exact ⟨_, .tail (.single hwritten) hadded, rfl, rfl⟩

/-- A run in which a tree for notes is built when there are two. -/
theorem exists_notesRun : ∃ s : TreeRun, Reachable byteOrder hexCodec Writers.threeTexts s ∧
    s.writers.db.negentropyFilter.rows = [(1, emptyFilterText), (2, Writers.notesText)] ∧
    s.built = [2, 1] ∧
    s.writers.db.trees 2 = {(20, List.replicate 32 1), (10, List.replicate 32 2)} := by
  have heval : notesTree.map (fun r => (r.2.1.event.rows.map fun row => row.2.createdAt,
      r.2.2.negentropyFilter.rows, r.2.2.trees 2)) = .ok ([10, 20],
        [(1, emptyFilterText), (2, Writers.notesText)],
        {(20, List.replicate 32 1), (10, List.replicate 32 2)}) := by
    decide +kernel
  obtain ⟨⟨_, added, db⟩, hrun, heq⟩ := map_eq_ok.mp heval
  obtain ⟨⟨written, evs'⟩, hwrite, hrun⟩ := bind_eq_ok.mp hrun
  obtain ⟨⟨treeId, added'⟩, hadd, hrun⟩ := bind_eq_ok.mp hrun
  have hbuild : added'.buildTree .insertion byteOrder hexCodec Writers.threeTexts [1000] 2 = some (.ok db) ∧
      added' = added := by
    simp only at hrun
    split at hrun
    · rename_i hbuild
      cases hrun
      exact ⟨hbuild, rfl⟩
    · cases hrun
    · cases hrun
  obtain ⟨hbuild, rfl⟩ := hbuild
  simp only [Prod.mk.injEq] at heq
  obtain ⟨hcreated, hrows, htree⟩ := heq
  have hsame : added'.negentropyFilter.rows = [(1, emptyFilterText), (2, Writers.notesText)] := by
    obtain ⟨_, _, _, _, _, -, -, -, -, hdb⟩ := buildTree_eq_ok hbuild
    rw [hdb] at hrows
    exact hrows
  -- the timestamps are small, the rows two, and the filter has one cursor
  have hfits : BuildFits hexCodec Writers.threeTexts added' 2 := by
    refine ⟨fun r hr => ?_, ?_, fun filterStr q hmem hq => ?_⟩
    · have hmem : r.2.createdAt ∈ [10, 20] := hcreated ▸ List.mem_map_of_mem hr
      rcases List.mem_cons.mp hmem with h | h
      · omega
      · have := List.mem_singleton.mp h
        omega
    · have hlen := congrArg List.length hcreated
      rw [List.length_map] at hlen
      rw [hlen]
      norm_num [maxU64]
    · rw [hsame] at hmem
      have htext : filterStr = Writers.notesText := by
        rcases List.mem_cons.mp hmem with h | h
        · cases h
        · exact congrArg Prod.snd (List.mem_singleton.mp h)
      subst htext
      exact numCursors_notes hq
  obtain ⟨s, hreach, rfl, hbuilt⟩ := exists_addedRun submitted_twoNotes hwrite hadd
  exact ⟨_, hreach.tail (.build .insertion [1000] hfits hbuild), hrows, congrArg (2 :: ·) hbuilt, htree⟩

/-- A tree for notes is built when there are two, and serves the newer one. -/
theorem session_serves_newer_note : ∃ (s : TreeRun) (sub : Subscription) (filterStr negPayload : Bytes),
    Reachable byteOrder hexCodec Writers.threeTexts s ∧
    s.writers.db.trees 2 = {(20, List.replicate 32 1), (10, List.replicate 32 2)} ∧
    ingesterNegOpen hexCodec Writers.threeTexts 10 1 (ascii "a") negOpenNotes =
      .ok (.negOpen sub filterStr negPayload) ∧
    ∀ (lib : NegentropyLib) (cfg : NegentropyConfig),
      (∃ storage, IsServing s.writers.db sub.filterGroup storage ∧
        ∀ (S : StdSort) (q : QueryPtr) (n : Nat) (t : NegentropyThread),
          ∃ t' more,
            NegentropyThread.negOpen lib cfg S byteOrder s.writers.db q n t sub filterStr negPayload =
              some (.ok (t', (NegentropyThread.handleReconcile lib t.views sub.connId sub.subId storage
                negPayload).2 ++ more))) := by
  obtain ⟨s, hreach, hrows, hbuilt, htree⟩ := exists_notesRun
  obtain ⟨sub, filterStr, negPayload, hingest, htext, hcan⟩ : ∃ sub filterStr negPayload,
      ingesterNegOpen hexCodec Writers.threeTexts 10 1 (ascii "a") negOpenNotes =
        .ok (.negOpen sub filterStr negPayload) ∧ filterStr = Writers.notesText ∧
        sub.filterGroup.filters ≠ [] := ⟨_, _, _, rfl, by decide +kernel, by simp⟩
  subst htext
  have hselect : selectTree s.writers.db.negentropyFilter Writers.notesText = some 2 := by
    rw [selectTree, hrows]
    decide +kernel
  have hunlimited : (Json.object notesSince).Unlimited := Json.unlimited_object (by decide)
  have hmem : 2 ∈ s.built := hbuilt ▸ List.mem_cons_self
  refine ⟨s, sub, _, negPayload, hreach, htree, hingest, fun lib cfg => ?_⟩
  exact (session_serves_matching hreach hingest rfl hunlimited rfl hcan hselect hmem lib cfg).1

end TreeRun

end Strfry
