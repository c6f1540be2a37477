import Strfry.Filters
import Strfry.Store

/-!
# The database and the negentropy filter cache

`Db` adds to the event store what negentropy keeps there: the filters of the trees, a counter
that changes with them, and the trees. A tree (`BTreeLMDB`) is a set of pairs of a timestamp and
an id. Every process that writes has its own `NegentropyFilterCache`; `freshenCache` reloads it
when the counter in the database differs from the one it remembers.
-/

set_option autoImplicit false

namespace Strfry

open Lib

/-- A tree of negentropy. -/
abbrev Tree := Finset (Nat × Bytes)

/-- The database. -/
structure Db extends Store where
  modificationCounter : Nat
  negentropyFilter : Table Bytes
  trees : Nat → Tree

/-- The text of the filter of the default tree. -/
def emptyFilterText : Bytes := ascii "\x7b\x7d"

/-- A parser that knows the text of the default filter. -/
def emptyObjectText : JsonText where
  fromString s := if s = emptyFilterText then .ok (.object []) else .error .badJson
  toString := Json.print

/-- A database after `dbCheck` has set it up: no events, and the default tree. -/
def Db.init : Db where
  toStore := Store.empty
  modificationCounter := 1
  negentropyFilter := (Table.empty.insertNext emptyFilterText).2
  trees := fun _ => ∅

/-- `NegentropyFilterCache::FilterInfo`. -/
structure FilterInfo where
  f : NostrFilter
  treeId : Nat

/-- `NegentropyFilterCache`. -/
structure NegentropyFilterCache where
  filters : List FilterInfo := []
  modificationCounter : Nat := 0

/-- The compiled filter of a row. -/
def compileRow (hex : HexCodec) (text : JsonText) (row : Nat × Bytes) : Except Err FilterInfo := do
  let v ← text.fromString row.2
  let f ← NostrFilter.make hex v maxU64
  .ok ⟨f, row.1⟩

/-- The loop over the rows: the filters compiled before an exception stay in the cache. -/
def loadFilters (hex : HexCodec) (text : JsonText) :
    List (Nat × Bytes) → List FilterInfo → List FilterInfo × Except Err Unit
  | [], acc => (acc, .ok ())
  | row :: rows, acc =>
    match compileRow hex text row with
    | .error e => (acc, .error e)
    | .ok info => loadFilters hex text rows (acc ++ [info])

/-- `NegentropyFilterCache::freshenCache`: the cache afterwards, and an exception if a filter
does not compile. -/
def NegentropyFilterCache.freshen (hex : HexCodec) (text : JsonText) (db : Db)
    (cache : NegentropyFilterCache) : NegentropyFilterCache × Except Err Unit :=
  if db.modificationCounter ≠ cache.modificationCounter then
    match loadFilters hex text db.negentropyFilter.rows [] with
    | (filters, .error e) => (⟨filters, cache.modificationCounter⟩, .error e)
    | (filters, .ok ()) => (⟨filters, db.modificationCounter⟩, .ok ())
  else (cache, .ok ())

/-- Insertion or removal of an event in one tree. -/
def updateTree (ev : PackedEvent) (insert : Bool) (tree : Tree) : Tree :=
  if insert then Insert.insert (ev.createdAt, ev.id) tree else tree.erase (ev.createdAt, ev.id)

/-- The function that `ctx` passes on: updates every tree whose filter matches the event. -/
def updateNegentropy (filters : List FilterInfo) (ev : PackedEvent) (insert : Bool)
    (trees : Nat → Tree) : Nat → Tree :=
  filters.foldl (fun ts info =>
    if info.f.doesMatch ev then Function.update ts info.treeId (updateTree ev insert (ts info.treeId))
    else ts) trees

namespace Db

/-- Insertion of an event as `writeEvents` does it: table, payload, trees. -/
def insertEvent (filters : List FilterInfo) (db : Db) (packed : PackedEvent) (json : Bytes) :
    Nat × Db :=
  let r := db.toStore.insertEvent packed json
  (r.1, { db with toStore := r.2, trees := updateNegentropy filters packed true db.trees })

/-- Removal of an event from the trees and the tables; nothing if it is already gone. -/
def deleteEvent (filters : List FilterInfo) (db : Db) (levId : Nat) : Db :=
  match db.event.get? levId with
  | none => db
  | some packed =>
    { db with
      toStore := db.toStore.deleteEventBasic levId
      trees := updateNegentropy filters packed false db.trees }

/-- The loop of `deleteEvents`; the count is of the payloads that were there. -/
def deleteLoop (filters : List FilterInfo) (db : Db) : List Nat → Db × Nat
  | [] => (db, 0)
  | levId :: rest =>
    let r := deleteLoop filters (db.deleteEvent filters levId) rest
    if (db.event.get? levId).isSome && (db.eventPayload.get? levId).isSome then (r.1, r.2 + 1)
    else r

/-- `deleteEvents`. -/
def deleteEvents (hex : HexCodec) (text : JsonText) (cache : NegentropyFilterCache) (db : Db)
    (levIds : List Nat) : NegentropyFilterCache × Except Err (Db × Nat) :=
  match cache.freshen hex text db with
  | (cache', .error e) => (cache', .error e)
  | (cache', .ok ()) => (cache', .ok (db.deleteLoop cache'.filters levIds))

section Rows

variable {filters : List FilterInfo} {db : Db}

theorem mem_insertEvent {packed : PackedEvent} {json : Bytes} {r : Nat × PackedEvent} :
    r ∈ (db.insertEvent filters packed json).2.event.rows ↔
      r = (db.event.lastKey + 1, packed) ∨ r ∈ db.event.rows :=
  Table.mem_rows_insertNext

theorem payload_insertEvent (packed : PackedEvent) (json : Bytes) (levId : Nat) :
    (db.insertEvent filters packed json).2.eventPayload.get? levId =
      if levId = db.event.lastKey + 1 then some (0 :: json) else db.eventPayload.get? levId :=
  Table.get?_put _ _ _ _

theorem mem_deleteEvent {levId : Nat} {r : Nat × PackedEvent} :
    r ∈ (db.deleteEvent filters levId).event.rows ↔ r ∈ db.event.rows ∧ r.1 ≠ levId := by
  unfold deleteEvent
  split
  · rename_i h
    constructor
    · intro hr
      refine ⟨hr, fun he => ?_⟩
      exact Table.get?_eq_none_iff.1 h r.2 (he ▸ hr)
    · exact fun hr => hr.1
  · exact Table.mem_rows_del

theorem payload_deleteEvent (levId j : Nat) :
    (db.deleteEvent filters levId).eventPayload.get? j =
      if j = levId ∧ (db.event.get? levId).isSome then none else db.eventPayload.get? j := by
  unfold deleteEvent
  split
  · rename_i h
    simp [h]
  · rename_i h
    simp only [h, Option.isSome_some, and_true]
    exact Table.get?_del _ _ _

theorem fst_deleteLoop_cons (levId : Nat) (rest : List Nat) :
    (db.deleteLoop filters (levId :: rest)).1 =
      ((db.deleteEvent filters levId).deleteLoop filters rest).1 := by
  rw [deleteLoop]
  split <;> rfl

theorem mem_deleteLoop {levIds : List Nat} {r : Nat × PackedEvent} :
    r ∈ (db.deleteLoop filters levIds).1.event.rows ↔ r ∈ db.event.rows ∧ r.1 ∉ levIds := by
  induction levIds generalizing db with
  | nil => simp [deleteLoop]
  | cons levId rest ih =>
    rw [fst_deleteLoop_cons, ih, mem_deleteEvent, List.mem_cons, not_or, and_assoc]

theorem get?_deleteLoop (levIds : List Nat) (j : Nat) :
    (db.deleteLoop filters levIds).1.event.get? j =
      if j ∈ levIds then none else db.event.get? j := by
  ext p
  rw [Table.get?_eq_some_iff, mem_deleteLoop]
  split_ifs with hj
  · simp [hj]
  · simp [hj, Table.get?_eq_some_iff]

theorem payload_deleteLoop (levIds : List Nat) (j : Nat) :
    (db.deleteLoop filters levIds).1.eventPayload.get? j =
      if j ∈ levIds ∧ (db.event.get? j).isSome then none else db.eventPayload.get? j := by
  induction levIds generalizing db with
  | nil => simp [deleteLoop]
  | cons levId rest ih =>
    have hone : (db.deleteLoop filters [levId]).1.event.get? j =
        if j ∈ [levId] then none else db.event.get? j := get?_deleteLoop [levId] j
    have hget : (db.deleteEvent filters levId).event.get? j =
        if j = levId then none else db.event.get? j := by
      rw [fst_deleteLoop_cons, deleteLoop] at hone
      simpa only [List.mem_singleton] using hone
    rw [fst_deleteLoop_cons, ih, hget, payload_deleteEvent]
    by_cases hj : j = levId
    · subst hj
      by_cases hs : (db.event.get? j).isSome = true <;> simp [hs]
    · simp [hj]

/-- Rows that survive a removal keep their payload. -/
theorem payload_deleteLoop_of_mem {levIds : List Nat} {r : Nat × PackedEvent}
    (h : r ∈ (db.deleteLoop filters levIds).1.event.rows) :
    (db.deleteLoop filters levIds).1.eventPayload.get? r.1 = db.eventPayload.get? r.1 := by
  rw [payload_deleteLoop, if_neg]
  exact fun hj => (mem_deleteLoop.1 h).2 hj.1

end Rows

end Db

end Strfry
