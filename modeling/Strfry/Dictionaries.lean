import Strfry.StoreInvariants

/-!
# Payload compression

An event's JSON is kept in `EventPayload`, as it is or compressed with a dictionary. `cmd_dict` walks a
list of levIds that it has gathered in an earlier transaction and writes their payloads anew, with a
commit every 10,000 records; in between, other processes write and delete events.

`Consistent` is what `writeEvents`, `deleteEvents` and `cmd_dict` keep, whatever the events are. It asks
nothing of the events or of the levIds: `writeEvents` looks an id up in its own transaction, and `cmd_dict`
writes a payload only where it has just read one.

zstd is a parameter. The dictionaries that a `Decompressor` keeps are those of the table, since no
dictionary is ever changed or removed.
-/

set_option autoImplicit false

namespace Strfry

open Lib

/-- The two calls of zstd; `capacity` is the size of the output buffer. -/
structure Zstd where
  compress (dict : Bytes) (level : Int) (capacity : Nat) (src : Bytes) : Except Err Bytes
  decompress (dict : Bytes) (capacity : Nat) (src : Bytes) : Except Err Bytes

/-- `Decompressor::decompress`, into a buffer of `events__maxEventSize` bytes. -/
def Zstd.decompressWith (Z : Zstd) (maxEventSize : Nat) (dicts : Table Bytes) (dictId : Nat)
    (src : Bytes) : Except Err Bytes :=
  match dicts.get? dictId with
  | none => .error (.herr ("couldn't find dictId " ++ toString dictId))
  | some dict => Z.decompress dict maxEventSize src

/-- `decodeEventPayload`. -/
def decodeEventPayload (Z : Zstd) (maxEventSize : Nat) (dicts : Table Bytes) (raw : Bytes) :
    Except Err Bytes :=
  match raw with
  | [] => .error (.herr "empty event in EventPayload")
  | b :: rest =>
    if b = 0 then .ok rest
    else if b = 1 then
      if rest.length < 4 then .error (.herr "EventPayload record too short to read dictId")
      else Z.decompressWith maxEventSize dicts (ofLeBytes (rest.take 4)) (rest.drop 4)
    else .error (.herr "Unexpected first byte in EventPayload")

/-- `getEventJson`. -/
def Store.getEventJson (Z : Zstd) (maxEventSize : Nat) (dicts : Table Bytes) (st : Store) (levId : Nat) :
    Except Err Bytes :=
  match st.eventPayload.get? levId with
  | none => .error (.herr "couldn't find event in EventPayload")
  | some raw => decodeEventPayload Z maxEventSize dicts raw

/-! ## cmd_dict -/

/-- What `cmd_dict` is asked to do to the payloads. -/
inductive DictCommand
  | compress (dictId : Nat) (level : Int)
  | decompress

/-- The payload that `cmd_dict compress` writes: compressed when that makes it smaller. -/
def compressPayload (Z : Zstd) (dict : Bytes) (dictId : Nat) (level : Int) (orig : Bytes) :
    Except Err Bytes := do
  let data ← Z.compress dict level 500000 orig
  .ok (if data.length + 4 < orig.length then 1 :: (leBytes 4 dictId ++ data) else 0 :: orig)

/-- What a command does to one text. The dictionary is looked up once, at the start. -/
def DictCommand.recode (Z : Zstd) (dicts : Table Bytes) :
    DictCommand → Except Err (Bytes → Except Err Bytes)
  | .compress dictId level =>
    if dictId = 0 then .error (.herr "specify --dictId or --decompress")
    else
      match dicts.get? dictId with
      | none => .error (.herr ("couldn't find dictId " ++ toString dictId))
      | some dict => .ok (compressPayload Z dict dictId level)
  | .decompress => .ok fun orig => .ok (0 :: orig)

/-- The loop up to its next commit: the store that is committed, and the levIds that are left. A record
that is gone or does not decode is skipped; an error of zstd throws. -/
def recodeLoop (Z : Zstd) (maxEventSize : Nat) (dicts : Table Bytes)
    (recode : Bytes → Except Err Bytes) : Nat → Store → List Nat → Except Err (Store × List Nat)
  | _, st, [] => .ok (st, [])
  | pendingFlush, st, levId :: rest =>
    match st.getEventJson Z maxEventSize dicts levId with
    | .error _ => recodeLoop Z maxEventSize dicts recode pendingFlush st rest
    | .ok orig => do
      let newVal ← recode orig
      let st' := { st with eventPayload := st.eventPayload.put levId newVal }
      if pendingFlush + 1 > 10000 then .ok (st', rest)
      else recodeLoop Z maxEventSize dicts recode (pendingFlush + 1) st' rest

/-! ## Ids and payloads -/

/-- No two events have the same id, and the keys of the two tables are the same. -/
structure Consistent (st : Store) : Prop where
  uniqueIds : st.UniqueIds
  payload : PayloadInStep st

section

variable {ord : IndexOrder} {filters : List FilterInfo} {db db' : Db}

theorem consistent_empty : Consistent Store.empty :=
  ⟨storeInv_empty.uniqueIds, storeInv_empty.payload⟩

theorem Consistent.deleteLoop (h : Consistent db.toStore) (levIds : List Nat) :
    Consistent (db.deleteLoop filters levIds).1.toStore := by
  refine ⟨?_, h.payload.deleteLoop levIds⟩
  intro a b ha hb hid
  exact h.uniqueIds a b (Db.mem_deleteLoop.1 ha).1 (Db.mem_deleteLoop.1 hb).1 hid

/-- An event may be inserted when its id is not stored. -/
theorem Consistent.insertEvent (h : Consistent db.toStore) {packed : PackedEvent}
    (hfresh : ∀ r ∈ db.event.rows, r.2.id ≠ packed.id) (json : Bytes) :
    Consistent (db.insertEvent filters packed json).2.toStore := by
  refine ⟨?_, h.payload.insertEvent packed json⟩
  intro a b ha hb hid
  rcases Db.mem_insertEvent.1 ha with rfl | ha
  · rcases Db.mem_insertEvent.1 hb with rfl | hb
    · rfl
    · exact absurd hid.symm (hfresh b hb)
  · rcases Db.mem_insertEvent.1 hb with rfl | hb
    · exact absurd hid (hfresh a ha)
    · exact h.uniqueIds a b ha hb hid

/-- One iteration of `writeEvents` on any event and with any deletions carried over. -/
theorem Consistent.writeOne {prevId : Option Bytes} {levIdsToDelete rest : List Nat}
    {ev ev' : EventToWrite} (h : Consistent db.toStore)
    (hok : Strfry.writeOne ord filters prevId db levIdsToDelete ev = .ok (db', rest, ev')) :
    Consistent db'.toStore := by
  rw [Strfry.writeOne] at hok
  split_ifs at hok with hdup hdel
  · cases hok
    exact h
  · cases hok
    exact h
  · obtain ⟨⟨replacedIds, isReplaced⟩, -, hok⟩ := bind_eq_ok.1 hok
    have hfresh : ∀ r ∈ db.event.rows, r.2.id ≠ ev.packed.id := by
      intro r hr hid
      -- the lookup in this very transaction would have found the row
      have hfound := (Store.lookupEventById_isSome_iff ord ev.packed.id_size).2 ⟨r, hr, hid⟩
      rw [hfound, Bool.true_or] at hdup
      exact hdup rfl
    simp only at hok
    split_ifs at hok
    all_goals first | cases hok
    all_goals first | exact h | exact (h.insertEvent hfresh ev.jsonStr).deleteLoop _

theorem Consistent.writeLoop {prevId : Option Bytes} {levIdsToDelete : List Nat}
    {evs evs' : List EventToWrite} (h : Consistent db.toStore)
    (hok : Strfry.writeLoop ord filters prevId db levIdsToDelete evs = .ok (db', evs')) :
    Consistent db'.toStore := by
  induction evs generalizing prevId db levIdsToDelete evs' with
  | nil =>
    cases hok
    exact h
  | cons ev evs ih =>
    obtain ⟨⟨db₁, levIdsToDelete', ev'⟩, hone, hok⟩ := bind_eq_ok.1 hok
    obtain ⟨⟨db₂, rest'⟩, hrest, hok⟩ := bind_eq_ok.1 hok
    cases hok
    exact ih (h.writeOne hone) hrest

end

section

variable {Z : Zstd} {maxEventSize : Nat} {dicts : Table Bytes} {st st' : Store}

/-- A payload that is there may be overwritten. -/
theorem Consistent.putPayload (h : Consistent st) {levId : Nat} (newVal : Bytes)
    (hfound : (st.eventPayload.get? levId).isSome = true) :
    Consistent { st with eventPayload := st.eventPayload.put levId newVal } := by
  refine ⟨h.uniqueIds, fun j => ?_⟩
  rw [Table.get?_put]
  split_ifs with hj
  · rw [hj, ← h.payload levId, hfound]
    rfl
  · exact h.payload j

theorem Store.isSome_of_getEventJson {levId : Nat} {orig : Bytes}
    (h : st.getEventJson Z maxEventSize dicts levId = .ok orig) :
    (st.eventPayload.get? levId).isSome = true := by
  rw [Store.getEventJson] at h
  split at h
  · cases h
  · rename_i raw hraw
    rw [hraw]
    rfl

/-- What `cmd_dict` commits is consistent, whatever the levIds are. -/
theorem Consistent.recodeLoop {recode : Bytes → Except Err Bytes} {pendingFlush : Nat}
    {levIds rest : List Nat} (h : Consistent st)
    (hok : Strfry.recodeLoop Z maxEventSize dicts recode pendingFlush st levIds = .ok (st', rest)) :
    Consistent st' := by
  induction levIds generalizing pendingFlush st with
  | nil =>
    cases hok
    exact h
  | cons levId levIds ih =>
    rw [Strfry.recodeLoop] at hok
    split at hok
    · exact ih h hok
    · rename_i orig hjson
      obtain ⟨newVal, -, hok⟩ := bind_eq_ok.1 hok
      have hput := h.putPayload newVal (Store.isSome_of_getEventJson hjson)
      split at hok
      · cases hok
        exact hput
      · exact ih hput hok

end

/-! ## Runs of every process -/

/-- A running `cmd_dict`: what it does to a text, and the levIds that it has still to visit. -/
structure DictTask where
  recode : Bytes → Except Err Bytes
  levIds : List Nat

/-- The database with the dictionaries, and the `cmd_dict` processes at work on it. -/
structure Archive where
  db : Db
  dictionaries : Table Bytes
  tasks : List DictTask

namespace Archive

/-- An empty database. -/
def init : Archive := ⟨Db.init, Table.empty, []⟩

/-- One committed transaction, or one that only reads. The events of a `write` are whatever the checks on
older snapshots have let through, in the relay or in another process, and the levIds of a `delete` or a
`gather` whatever an earlier transaction has found. -/
inductive Step (Z : Zstd) (maxEventSize : Nat) (ord : IndexOrder) (hex : HexCodec) (text : JsonText) :
    Archive → Archive → Prop
  | write {s : Archive} (S : StdSort) (cache : NegentropyFilterCache) {db' : Db}
      {evs evs' : List EventToWrite} :
      (writeEvents S ord hex text cache s.db evs).2 = .ok (db', evs') →
      Step Z maxEventSize ord hex text s { s with db := db' }
  | delete {s : Archive} (cache : NegentropyFilterCache) {db' : Db} {levIds : List Nat}
      {numDeleted : Nat} : (s.db.deleteEvents hex text cache levIds).2 = .ok (db', numDeleted) →
      Step Z maxEventSize ord hex text s { s with db := db' }
  | negentropy {s : Archive} {db' : Db} : db'.toStore = s.db.toStore →
      Step Z maxEventSize ord hex text s { s with db := db' }
  | train {s : Archive} (dict : Bytes) : Step Z maxEventSize ord hex text s
      { s with dictionaries := (s.dictionaries.insertNext dict).2 }
  | gather {s : Archive} (cmd : DictCommand) (levIds : List Nat)
      {recode : Bytes → Except Err Bytes} : cmd.recode Z s.dictionaries = .ok recode →
      Step Z maxEventSize ord hex text s { s with tasks := s.tasks ++ [⟨recode, levIds⟩] }
  | recode {s : Archive} {before after : List DictTask} {task : DictTask} {st : Store}
      {rest : List Nat} : s.tasks = before ++ task :: after →
      recodeLoop Z maxEventSize s.dictionaries task.recode 0 s.db.toStore task.levIds =
        .ok (st, rest) →
      Step Z maxEventSize ord hex text s { s with
        db := { s.db with toStore := st }
        tasks := before ++ ⟨task.recode, rest⟩ :: after }

/-- A transaction of a process with a configuration of its own. -/
def AnyStep (Z : Zstd) (ord : IndexOrder) (hex : HexCodec) (text : JsonText) (s s' : Archive) : Prop :=
  ∃ maxEventSize, Step Z maxEventSize ord hex text s s'

/-- What any interleaving of them can reach from an empty database. -/
def Reachable (Z : Zstd) (ord : IndexOrder) (hex : HexCodec) (text : JsonText) : Archive → Prop :=
  Relation.ReflTransGen (AnyStep Z ord hex text) init

variable {Z : Zstd} {maxEventSize : Nat} {ord : IndexOrder} {hex : HexCodec} {text : JsonText}
  {s s' : Archive}

/-- The step lemma. -/
theorem Step.consistent (hstep : Step Z maxEventSize ord hex text s s') (h : Consistent s.db.toStore) :
    Consistent s'.db.toStore := by
  cases hstep with
  | write S cache hok => exact h.writeLoop (writeEvents_eq_ok hok)
  | delete cache hok =>
    rw [deleteEvents_eq_ok hok]
    exact h.deleteLoop _
  | negentropy heq =>
    show Consistent _
    rw [heq]
    exact h
  | train dict => exact h
  | gather cmd levIds hcmd => exact h
  | recode htask hok => exact h.recodeLoop hok

/-- In every committed state the ids are unique, and the events and the payloads have the same keys. -/
theorem ids_unique_and_payloads_complete (h : Reachable Z ord hex text s) :
    s.db.UniqueIds ∧ ∀ levId, levId ∈ s.db.event.rows.map Prod.fst ↔
      levId ∈ s.db.eventPayload.rows.map Prod.fst := by
  have hcons : Consistent s.db.toStore := by
    induction h with
    | refl => exact consistent_empty
    | tail _ hstep ih =>
      obtain ⟨maxEventSize, hstep⟩ := hstep
      exact hstep.consistent ih
  refine ⟨hcons.uniqueIds, fun levId => ?_⟩
  rw [← Table.isSome_get?_iff, ← Table.isSome_get?_iff, hcons.payload levId]

/-- A zstd that stores. -/
def storedZstd : Zstd where
  compress _ _ _ src := .ok src
  decompress _ _ src := .ok src

/-- A note is written, deleted and written again while a `cmd_dict decompress` waits with its levId. -/
def noteRun : Except Err (Db × Db × Db × Store × List Nat) := do
  let (db₁, _) ← (writeEvents .insertion byteOrder hexCodec emptyObjectText {} Db.init [note]).2
  let (db₂, _) ← (db₁.deleteEvents hexCodec emptyObjectText {} [1]).2
  let (db₃, _) ← (writeEvents .insertion byteOrder hexCodec emptyObjectText {} db₂ [note]).2
  let (st, rest) ← recodeLoop storedZstd 65536 Table.empty (fun orig => .ok (0 :: orig)) 0 db₃.toStore
    [1, 2]
  .ok (db₁, db₂, db₃, st, rest)

theorem ids_unique_and_payloads_complete_noteRun :
    ∃ s, Reachable storedZstd byteOrder hexCodec emptyObjectText s ∧
      s.db.event.rows.map Prod.fst = [1] ∧ s.db.UniqueIds ∧
      ∀ levId, levId ∈ s.db.event.rows.map Prod.fst ↔
        levId ∈ s.db.eventPayload.rows.map Prod.fst := by
  have heval : (noteRun.map fun r => r.2.2.2.1.event.rows.map Prod.fst) = .ok [1] := by
    decide +kernel
  obtain ⟨⟨db₁, db₂, db₃, st, rest⟩, hrun, heq⟩ := map_eq_ok.1 heval
  obtain ⟨⟨db₁, evs₁⟩, hfirst, hrun⟩ := bind_eq_ok.1 hrun
  obtain ⟨⟨db₂, n⟩, hdelete, hrun⟩ := bind_eq_ok.1 hrun
  obtain ⟨⟨db₃, evs₃⟩, hsecond, hrun⟩ := bind_eq_ok.1 hrun
  obtain ⟨⟨st, rest⟩, hrecode, hrun⟩ := bind_eq_ok.1 hrun
  cases hrun
  have hgathered : Reachable storedZstd byteOrder hexCodec emptyObjectText
      ⟨db₁, Table.empty, [] ++ [⟨fun orig => .ok (0 :: orig), [1, 2]⟩]⟩ :=
    .tail (.single ⟨65536, .write .insertion {} hfirst⟩) ⟨65536, .gather .decompress [1, 2] rfl⟩
  have hwaiting : Reachable storedZstd byteOrder hexCodec emptyObjectText
      ⟨db₃, Table.empty, [] ++ [⟨fun orig => .ok (0 :: orig), [1, 2]⟩]⟩ :=
    .tail (.tail hgathered ⟨131072, .delete {} hdelete⟩) ⟨131072, .write .insertion {} hsecond⟩
  have hreach := hwaiting.tail ⟨65536, .recode rfl hrecode⟩
  exact ⟨_, hreach, heq, ids_unique_and_payloads_complete hreach⟩

end Archive

end Strfry
