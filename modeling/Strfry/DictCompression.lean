import Strfry.Dictionaries

/-!
# Compressed payloads are read back

A record holds the JSON of its event as it is, or compressed. `cmd_dict` decides which by the sizes of the
two, and compresses texts of any length. `decodeEventPayload` reads a compressed record into a buffer of
`events__maxEventSize` bytes, so that a text that is longer is in the record and cannot be read.

`Encodes` says that a record holds a text. Every transaction keeps it, in any interleaving and under any
configuration, as long as the event stays; what can be read of it depends on the reader.
-/

set_option autoImplicit false

namespace Strfry

open Lib

/-- What zstd promises: decompression inverts compression when the text fits into the buffer, and fails
when it does not. -/
structure Zstd.Inverts (Z : Zstd) : Prop where
  fits : ∀ {dict src data : Bytes} {level : Int} {capacity n : Nat},
    Z.compress dict level capacity src = .ok data → src.length ≤ n → Z.decompress dict n data = .ok src
  tooLong : ∀ {dict src data : Bytes} {level : Int} {capacity n : Nat},
    Z.compress dict level capacity src = .ok data → n < src.length → ∃ e, Z.decompress dict n data = .error e

/-- The record holds the text, compressed with a dictionary of the table or as it is. -/
inductive Encodes (Z : Zstd) (dicts : Table Bytes) (text : Bytes) : Bytes → Prop
  | raw : Encodes Z dicts text (0 :: text)
  | compressed {dictId : Nat} {dict data : Bytes} {level : Int} {capacity : Nat} :
      dicts.get? dictId = some dict → Z.compress dict level capacity text = .ok data →
      Encodes Z dicts text (1 :: (leBytes 4 dictId ++ data))

section Records

variable {Z : Zstd} {dicts : Table Bytes} {text raw : Bytes} {maxEventSize : Nat}

/-- The dictionaries of a record are found again when their ids fit into its four bytes. -/
theorem decode_compressed {dictId : Nat} {dict data : Bytes} (hdict : dicts.get? dictId = some dict)
    (hfew : dicts.lastKey < 2 ^ 32) :
    decodeEventPayload Z maxEventSize dicts (1 :: (leBytes 4 dictId ++ data)) =
      Z.decompress dict maxEventSize data := by
  have hlen : (leBytes 4 dictId).length = 4 := length_leBytes 4 dictId
  have hid : dictId < 2 ^ 32 := (Table.le_lastKey (Table.get?_eq_some_iff.mp hdict)).trans_lt hfew
  have htake : (leBytes 4 dictId ++ data).take 4 = leBytes 4 dictId := by
    rw [List.take_append_of_le_length hlen.ge, List.take_of_length_le hlen.le]
  have hdrop : (leBytes 4 dictId ++ data).drop 4 = data := by
    rw [List.drop_append_of_le_length hlen.ge, List.drop_of_length_le hlen.le, List.nil_append]
  have hshort : ¬ (leBytes 4 dictId ++ data).length < 4 := by
    rw [List.length_append, hlen]
    omega
  rw [decodeEventPayload, if_neg (by decide), if_pos rfl, if_neg hshort, htake, hdrop,
    ofLeBytes_leBytes, Nat.mod_eq_of_lt (by simpa using hid), Zstd.decompressWith, hdict]

/-- What a reader gets of a record. -/
theorem Encodes.decode (h : Encodes Z dicts text raw) (hZ : Z.Inverts) (hfew : dicts.lastKey < 2 ^ 32) :
    (text.length ≤ maxEventSize ∨ raw = 0 :: text →
      decodeEventPayload Z maxEventSize dicts raw = .ok text) ∧
    (¬ (text.length ≤ maxEventSize ∨ raw = 0 :: text) →
      ∃ e, decodeEventPayload Z maxEventSize dicts raw = .error e) := by
  cases h with
  | raw => exact ⟨fun _ => rfl, fun h => absurd (.inr rfl) h⟩
  | compressed hdict hdata =>
    rw [decode_compressed hdict hfew]
    refine ⟨fun h => ?_, fun h => ?_⟩
    · rcases h with hle | heq
      · exact hZ.fits hdata hle
      · exact absurd (List.cons.inj heq).1 (by decide)
    · exact hZ.tooLong hdata (Nat.not_le.mp fun hle => h (.inl hle))

/-- A reader gets the text or nothing. -/
theorem Encodes.eq_of_decode (h : Encodes Z dicts text raw) (hZ : Z.Inverts)
    (hfew : dicts.lastKey < 2 ^ 32) {orig : Bytes}
    (hok : decodeEventPayload Z maxEventSize dicts raw = .ok orig) : orig = text := by
  by_cases hread : text.length ≤ maxEventSize ∨ raw = 0 :: text
  · rw [(h.decode hZ hfew).1 hread] at hok
    exact (Except.ok.inj hok).symm
  · obtain ⟨e, he⟩ := (h.decode hZ hfew).2 hread
    rw [he] at hok
    cases hok

theorem Encodes.mono {dicts' : Table Bytes} (h : Encodes Z dicts text raw)
    (hmono : ∀ dictId dict, dicts.get? dictId = some dict → dicts'.get? dictId = some dict) :
    Encodes Z dicts' text raw := by
  cases h with
  | raw => exact .raw
  | compressed hdict hdata => exact .compressed (hmono _ _ hdict) hdata

end Records

/-! ## What cmd_dict writes -/

namespace DictTask

/-- The task compresses the text when it comes to it. -/
def Compresses (task : DictTask) (text : Bytes) : Prop :=
  ∃ rest, task.recode text = .ok (1 :: rest)

/-- The task is that of a command that was given with these dictionaries. -/
def OfCommand (Z : Zstd) (dicts : Table Bytes) (task : DictTask) : Prop :=
  task.recode = (fun orig => .ok (0 :: orig)) ∨ ∃ dictId level dict,
    dicts.get? dictId = some dict ∧ task.recode = compressPayload Z dict dictId level

variable {Z : Zstd} {dicts : Table Bytes} {text : Bytes}

/-- What a task writes for a text holds the text. -/
theorem OfCommand.encodes {task : DictTask} (h : task.OfCommand Z dicts) {newVal : Bytes}
    (hok : task.recode text = .ok newVal) : Encodes Z dicts text newVal := by
  rcases h with h | ⟨dictId, level, dict, hdict, h⟩
  · rw [h] at hok
    cases hok
    exact .raw
  · rw [h, compressPayload] at hok
    obtain ⟨data, hdata, hok⟩ := bind_eq_ok.1 hok
    cases hok
    split
    · exact .compressed hdict hdata
    · exact .raw

/-- It is the text as it is unless the task compresses it. -/
theorem OfCommand.raw {task : DictTask} (h : task.OfCommand Z dicts) {newVal : Bytes}
    (hok : task.recode text = .ok newVal) (hno : ¬ task.Compresses text) : newVal = 0 :: text := by
  cases h.encodes hok with
  | raw => rfl
  | compressed hdict hdata => exact absurd ⟨_, hok⟩ hno

theorem OfCommand.mono {dicts' : Table Bytes} {task : DictTask} (h : task.OfCommand Z dicts)
    (hmono : ∀ dictId dict, dicts.get? dictId = some dict → dicts'.get? dictId = some dict) :
    task.OfCommand Z dicts' := by
  rcases h with h | ⟨dictId, level, dict, hdict, h⟩
  · exact .inl h
  · exact .inr ⟨dictId, level, dict, hmono _ _ hdict, h⟩

theorem ofCommand_of_recode {cmd : DictCommand} {recode : Bytes → Except Err Bytes}
    (h : cmd.recode Z dicts = .ok recode) (levIds : List Nat) : OfCommand Z dicts ⟨recode, levIds⟩ := by
  cases cmd with
  | decompress =>
    cases h
    exact .inl rfl
  | compress dictId level =>
    rw [DictCommand.recode] at h
    split at h
    · cases h
    · cases hdict : dicts.get? dictId with
      | none =>
        rw [hdict] at h
        cases h
      | some dict =>
        rw [hdict] at h
        cases h
        exact .inr ⟨dictId, level, dict, hdict, rfl⟩

end DictTask

/-- The loop on the record of one event: it is left as it is or written anew. -/
theorem recodeLoop_payload {Z : Zstd} {maxEventSize : Nat} {dicts : Table Bytes} {task : DictTask}
    {text raw : Bytes} {levId : Nat} (hZ : Z.Inverts) (hfew : dicts.lastKey < 2 ^ 32)
    (htask : task.OfCommand Z dicts) {pendingFlush : Nat} {st st' : Store} {levIds rest : List Nat}
    (hraw : st.eventPayload.get? levId = some raw) (h : Encodes Z dicts text raw)
    (hok : recodeLoop Z maxEventSize dicts task.recode pendingFlush st levIds = .ok (st', rest)) :
    ∃ raw', st'.eventPayload.get? levId = some raw' ∧ Encodes Z dicts text raw' ∧
      (raw' = raw ∨ task.recode text = .ok raw') := by
  induction levIds generalizing pendingFlush st raw with
  | nil =>
    cases hok
    exact ⟨raw, hraw, h, .inl rfl⟩
  | cons k levIds ih =>
    rw [recodeLoop] at hok
    cases hjson : st.getEventJson Z maxEventSize dicts k with
    | error e =>
      rw [hjson] at hok
      exact ih hraw h hok
    | ok orig =>
      rw [hjson] at hok
      obtain ⟨newVal, hnew, hok⟩ := bind_eq_ok.1 hok
      -- the record after this iteration
      obtain ⟨raw₁, hraw₁, h₁, hor⟩ : ∃ raw₁,
          (st.eventPayload.put k newVal).get? levId = some raw₁ ∧ Encodes Z dicts text raw₁ ∧
            (raw₁ = raw ∨ task.recode text = .ok raw₁) := by
        rw [Table.get?_put]
        by_cases hk : levId = k
        · subst hk
          rw [Store.getEventJson, hraw] at hjson
          have horig : orig = text := h.eq_of_decode hZ hfew hjson
          subst horig
          exact ⟨newVal, if_pos rfl, htask.encodes hnew, .inr hnew⟩
        · exact ⟨raw, (if_neg hk).trans hraw, h, .inl rfl⟩
      by_cases hflush : pendingFlush + 1 > 10000
      · rw [if_pos hflush] at hok
        cases hok
        exact ⟨raw₁, hraw₁, h₁, hor⟩
      · rw [if_neg hflush] at hok
        obtain ⟨raw₂, hraw₂, h₂, hor₂⟩ := ih hraw₁ h₁ hok
        refine ⟨raw₂, hraw₂, h₂, ?_⟩
        rcases hor₂ with rfl | hor₂
        · exact hor
        · exact .inr hor₂

/-! ## What the other transactions leave alone -/

section Frame

variable {ord : IndexOrder} {filters : List FilterInfo} {db db' : Db} {levId : Nat}

theorem Db.payload_deleteLoop_eq_or (levIds : List Nat) (levId : Nat) :
    (db.deleteLoop filters levIds).1.eventPayload.get? levId = db.eventPayload.get? levId ∨
      (db.deleteLoop filters levIds).1.eventPayload.get? levId = none := by
  rw [payload_deleteLoop]
  split
  · exact .inr rfl
  · exact .inl rfl

/-- What an event collects to delete is stored. -/
theorem le_lastKey_of_replaceStep {st : Store} {p : PackedEvent} {levIds : List Nat} {isReplaced : Bool}
    (hok : replaceStep st p = .ok (levIds, isReplaced)) : ∀ k ∈ levIds, k ≤ st.event.lastKey := by
  have hnil : ∀ b : Bool, Except.ok (ε := Err) (([] : List Nat), b) = .ok (levIds, isReplaced) →
      ∀ k ∈ levIds, k ≤ st.event.lastKey := by
    intro b h
    cases h
    exact nofun
  rw [replaceStep] at hok
  split at hok
  · exact hnil _ hok
  · split at hok
    · exact hnil _ hok
    · rename_i e he
      rw [replaceEntry] at hok
      split at hok
      · obtain ⟨other, hother, hok⟩ := bind_eq_ok.1 hok
        split at hok
        · cases hok
          intro k hk
          rw [List.mem_singleton] at hk
          subst hk
          rw [Store.lookupEventByLevId] at hother
          cases hget : st.event.get? e.row with
          | none =>
            rw [hget] at hother
            cases hother
          | some p => exact Table.le_lastKey (Table.get?_eq_some_iff.mp hget)
        · exact hnil _ hok
      · exact hnil _ hok

theorem le_lastKey_of_deletionStep {st : Store} {p : PackedEvent} {k : Nat}
    (h : k ∈ deletionStep ord st p) : k ≤ st.event.lastKey := by
  rw [deletionStep] at h
  split at h
  · obtain ⟨t, -, ht⟩ := List.mem_filterMap.mp h
    split at ht
    · cases hfound : st.lookupEventById ord t.2 with
      | none =>
        rw [hfound] at ht
        cases ht
      | some r =>
        rw [hfound] at ht
        simp only at ht
        split at ht
        · cases ht
          rw [Store.lookupEventById] at hfound
          split at hfound
          · cases hfound
          · split at hfound
            · obtain ⟨p, hp, rfl⟩ := Option.map_eq_some_iff.mp hfound
              exact Table.le_lastKey (Table.get?_eq_some_iff.mp hp)
            · cases hfound
        · cases ht
    · cases ht
  · cases h

/-- An iteration of `writeEvents` gives out a levId above all the others, and deletes none that it has
given out: the record of an older levId stays or goes. -/
theorem writeOne_payload {prevId : Option Bytes} {ev ev' : EventToWrite} {rest : List Nat}
    (hok : writeOne ord filters prevId db [] ev = .ok (db', rest, ev')) :
    rest = [] ∧ db.event.lastKey ≤ db'.event.lastKey ∧ ∀ k ≤ db.event.lastKey,
      db'.eventPayload.get? k = db.eventPayload.get? k ∨ db'.eventPayload.get? k = none := by
  -- an event that is not written leaves everything as it is
  have hsame : ∀ {r : List Nat} {e : EventToWrite},
      Except.ok (ε := Err) (db, r, e) = .ok (db', rest, ev') → r = [] →
      rest = [] ∧ db.event.lastKey ≤ db'.event.lastKey ∧ ∀ k ≤ db.event.lastKey,
        db'.eventPayload.get? k = db.eventPayload.get? k ∨ db'.eventPayload.get? k = none := by
    intro r e h hr
    cases h
    exact ⟨hr, le_rfl, fun k _ => .inl rfl⟩
  rw [writeOne] at hok
  split at hok
  · exact hsame hok rfl
  split at hok
  · exact hsame hok rfl
  obtain ⟨⟨replacedIds, isReplaced⟩, hreplace, hok⟩ := bind_eq_ok.1 hok
  simp only [List.nil_append] at hok
  by_cases hpending : (if isReplaced = true then .replaced else ev.status) = EventWriteStatus.pending
  · rw [if_pos hpending] at hok
    cases hok
    refine ⟨rfl, ?_, fun k hk => ?_⟩
    · -- the new event is not among those to delete
      have hnew : (db.event.lastKey + 1, ev.packed) ∈
          ((db.insertEvent filters ev.packed ev.jsonStr).2.deleteLoop filters
            (replacedIds ++ deletionStep ord db.toStore ev.packed)).1.event.rows := by
        refine Db.mem_deleteLoop.mpr ⟨Db.mem_insertEvent.mpr (.inl rfl), fun hin => ?_⟩
        rcases List.mem_append.mp hin with hin | hin
        · have := le_lastKey_of_replaceStep hreplace _ hin
          omega
        · have := le_lastKey_of_deletionStep hin
          omega
      have := Table.le_lastKey hnew
      omega
    · have hold : (db.insertEvent filters ev.packed ev.jsonStr).2.eventPayload.get? k =
          db.eventPayload.get? k := by
        rw [Db.payload_insertEvent, if_neg (by omega)]
      rw [← hold]
      exact Db.payload_deleteLoop_eq_or _ _
  · rw [if_neg hpending] at hok
    by_cases hleft : replacedIds ++ deletionStep ord db.toStore ev.packed = []
    · rw [if_neg (not_not.mpr hleft)] at hok
      exact hsame hok hleft
    · rw [if_pos hleft] at hok
      cases hok

theorem writeLoop_payload {prevId : Option Bytes} {evs evs' : List EventToWrite}
    (hok : writeLoop ord filters prevId db [] evs = .ok (db', evs')) :
    db.event.lastKey ≤ db'.event.lastKey ∧ ∀ k ≤ db.event.lastKey,
      db'.eventPayload.get? k = db.eventPayload.get? k ∨ db'.eventPayload.get? k = none := by
  induction evs generalizing prevId db evs' with
  | nil =>
    cases hok
    exact ⟨le_rfl, fun k _ => .inl rfl⟩
  | cons ev evs ih =>
    obtain ⟨⟨db₁, rest, ev'⟩, hone, hok⟩ := bind_eq_ok.1 hok
    obtain ⟨⟨db₂, evs₂⟩, hrest, hok⟩ := bind_eq_ok.1 hok
    cases hok
    obtain ⟨rfl, hle₁, hone⟩ := writeOne_payload hone
    obtain ⟨hle₂, hrest⟩ := ih hrest
    refine ⟨hle₁.trans hle₂, fun k hk => ?_⟩
    rcases hrest k (hk.trans hle₁) with h | h
    · rw [h]
      exact hone k hk
    · exact .inr h

end Frame

/-! ## Runs of every process -/

namespace Archive

/-- A transaction that leaves the event in the store, with only such `cmd_dict` processes at work as are
allowed. -/
def Keeping (Z : Zstd) (ord : IndexOrder) (hex : HexCodec) (text : JsonText) (allowed : DictTask → Prop)
    (levId : Nat) (s s' : Archive) : Prop :=
  AnyStep Z ord hex text s s' ∧ (∀ task ∈ s.tasks, allowed task) ∧
    (s'.db.eventPayload.get? levId).isSome = true

/-- What holds of the archive at any time: the tables are in step, and the tasks are those of commands. -/
structure Inv (Z : Zstd) (s : Archive) : Prop where
  consistent : Consistent s.db.toStore
  tasks : ∀ task ∈ s.tasks, task.OfCommand Z s.dictionaries

variable {Z : Zstd} {maxEventSize : Nat} {ord : IndexOrder} {hex : HexCodec} {text : JsonText}
  {s s' : Archive}

/-- Dictionaries are only added. -/
theorem Step.dictionaries (hstep : Step Z maxEventSize ord hex text s s') :
    s.dictionaries.lastKey ≤ s'.dictionaries.lastKey ∧ ∀ dictId dict,
      s.dictionaries.get? dictId = some dict → s'.dictionaries.get? dictId = some dict := by
  cases hstep with
  | train dict =>
    constructor
    · have hnew : (s.dictionaries.lastKey + 1, dict) ∈ (s.dictionaries.insertNext dict).2.rows :=
        Table.mem_rows_insertNext.mpr (.inl rfl)
      have := Table.le_lastKey hnew
      show s.dictionaries.lastKey ≤ (s.dictionaries.insertNext dict).2.lastKey
      omega
    · intro dictId dict' h
      exact Table.get?_eq_some_iff.mpr
        (Table.mem_rows_insertNext.mpr (.inr (Table.get?_eq_some_iff.mp h)))
  | write | delete | negentropy | gather | recode => exact ⟨le_rfl, fun _ _ h => h⟩

theorem Step.inv (hstep : Step Z maxEventSize ord hex text s s') (h : s.Inv Z) : s'.Inv Z := by
  refine ⟨hstep.consistent h.consistent, ?_⟩
  have hold : ∀ task ∈ s.tasks, task.OfCommand Z s'.dictionaries :=
    fun task ht => (h.tasks task ht).mono hstep.dictionaries.2
  cases hstep with
  | write | delete | negentropy | train => exact hold
  | gather cmd levIds hcmd =>
    intro task ht
    rcases List.mem_append.mp ht with ht | ht
    · exact hold task ht
    · rw [List.mem_singleton] at ht
      subst ht
      exact DictTask.ofCommand_of_recode hcmd levIds
  | @recode before after task st rest htasks hok =>
    intro task' ht
    have hsub : ∀ t ∈ before ++ after, t.OfCommand Z s.dictionaries := by
      intro t ht
      refine hold t ?_
      rw [htasks]
      rcases List.mem_append.mp ht with ht | ht
      · exact List.mem_append_left _ ht
      · exact List.mem_append_right _ (List.mem_cons_of_mem _ ht)
    rcases List.mem_append.mp ht with ht | ht
    · exact hsub task' (List.mem_append_left _ ht)
    · rcases List.mem_cons.mp ht with rfl | ht
      · exact hold task (htasks ▸ List.mem_append_right _ List.mem_cons_self)
      · exact hsub task' (List.mem_append_right _ ht)

theorem inv_of_reachable (hreach : Reachable Z ord hex text s) : s.Inv Z := by
  induction hreach with
  | refl => exact ⟨consistent_empty, nofun⟩
  | tail _ hstep ih =>
    obtain ⟨maxEventSize, hstep⟩ := hstep
    exact hstep.inv ih

/-- The step lemma: the record of an event that stays holds the same text, and only a task that
compresses the text compresses the record. -/
theorem Step.payload {jsonStr raw : Bytes} {levId : Nat} (hZ : Z.Inverts)
    (hfew : s.dictionaries.lastKey < 2 ^ 32) (hinv : s.Inv Z)
    (hstep : Step Z maxEventSize ord hex text s s')
    (hraw : s.db.eventPayload.get? levId = some raw) (h : Encodes Z s.dictionaries jsonStr raw)
    (hstays : (s'.db.eventPayload.get? levId).isSome = true) :
    ∃ raw', s'.db.eventPayload.get? levId = some raw' ∧ Encodes Z s'.dictionaries jsonStr raw' ∧
      (raw' = raw ∨ ∃ task ∈ s.tasks, task.recode jsonStr = .ok raw') := by
  have hmono := h.mono hstep.dictionaries.2
  -- the record is as it was, unless it is gone
  have hframe : s'.db.eventPayload.get? levId = s.db.eventPayload.get? levId ∨
      s'.db.eventPayload.get? levId = none →
      ∃ raw', s'.db.eventPayload.get? levId = some raw' ∧ Encodes Z s'.dictionaries jsonStr raw' ∧
        (raw' = raw ∨ ∃ task ∈ s.tasks, task.recode jsonStr = .ok raw') := by
    intro hor
    rcases hor with heq | hnone
    · exact ⟨raw, heq.trans hraw, hmono, .inl rfl⟩
    · rw [hnone] at hstays
      cases hstays
  cases hstep with
  | write S cache hok =>
    -- an older levId: the write gives out a new one
    have hstored : levId ≤ s.db.event.lastKey := by
      have hsome := hinv.consistent.payload levId
      rw [hraw] at hsome
      obtain ⟨p, hp⟩ := Option.isSome_iff_exists.mp hsome.symm
      exact Table.le_lastKey (Table.get?_eq_some_iff.mp hp)
    exact hframe ((writeLoop_payload (writeEvents_eq_ok hok)).2 levId hstored)
  | delete cache hok =>
    apply hframe
    rw [deleteEvents_eq_ok hok]
    exact Db.payload_deleteLoop_eq_or _ _
  | negentropy heq => exact hframe (.inl (congrArg (fun st => st.eventPayload.get? levId) heq))
  | train dict => exact hframe (.inl rfl)
  | gather cmd levIds hcmd => exact hframe (.inl rfl)
  | @recode before after task st rest htasks hok =>
    -- the only step that writes the record anew
    have htask : task ∈ s.tasks := htasks ▸ List.mem_append_right _ List.mem_cons_self
    obtain ⟨raw', hraw', h', hor⟩ :=
      recodeLoop_payload hZ hfew (hinv.tasks task htask) hraw h hok
    exact ⟨raw', hraw', h', hor.imp_right fun hnew => ⟨task, htask, hnew⟩⟩

/-- The run lemma. -/
theorem payload_of_run {jsonStr : Bytes} {levId : Nat} {allowed : DictTask → Prop} (hZ : Z.Inverts)
    (hinv : s.Inv Z) (hstored : s.db.eventPayload.get? levId = some (0 :: jsonStr))
    (hrun : Relation.ReflTransGen (Keeping Z ord hex text allowed levId) s s')
    (hfew : s'.dictionaries.lastKey < 2 ^ 32) :
    s'.Inv Z ∧ ∃ raw, s'.db.eventPayload.get? levId = some raw ∧ Encodes Z s'.dictionaries jsonStr raw ∧
      ((∀ task, allowed task → ¬ task.Compresses jsonStr) → raw = 0 :: jsonStr) := by
  induction hrun with
  | refl => exact ⟨hinv, _, hstored, .raw, fun _ => rfl⟩
  | tail _ hkeep ih =>
    obtain ⟨⟨maxEventSize, hstep⟩, hallowed, hstays⟩ := hkeep
    have hfew' := hstep.dictionaries.1.trans_lt hfew
    obtain ⟨hinv', raw, hraw, h, hid⟩ := ih hfew'
    obtain ⟨raw', hraw', h', hor⟩ := hstep.payload hZ hfew' hinv' hraw h hstays
    refine ⟨hstep.inv hinv', raw', hraw', h', fun hnone => ?_⟩
    rcases hor with rfl | ⟨task, htask, hnew⟩
    · exact hid hnone
    · exact (hinv'.tasks task htask).raw hnew (hnone task (hallowed task htask))

/-- An event's text after any run of compressions, decompressions and other transactions that leave the
event in the store. It can be read exactly by those readers whose buffer it fits into, and by all of them
when the record is uncompressed; and that it is when no command of the run compresses the text. -/
theorem getEventJson_iff {jsonStr : Bytes} {levId : Nat} {allowed : DictTask → Prop} (hZ : Z.Inverts)
    (hreach : Reachable Z ord hex text s)
    (hstored : s.db.eventPayload.get? levId = some (0 :: jsonStr))
    (hrun : Relation.ReflTransGen (Keeping Z ord hex text allowed levId) s s')
    (hfew : s'.dictionaries.lastKey < 2 ^ 32) (maxEventSize : Nat) :
    (s'.db.getEventJson Z maxEventSize s'.dictionaries levId = .ok jsonStr ↔
      jsonStr.length ≤ maxEventSize ∨ s'.db.eventPayload.get? levId = some (0 :: jsonStr)) ∧
    ((jsonStr.length ≤ maxEventSize ∨ ∀ task, allowed task → ¬ task.Compresses jsonStr) →
      s'.db.getEventJson Z maxEventSize s'.dictionaries levId = .ok jsonStr) := by
  obtain ⟨-, raw, hraw, henc, hid⟩ := payload_of_run hZ (inv_of_reachable hreach) hstored hrun hfew
  have hread : s'.db.getEventJson Z maxEventSize s'.dictionaries levId =
      decodeEventPayload Z maxEventSize s'.dictionaries raw := by
    rw [Store.getEventJson, hraw]
  obtain ⟨hok, herr⟩ := @Encodes.decode _ _ _ _ maxEventSize henc hZ hfew
  rw [hread, hraw, Option.some.injEq]
  refine ⟨⟨fun h => ?_, hok⟩, fun h => hok (h.imp_right hid)⟩
  by_contra hno
  obtain ⟨e, he⟩ := herr hno
  rw [he] at h
  cases h

/-- A zstd that leaves out the dictionary where a text begins with it. -/
def prefixZstd : Zstd where
  compress dict _ capacity src :=
    let data := if dict.isPrefixOf src then 1 :: src.drop dict.length else 0 :: src
    if data.length ≤ capacity then .ok data else .error (.herr "Destination buffer is too small")
  decompress dict capacity data :=
    match data with
    | [] => .error (.herr "Src size is incorrect")
    | b :: rest =>
      let src := if b = 1 then dict ++ rest else rest
      if src.length ≤ capacity then .ok src else .error (.herr "Destination buffer is too small")

theorem prefixZstd_decompress {dict src data : Bytes} {level : Int} {capacity : Nat} (n : Nat)
    (h : prefixZstd.compress dict level capacity src = .ok data) :
    prefixZstd.decompress dict n data =
      if src.length ≤ n then .ok src else .error (.herr "Destination buffer is too small") := by
  simp only [prefixZstd] at h
  by_cases hprefix : dict.isPrefixOf src = true
  · obtain ⟨rest, rfl⟩ := List.isPrefixOf_iff_prefix.mp hprefix
    rw [if_pos hprefix, List.drop_left] at h
    split at h
    · cases h
      rfl
    · cases h
  · rw [if_neg hprefix] at h
    split at h
    · cases h
      rfl
    · cases h

theorem prefixZstd_inverts : prefixZstd.Inverts where
  fits h hle := by rw [prefixZstd_decompress _ h, if_pos hle]
  tooLong h hlt := ⟨_, by rw [prefixZstd_decompress _ h, if_neg (Nat.not_le.mpr hlt)]⟩

/-- The JSON of `note`, of 334 bytes. -/
def noteText : Bytes :=
  ascii "\x7b\"content\":\"\",\"created_at\":20,\"id\":\"" ++ encodeHex (List.replicate 32 1) ++
    ascii "\",\"kind\":1,\"pubkey\":\"" ++ encodeHex (List.replicate 32 9) ++
    ascii "\",\"sig\":\"" ++ List.replicate 128 48 ++ ascii "\",\"tags\":[]\x7d"

/-- A dictionary that every event without content begins with. -/
def noteDict : Bytes := ascii "\x7b\"content\":\"\",\"created_at\":"

/-- The database after a write of the note, and the store that `dict compress` makes of it, with
`events__maxEventSize` at 256. -/
def compressRun : Except Err (Db × Store) := do
  let (db, _) ← (writeEvents .insertion byteOrder hexCodec emptyObjectText {} Db.init
    [{ note with jsonStr := noteText }]).2
  let (st, _) ← recodeLoop prefixZstd 256 (Table.empty.insertNext noteDict).2
    (compressPayload prefixZstd noteDict 1 3) 0 db.toStore [1]
  .ok (db, st)

/-- The run of these steps: afterwards the record is compressed. -/
theorem compressRun_reachable : ∃ s s',
    Relation.ReflTransGen (Step prefixZstd 256 byteOrder hexCodec emptyObjectText) init s ∧
      s.db.eventPayload.get? 1 = some (0 :: noteText) ∧
      Relation.ReflTransGen
        (Keeping prefixZstd byteOrder hexCodec emptyObjectText (fun _ => True) 1) s s' ∧
      Relation.ReflTransGen (Step prefixZstd 256 byteOrder hexCodec emptyObjectText) s s' ∧
      s'.dictionaries.lastKey < 2 ^ 32 ∧ (s'.db.event.get? 1).isSome = true ∧
      s'.db.eventPayload.get? 1 ≠ some (0 :: noteText) := by
  have heval : (compressRun.map fun r => (r.1.eventPayload.get? 1 == some (0 :: noteText),
      (r.2.eventPayload.get? 1).isSome, (r.2.event.get? 1).isSome,
      r.2.eventPayload.get? 1 == some (0 :: noteText))) = .ok (true, true, true, false) := by
    decide +kernel
  obtain ⟨⟨db, st⟩, hrun, heq⟩ := map_eq_ok.1 heval
  obtain ⟨⟨db₁, evs⟩, hwrite, hrun⟩ := bind_eq_ok.1 hrun
  obtain ⟨⟨st₁, rest⟩, hrecode, hrun⟩ := bind_eq_ok.1 hrun
  cases hrun
  simp only [Prod.mk.injEq, beq_iff_eq, beq_eq_false_iff_ne] at heq
  obtain ⟨hraw, hsome, hevent, hcompressed⟩ := heq
  have hisSome : (db.eventPayload.get? 1).isSome = true := by rw [hraw]; rfl
  have htrain : Step prefixZstd 256 byteOrder hexCodec emptyObjectText ⟨db, Table.empty, []⟩
      ⟨db, (Table.empty.insertNext noteDict).2, []⟩ := .train noteDict
  have hgather : Step prefixZstd 256 byteOrder hexCodec emptyObjectText
      ⟨db, (Table.empty.insertNext noteDict).2, []⟩
      ⟨db, (Table.empty.insertNext noteDict).2, [] ++ [⟨compressPayload prefixZstd noteDict 1 3, [1]⟩]⟩ :=
    .gather (.compress 1 3) [1] rfl
  have hcompress : Step prefixZstd 256 byteOrder hexCodec emptyObjectText
      ⟨db, (Table.empty.insertNext noteDict).2, [] ++ [⟨compressPayload prefixZstd noteDict 1 3, [1]⟩]⟩
      ⟨{ db with toStore := st }, (Table.empty.insertNext noteDict).2,
        [] ++ [⟨compressPayload prefixZstd noteDict 1 3, rest⟩]⟩ :=
    @Step.recode _ _ _ _ _ _ [] [] ⟨compressPayload prefixZstd noteDict 1 3, [1]⟩ _ _ rfl hrecode
  refine ⟨⟨db, Table.empty, []⟩, _, .single (.write .insertion {} hwrite), hraw,
    .tail (.tail (.single ⟨⟨256, htrain⟩, nofun, hisSome⟩) ⟨⟨256, hgather⟩, nofun, hisSome⟩)
      ⟨⟨256, hcompress⟩, fun _ _ => trivial, hsome⟩,
    .tail (.tail (.single htrain) hgather) hcompress, ?_, hevent, hcompressed⟩
  show (Table.empty.insertNext noteDict).2.lastKey < 2 ^ 32
  decide

theorem anyStep_of_step {a b : Archive}
    (h : Relation.ReflTransGen (Step prefixZstd 256 byteOrder hexCodec emptyObjectText) a b) :
    Relation.ReflTransGen (AnyStep prefixZstd byteOrder hexCodec emptyObjectText) a b := by
  induction h with
  | refl => exact .refl
  | tail _ hstep ih => exact ih.tail ⟨256, hstep⟩

theorem length_noteText : noteText.length = 334 := by decide +kernel

/-- A reader with a buffer of 65536 bytes gets the note back. -/
theorem getEventJson_iff_note : ∃ s,
    Reachable prefixZstd byteOrder hexCodec emptyObjectText s ∧
      s.db.eventPayload.get? 1 ≠ some (0 :: noteText) ∧
      s.db.getEventJson prefixZstd 65536 s.dictionaries 1 = .ok noteText := by
  obtain ⟨s, s', hreach, hstored, hrun, hsteps, hfew, -, hcompressed⟩ := compressRun_reachable
  refine ⟨s', anyStep_of_step (hreach.trans hsteps), hcompressed, ?_⟩
  apply (getEventJson_iff prefixZstd_inverts (anyStep_of_step hreach) hstored hrun hfew 65536).2
  rw [length_noteText]
  exact .inl (by norm_num)

/-- Under one configuration with `events__maxEventSize` at 256, a longer event is stored and can be read;
`dict compress` compresses it, and then it cannot. -/
theorem compressed_note_unreadable : prefixZstd.Inverts ∧ ∃ s s',
    Relation.ReflTransGen (Step prefixZstd 256 byteOrder hexCodec emptyObjectText) init s ∧
      s.db.getEventJson prefixZstd 256 s.dictionaries 1 = .ok noteText ∧
      Relation.ReflTransGen (Step prefixZstd 256 byteOrder hexCodec emptyObjectText) s s' ∧
      (s'.db.event.get? 1).isSome = true ∧
      ∃ e, s'.db.getEventJson prefixZstd 256 s'.dictionaries 1 = .error e := by
  obtain ⟨s, s', hreach, hstored, hrun, hsteps, hfew, hevent, hcompressed⟩ := compressRun_reachable
  obtain ⟨-, raw, hraw, henc, -⟩ := payload_of_run prefixZstd_inverts
    (inv_of_reachable (anyStep_of_step hreach)) hstored hrun hfew
  refine ⟨prefixZstd_inverts, s, s', hreach, ?_, hsteps, hevent, ?_⟩
  · rw [Store.getEventJson, hstored]
    rfl
  · rw [Store.getEventJson, hraw]
    apply (henc.decode prefixZstd_inverts hfew).2
    rw [length_noteText]
    rintro (hle | rfl)
    · exact absurd hle (by norm_num)
    · exact hcompressed hraw

end Archive

end Strfry
