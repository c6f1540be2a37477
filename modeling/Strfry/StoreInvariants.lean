import Strfry.WriteEvents

/-!
# Invariants of the event store

The step lemma is `WriteOutcome.storeInv`: an iteration of `writeEvents` keeps `StoreInv`. The run
lemma `writeLoop_spec` chains the iterations of a batch into a `WriteRun`, with no exception on the
way; `StoreReachable.storeInv` chains whole calls, from the empty store on.

`BatchStep` names one iteration inside a call, with the database before and after it. The frame
theorem of `writeEvents` and the one about deletions are stated with it.
-/

set_option autoImplicit false

namespace Strfry

open Lib

/-! ## Removal keeps the invariant -/

section Delete

variable {filters : List FilterInfo}

/-- Every event has a payload, and every payload an event. -/
def PayloadInStep (st : Store) : Prop :=
  ∀ levId, (st.eventPayload.get? levId).isSome = (st.event.get? levId).isSome

theorem PayloadInStep.deleteLoop {db : Db} (h : PayloadInStep db.toStore) (levIds : List Nat) :
    PayloadInStep (db.deleteLoop filters levIds).1.toStore := by
  intro j
  rw [Db.payload_deleteLoop, Db.get?_deleteLoop]
  by_cases hj : j ∈ levIds
  · by_cases hs : (db.event.get? j).isSome = true
    · simp [hj, hs]
    · have hp := h j
      simp_all
  · simp [hj, h j]

theorem PayloadInStep.insertEvent {db : Db} (h : PayloadInStep db.toStore) (packed : PackedEvent)
    (json : Bytes) : PayloadInStep (db.insertEvent filters packed json).2.toStore := by
  intro j
  have hget : (db.insertEvent filters packed json).2.event.get? j =
      if j = db.event.lastKey + 1 then some packed else db.event.get? j :=
    Table.get?_put _ _ _ _
  rw [Db.payload_insertEvent, hget]
  split_ifs with hj
  · rfl
  · exact h j

/-- A removal keeps what is said about rows and pairs of rows, and the payloads in step. -/
theorem StoreInv.deleteLoop {db : Db} (h : StoreInv db.toStore) (levIds : List Nat) :
    StoreInv (db.deleteLoop filters levIds).1.toStore := by
  have hsub : ∀ r, r ∈ (db.deleteLoop filters levIds).1.event.rows → r ∈ db.event.rows :=
    fun r hr => (Db.mem_deleteLoop.1 hr).1
  exact ⟨fun r hr => h.wellPacked r (hsub r hr),
    fun a b ha hb => h.uniqueIds a b (hsub a ha) (hsub b hb),
    fun a b ha hb => h.uniqueAddress a b (hsub a ha) (hsub b hb),
    fun d e hd he => h.noDeleted d e (hsub d hd) (hsub e he),
    PayloadInStep.deleteLoop h.payload levIds⟩

end Delete

/-! ## One iteration -/

section Iteration

variable {filters : List FilterInfo} {prevId : Option Bytes} {db db' : Db} {ev ev' : EventToWrite}

/-- An iteration changes the status and the levId of its event, and nothing else. -/
theorem WriteOutcome.event_eq (h : WriteOutcome filters prevId db ev db' ev') :
    ev'.packed = ev.packed ∧ ev'.jsonStr = ev.jsonStr := by
  cases h <;> exact ⟨rfl, rfl⟩

/-- Without a write, the database stays as it is. -/
theorem WriteOutcome.eq_of_not_written (h : WriteOutcome filters prevId db ev db' ev')
    (hs : ev'.status ≠ .written) : db' = db := by
  cases h with
  | duplicate | deleted | replaced => rfl
  | written => exact absurd rfl hs

/-- The rows after a write: the new one, and the old ones that are not targets of it. -/
theorem WriteOutcome.mem_rows (h : WriteOutcome filters prevId db ev db' ev')
    (hs : ev'.status = .written) {r : Nat × PackedEvent} :
    r ∈ db'.event.rows ↔
      r = (ev'.levId, ev.packed) ∨ (r ∈ db.event.rows ∧ ¬ Targets ev.packed r.2) := by
  cases h with
  | duplicate | deleted | replaced => cases hs
  | written toDelete hfresh hnodel hbeats htgt =>
    rw [Db.mem_deleteLoop, Db.mem_insertEvent, htgt]
    constructor
    · rintro ⟨rfl | hr, hnot⟩
      · exact Or.inl rfl
      · exact Or.inr ⟨hr, fun ht => hnot ⟨r.2, hr, ht⟩⟩
    · rintro (rfl | ⟨hr, hnot⟩)
      · refine ⟨Or.inl rfl, ?_⟩
        rintro ⟨e, he, -⟩
        have := Table.le_lastKey he
        simp at this
      · refine ⟨Or.inr hr, ?_⟩
        rintro ⟨e, he, ht⟩
        exact hnot (Table.eq_of_mem (t := db.event) he hr ▸ ht)

/-- A written event gets a levId above those in the table. -/
theorem WriteOutcome.levId_eq (h : WriteOutcome filters prevId db ev db' ev')
    (hs : ev'.status = .written) : ev'.levId = db.event.lastKey + 1 := by
  cases h with
  | duplicate | deleted | replaced => cases hs
  | written => rfl

theorem WriteOutcome.levId_gt (h : WriteOutcome filters prevId db ev db' ev')
    (hs : ev'.status = .written) {r : Nat × PackedEvent} (hr : r ∈ db.event.rows) :
    r.1 < ev'.levId := by
  rw [h.levId_eq hs]
  exact Nat.lt_succ_of_le (Table.le_lastKey hr)

/-- An insertion comes before the removals it causes, so levIds are not used again. -/
theorem WriteOutcome.lastKey_le (h : WriteOutcome filters prevId db ev db' ev') :
    db.event.lastKey ≤ db'.event.lastKey := by
  by_cases hs : ev'.status = .written
  · have hmem : (ev'.levId, ev.packed) ∈ db'.event.rows := (h.mem_rows hs).2 (Or.inl rfl)
    have hle := Table.le_lastKey hmem
    rw [h.levId_eq hs] at hle
    exact (Nat.le_succ _).trans hle
  · rw [h.eq_of_not_written hs]

theorem WriteOutcome.gt_lastKey (h : WriteOutcome filters prevId db ev db' ev')
    {r : Nat × PackedEvent} (hr : r ∈ db'.event.rows) (hnew : r ∉ db.event.rows) :
    db.event.lastKey < r.1 := by
  by_cases hs : ev'.status = .written
  · rcases (h.mem_rows hs).1 hr with rfl | ⟨hold, -⟩
    · exact (h.levId_eq hs).symm ▸ Nat.lt_succ_self _
    · exact absurd hold hnew
  · exact absurd (h.eq_of_not_written hs ▸ hr) hnew

/-- The payloads after a write. -/
theorem WriteOutcome.payload (h : WriteOutcome filters prevId db ev db' ev')
    (hs : ev'.status = .written) {r : Nat × PackedEvent} (hr : r ∈ db'.event.rows) :
    db'.eventPayload.get? r.1 =
      if r.1 = ev'.levId then some (0 :: ev.jsonStr) else db.eventPayload.get? r.1 := by
  cases h with
  | duplicate | deleted | replaced => cases hs
  | written => rw [Db.payload_deleteLoop_of_mem hr, Db.payload_insertEvent]

/-- The step lemma. -/
theorem WriteOutcome.storeInv (h : WriteOutcome filters prevId db ev db' ev')
    (hinv : StoreInv db.toStore) (hw : WellPacked ev.packed) : StoreInv db'.toStore := by
  cases h with
  | duplicate | deleted | replaced => exact hinv
  | written toDelete hfresh hnodel hbeats htgt =>
    have hout : WriteOutcome filters prevId db ev _ _ :=
      .written toDelete hfresh hnodel hbeats htgt
    have hrows := fun r => hout.mem_rows rfl (r := r)
    refine ⟨?_, ?_, ?_, ?_, ?_⟩
    · intro r hr
      rcases (hrows r).1 hr with rfl | ⟨hr, -⟩
      · exact hw
      · exact hinv.wellPacked r hr
    · intro a b ha hb hid
      rcases (hrows a).1 ha with rfl | ⟨ha, -⟩ <;> rcases (hrows b).1 hb with rfl | ⟨hb, -⟩
      · rfl
      · exact absurd hid.symm (hfresh b hb)
      · exact absurd hid (hfresh a ha)
      · exact hinv.uniqueIds a b ha hb hid
    · intro a b ha hb hs
      rcases (hrows a).1 ha with rfl | ⟨ha, hna⟩ <;> rcases (hrows b).1 hb with rfl | ⟨hb, hnb⟩
      · rfl
      · exact absurd (Or.inr ⟨hs, hbeats b hb hs⟩) hnb
      · exact absurd (Or.inr ⟨hs.symm, hbeats a ha hs.symm⟩) hna
      · exact hinv.uniqueAddress a b ha hb hs
    · intro d e hd he hne hdel
      rcases (hrows d).1 hd with rfl | ⟨hd, -⟩ <;> rcases (hrows e).1 he with rfl | ⟨he, hnot⟩
      · exact hne rfl
      · exact hnot (Or.inl hdel)
      · exact hnodel d hd hdel
      · exact hinv.noDeleted d e hd he hne hdel
    · exact (PayloadInStep.insertEvent hinv.payload _ _).deleteLoop toDelete

end Iteration

/-! ## The loop over a batch -/

/-- A batch is handled iteration by iteration, each with one of the four outcomes. -/
inductive WriteRun (ord : IndexOrder) (filters : List FilterInfo) :
    Option Bytes → Db → List EventToWrite → Db → List EventToWrite → Prop
  | nil (prevId : Option Bytes) (db : Db) : WriteRun ord filters prevId db [] db []
  | cons {prevId : Option Bytes} {db db₁ db' : Db} {ev ev' : EventToWrite}
      {rest rest' : List EventToWrite} :
      writeOne ord filters prevId db [] ev = .ok (db₁, [], ev') →
      WriteOutcome filters prevId db ev db₁ ev' →
      WriteRun ord filters (some ev.packed.id) db₁ rest db' rest' →
      WriteRun ord filters prevId db (ev :: rest) db' (ev' :: rest')

/-- The events that `writeEvents` is called with. -/
def Submitted (hex : HexCodec) (evs : List EventToWrite) : Prop :=
  ∀ ev ∈ evs, ev.status = .pending ∧ FromJson hex ev.packed

/-- What the iterations need of them. -/
def Writable (evs : List EventToWrite) : Prop :=
  ∀ ev ∈ evs, ev.status = .pending ∧ WellPacked ev.packed

theorem Submitted.writable {hex : HexCodec} {evs : List EventToWrite} (h : Submitted hex evs) :
    Writable evs :=
  fun ev hev => ⟨(h ev hev).1, wellPacked_of_fromJson (h ev hev).2⟩

theorem Writable.perm {evs evs' : List EventToWrite} (h : Writable evs) (hp : evs'.Perm evs) :
    Writable evs' :=
  fun ev hev => h ev (hp.mem_iff.1 hev)

/-- The id of the last event of `pre`, or `prevId` if there is none. -/
def lastId (prevId : Option Bytes) (pre : List EventToWrite) : Option Bytes :=
  pre.foldl (fun _ ev => some ev.packed.id) prevId

section Batch

variable {ord : IndexOrder} {filters : List FilterInfo} {prevId : Option Bytes} {db db' : Db}
  {evs evs' : List EventToWrite}

/-- The loop ends without an exception, and every iteration in it is one of the four outcomes. -/
theorem writeLoop_spec (ord : IndexOrder) (filters : List FilterInfo) (prevId : Option Bytes)
    (hinv : StoreInv db.toStore) (hw : Writable evs) :
    ∃ db' evs', writeLoop ord filters prevId db [] evs = .ok (db', evs') ∧
      WriteRun ord filters prevId db evs db' evs' := by
  induction evs generalizing prevId db with
  | nil => exact ⟨db, [], rfl, .nil prevId db⟩
  | cons ev rest ih =>
    obtain ⟨hp, hwp⟩ := hw ev (by simp)
    obtain ⟨db₁, ev', hone, hout⟩ := writeOne_spec ord filters prevId hinv hwp hp
    obtain ⟨db', rest', hrest, hrun⟩ := ih (some ev.packed.id) (hout.storeInv hinv hwp)
      (fun e he => hw e (by simp [he]))
    refine ⟨db', ev' :: rest', ?_, .cons hone hout hrun⟩
    rw [writeLoop, hone]
    simp only [bind, Except.bind, hrest]

theorem WriteRun.storeInv (h : WriteRun ord filters prevId db evs db' evs')
    (hinv : StoreInv db.toStore) (hw : Writable evs) : StoreInv db'.toStore := by
  induction h with
  | nil => exact hinv
  | @cons prevId db db₁ db' ev ev' rest rest' hone hout hrun ih =>
    exact ih (hout.storeInv hinv (hw ev (by simp)).2) (fun e he => hw e (by simp [he]))

/-- A run is determined by the loop. -/
theorem WriteRun.of_writeLoop (hinv : StoreInv db.toStore) (hw : Writable evs)
    (h : writeLoop ord filters prevId db [] evs = .ok (db', evs')) :
    WriteRun ord filters prevId db evs db' evs' := by
  obtain ⟨db₁, evs₁, hok, hrun⟩ := writeLoop_spec ord filters prevId hinv hw
  rw [h] at hok
  cases hok
  exact hrun

/-- One iteration of the loop over `sorted`: `ev` is handled on `db₁`, which leaves `db₂` and marks
the event as in `ev'`. -/
def BatchStep (ord : IndexOrder) (filters : List FilterInfo) (prevId : Option Bytes) (db : Db)
    (sorted : List EventToWrite) (db₁ : Db) (ev ev' : EventToWrite) (db₂ : Db) : Prop :=
  ∃ pre post pre', sorted = pre ++ ev :: post ∧
    writeLoop ord filters prevId db [] pre = .ok (db₁, pre') ∧
    writeOne ord filters (lastId prevId pre) db₁ [] ev = .ok (db₂, [], ev')

/-- The first iteration. -/
theorem BatchStep.head {db₁ : Db} {ev ev' : EventToWrite} {rest : List EventToWrite}
    (h : writeOne ord filters prevId db [] ev = .ok (db₁, [], ev')) :
    BatchStep ord filters prevId db (ev :: rest) db ev ev' db₁ :=
  ⟨[], rest, [], rfl, rfl, h⟩

/-- An iteration of the rest of the loop. -/
theorem BatchStep.tail {db₁ db₂ db₃ : Db} {ev₀ ev₀' ev ev' : EventToWrite}
    {rest : List EventToWrite}
    (h : writeOne ord filters prevId db [] ev₀ = .ok (db₁, [], ev₀'))
    (hs : BatchStep ord filters (some ev₀.packed.id) db₁ rest db₂ ev ev' db₃) :
    BatchStep ord filters prevId db (ev₀ :: rest) db₂ ev ev' db₃ := by
  obtain ⟨pre, post, pre', hsplit, hpre, hone⟩ := hs
  refine ⟨ev₀ :: pre, post, ev₀' :: pre', by rw [hsplit, List.cons_append], ?_, hone⟩
  rw [writeLoop, h]
  simp only [bind, Except.bind, hpre]

/-- Every iteration of a batch is one of the four outcomes, on a store with the invariant. -/
theorem BatchStep.spec {db₁ db₂ : Db} {ev ev' : EventToWrite} (hinv : StoreInv db.toStore)
    (hw : Writable evs) (h : BatchStep ord filters prevId db evs db₁ ev ev' db₂) :
    ev ∈ evs ∧ StoreInv db₁.toStore ∧ ∃ prev, WriteOutcome filters prev db₁ ev db₂ ev' := by
  obtain ⟨pre, post, pre', rfl, hpre, hone⟩ := h
  have hinv₁ : StoreInv db₁.toStore :=
    (WriteRun.of_writeLoop hinv (fun e he => hw e (by simp [he])) hpre).storeInv hinv
      (fun e he => hw e (by simp [he]))
  obtain ⟨hp, hwp⟩ := hw ev (by simp)
  obtain ⟨db₃, ev₃, hok, hout⟩ := writeOne_spec ord filters (lastId prevId pre) hinv₁ hwp hp
  rw [hone] at hok
  cases hok
  exact ⟨by simp, hinv₁, _, hout⟩

/-- The events of the batch afterwards are what the iterations leave. -/
theorem WriteRun.exists_step (h : WriteRun ord filters prevId db evs db' evs')
    (hinv : StoreInv db.toStore) (hw : Writable evs) {ev' : EventToWrite} (hev : ev' ∈ evs') :
    ∃ db₁ ev db₂, BatchStep ord filters prevId db evs db₁ ev ev' db₂ := by
  induction h with
  | nil => cases hev
  | @cons prevId db db₁ db' ev₀ ev₀' rest rest' hone hout hrun ih =>
    rcases List.mem_cons.1 hev with rfl | hev
    · exact ⟨_, _, _, .head hone⟩
    · obtain ⟨db₂, ev, db₃, hstep⟩ := ih (hout.storeInv hinv (hw ev₀ (by simp)).2)
        (fun e he => hw e (by simp [he])) hev
      exact ⟨_, _, _, .tail hone hstep⟩

/-- The row `r` is removed in an iteration that writes another event, of which it is a target. -/
def RemovedBy (ord : IndexOrder) (filters : List FilterInfo) (prevId : Option Bytes) (db : Db)
    (sorted : List EventToWrite) (r : Nat × PackedEvent) (w : EventToWrite) : Prop :=
  w.status = .written ∧ (w.levId, w.packed) ≠ r ∧ Targets w.packed r.2 ∧
    ∃ db₁ ev db₂, BatchStep ord filters prevId db sorted db₁ ev w db₂ ∧
      r ∈ db₁.event.rows ∧ r ∉ db₂.event.rows

theorem RemovedBy.tail {db₁ : Db} {ev₀ ev₀' w : EventToWrite} {rest : List EventToWrite}
    {r : Nat × PackedEvent} (h : writeOne ord filters prevId db [] ev₀ = .ok (db₁, [], ev₀'))
    (hr : RemovedBy ord filters (some ev₀.packed.id) db₁ rest r w) :
    RemovedBy ord filters prevId db (ev₀ :: rest) r w := by
  obtain ⟨hs, hne, ht, db₂, ev, db₃, hstep, hmem, hnot⟩ := hr
  exact ⟨hs, hne, ht, db₂, ev, db₃, hstep.tail h, hmem, hnot⟩

/-- Rows that a batch adds have levIds above those that were there. -/
theorem WriteRun.gt_lastKey (h : WriteRun ord filters prevId db evs db' evs')
    {r : Nat × PackedEvent} (hr : r ∈ db'.event.rows) (hnew : r ∉ db.event.rows) :
    db.event.lastKey < r.1 := by
  induction h with
  | nil => exact absurd hr hnew
  | @cons prevId db db₁ db' ev ev' rest rest' hone hout hrun ih =>
    by_cases hmem : r ∈ db₁.event.rows
    · exact hout.gt_lastKey hmem hnew
    · exact hout.lastKey_le.trans_lt (ih hr hmem)

/-- A stored row stays with its payload, or an event written later in the batch removes it. -/
theorem WriteRun.stored (h : WriteRun ord filters prevId db evs db' evs') {r : Nat × PackedEvent}
    (hr : r ∈ db.event.rows) :
    (r ∈ db'.event.rows ∧ db'.eventPayload.get? r.1 = db.eventPayload.get? r.1) ∨
      (r ∉ db'.event.rows ∧ ∃ w ∈ evs', RemovedBy ord filters prevId db evs r w) := by
  induction h with
  | nil => exact Or.inl ⟨hr, rfl⟩
  | @cons prevId db db₁ db' ev ev' rest rest' hone hout hrun ih =>
    have hlift : r ∈ db₁.event.rows → db₁.eventPayload.get? r.1 = db.eventPayload.get? r.1 →
        (r ∈ db'.event.rows ∧ db'.eventPayload.get? r.1 = db.eventPayload.get? r.1) ∨
          (r ∉ db'.event.rows ∧
            ∃ w ∈ ev' :: rest', RemovedBy ord filters prevId db (ev :: rest) r w) := by
      intro hmem hpay
      rcases ih hmem with ⟨hin, heq⟩ | ⟨hout', w, hw, hrem⟩
      · exact Or.inl ⟨hin, heq.trans hpay⟩
      · exact Or.inr ⟨hout', w, List.mem_cons_of_mem _ hw, hrem.tail hone⟩
    by_cases hs : ev'.status = .written
    · have hlt := hout.levId_gt hs hr
      have hne : (ev'.levId, ev'.packed) ≠ r := fun he => hlt.ne' (congrArg Prod.fst he)
      have hpacked := hout.event_eq.1
      by_cases ht : Targets ev.packed r.2
      · have hgone : r ∉ db₁.event.rows := by
          rw [hout.mem_rows hs]
          rintro (he | ⟨-, hnt⟩)
          · exact hlt.ne (congrArg Prod.fst he)
          · exact hnt ht
        refine Or.inr ⟨fun hin => ?_, ev', List.mem_cons_self, hs, hne, hpacked ▸ ht, _, _, _,
          .head hone, hr, hgone⟩
        exact ((Table.le_lastKey hr).trans hout.lastKey_le).not_gt (hrun.gt_lastKey hin hgone)
      · have hmem : r ∈ db₁.event.rows := (hout.mem_rows hs).2 (Or.inr ⟨hr, ht⟩)
        exact hlift hmem (by rw [hout.payload hs hmem, if_neg hlt.ne])
    · have hdb := hout.eq_of_not_written hs
      subst hdb
      exact hlift hr rfl

/-- The same of a row written by the batch. -/
theorem WriteRun.written (h : WriteRun ord filters prevId db evs db' evs') {w : EventToWrite}
    (hw : w ∈ evs') (hs : w.status = .written) :
    ((w.levId, w.packed) ∈ db'.event.rows ∧
        db'.eventPayload.get? w.levId = some (0 :: w.jsonStr)) ∨
      ((w.levId, w.packed) ∉ db'.event.rows ∧
        ∃ w' ∈ evs', RemovedBy ord filters prevId db evs (w.levId, w.packed) w') := by
  induction h with
  | nil => cases hw
  | @cons prevId db db₁ db' ev ev' rest rest' hone hout hrun ih =>
    rcases List.mem_cons.1 hw with rfl | hw
    · obtain ⟨hpacked, hjson⟩ := hout.event_eq
      have hmem : (w.levId, w.packed) ∈ db₁.event.rows :=
        (hout.mem_rows hs).2 (Or.inl (by rw [hpacked]))
      have hpay := hout.payload hs hmem
      rw [if_pos rfl, ← hjson] at hpay
      rcases hrun.stored hmem with ⟨hin, heq⟩ | ⟨hout', w', hw', hrem⟩
      · exact Or.inl ⟨hin, heq.trans hpay⟩
      · exact Or.inr ⟨hout', w', List.mem_cons_of_mem _ hw', hrem.tail hone⟩
    · rcases ih hw with hin | ⟨hout', w', hw', hrem⟩
      · exact Or.inl hin
      · exact Or.inr ⟨hout', w', List.mem_cons_of_mem _ hw', hrem.tail hone⟩

/-- Every row in the end was stored before or was written by the batch. -/
theorem WriteRun.mem_rows (h : WriteRun ord filters prevId db evs db' evs')
    {r : Nat × PackedEvent} (hr : r ∈ db'.event.rows) :
    r ∈ db.event.rows ∨ ∃ w ∈ evs', w.status = .written ∧ r = (w.levId, w.packed) := by
  induction h with
  | nil => exact Or.inl hr
  | @cons prevId db db₁ db' ev ev' rest rest' hone hout hrun ih =>
    rcases ih hr with hmem | ⟨w, hw, hs, heq⟩
    · by_cases hs : ev'.status = .written
      · rcases (hout.mem_rows hs).1 hmem with heq | ⟨hmem, -⟩
        · exact Or.inr ⟨ev', List.mem_cons_self, hs, by rw [heq, hout.event_eq.1]⟩
        · exact Or.inl hmem
      · exact Or.inl (hout.eq_of_not_written hs ▸ hmem)
    · exact Or.inr ⟨w, List.mem_cons_of_mem _ hw, hs, heq⟩

/-- The contents of an event to be written. -/
def EventToWrite.content (ev : EventToWrite) : PackedEvent × Bytes := (ev.packed, ev.jsonStr)

theorem WriteRun.contents (h : WriteRun ord filters prevId db evs db' evs') :
    evs'.map EventToWrite.content = evs.map EventToWrite.content := by
  induction h with
  | nil => rfl
  | cons hone hout hrun ih =>
    rw [List.map_cons, List.map_cons, ih, EventToWrite.content, hout.event_eq.1, hout.event_eq.2]
    rfl

end Batch

/-! ## The filters of the trees stay as they are -/

section Meta

variable {ord : IndexOrder} {filters : List FilterInfo} {db db' : Db}

/-- The counter and the filters are those of the other database. -/
def Db.SameFilters (db db' : Db) : Prop :=
  db'.modificationCounter = db.modificationCounter ∧ db'.negentropyFilter = db.negentropyFilter

theorem Db.sameFilters_deleteLoop (levIds : List Nat) (db : Db) :
    db.SameFilters (db.deleteLoop filters levIds).1 := by
  induction levIds generalizing db with
  | nil => exact ⟨rfl, rfl⟩
  | cons levId levIds ih =>
    rw [fst_deleteLoop_cons]
    have hone : db.SameFilters (db.deleteEvent filters levId) := by
      rw [deleteEvent]
      split
      · exact ⟨rfl, rfl⟩
      · exact ⟨rfl, rfl⟩
    exact ⟨(ih _).1.trans hone.1, (ih _).2.trans hone.2⟩

theorem Db.sameFilters_writeRun {prevId : Option Bytes} {evs evs' : List EventToWrite}
    (h : WriteRun ord filters prevId db evs db' evs') : db.SameFilters db' := by
  induction h with
  | nil => exact ⟨rfl, rfl⟩
  | @cons prevId db db₁ db' ev ev' rest rest' _ hout _ ih =>
    cases hout with
    | duplicate | deleted | replaced => exact ih
    | written toDelete =>
      have hone := @sameFilters_deleteLoop filters toDelete
        (db.insertEvent filters ev.packed ev.jsonStr).2
      exact ⟨ih.1.trans hone.1, ih.2.trans hone.2⟩

end Meta

/-! ## Runs of calls -/

/-- One transaction: a call of `writeEvents`, a call of `deleteEvents`, or one that leaves the
events alone. Each may come from a process with a cache of its own. -/
inductive StoreStep (ord : IndexOrder) (hex : HexCodec) (text : JsonText) : Db → Db → Prop
  | write (S : StdSort) (cache : NegentropyFilterCache) {db db' : Db}
      {evs evs' : List EventToWrite} : Submitted hex evs →
      (writeEvents S ord hex text cache db evs).2 = .ok (db', evs') →
      StoreStep ord hex text db db'
  | delete (cache : NegentropyFilterCache) {db db' : Db} {levIds : List Nat} {numDeleted : Nat} :
      (db.deleteEvents hex text cache levIds).2 = .ok (db', numDeleted) →
      StoreStep ord hex text db db'
  | negentropy {db db' : Db} : db'.toStore = db.toStore → StoreStep ord hex text db db'

/-- The databases reachable from the empty one. -/
def StoreReachable (ord : IndexOrder) (hex : HexCodec) (text : JsonText) (db : Db) : Prop :=
  Relation.ReflTransGen (StoreStep ord hex text) Db.init db

section Calls

variable {S : StdSort} {ord : IndexOrder} {hex : HexCodec} {text : JsonText}
  {cache : NegentropyFilterCache} {db db' : Db} {evs evs' : List EventToWrite}

/-- The filters that a call of `writeEvents` or `deleteEvents` works with. -/
def NegentropyFilterCache.current (hex : HexCodec) (text : JsonText) (db : Db)
    (cache : NegentropyFilterCache) : List FilterInfo :=
  (cache.freshen hex text db).1.filters

/-- A call that succeeds is a run of the loop with the current filters. -/
theorem writeEvents_eq_ok (h : (writeEvents S ord hex text cache db evs).2 = .ok (db', evs')) :
    writeLoop ord (cache.current hex text db) none db [] (S.sort EventToWrite.before evs) =
      .ok (db', evs') := by
  unfold writeEvents at h
  unfold NegentropyFilterCache.current
  split at h
  · cases h
  · rename_i cache' hfresh
    rw [hfresh]
    exact h

theorem deleteEvents_eq_ok {levIds : List Nat} {n : Nat}
    (h : (db.deleteEvents hex text cache levIds).2 = .ok (db', n)) :
    db' = (db.deleteLoop (cache.current hex text db) levIds).1 := by
  unfold Db.deleteEvents at h
  unfold NegentropyFilterCache.current
  split at h
  · cases h
  · rename_i cache' hfresh
    rw [hfresh]
    exact (congrArg Prod.fst (Except.ok.inj h)).symm

theorem writeEvents_run (hinv : StoreInv db.toStore) (hw : Writable evs)
    (h : (writeEvents S ord hex text cache db evs).2 = .ok (db', evs')) :
    WriteRun ord (cache.current hex text db) none db (S.sort EventToWrite.before evs) db' evs' :=
  .of_writeLoop hinv (hw.perm (S.perm _ _)) (writeEvents_eq_ok h)

theorem StoreStep.storeInv (h : StoreStep ord hex text db db') (hinv : StoreInv db.toStore) :
    StoreInv db'.toStore := by
  cases h with
  | write S cache hsub hok =>
    exact (writeEvents_run hinv hsub.writable hok).storeInv hinv
      (hsub.writable.perm (S.perm _ _))
  | delete cache hok =>
    rw [deleteEvents_eq_ok hok]
    exact hinv.deleteLoop _
  | negentropy heq =>
    rw [heq]
    exact hinv

theorem storeInv_empty : StoreInv Store.empty := by
  refine ⟨?_, ?_, ?_, ?_, ?_⟩ <;> simp [Store.empty, Store.UniqueIds]

/-- The run lemma: every reachable store satisfies the invariant. -/
theorem StoreReachable.storeInv (h : StoreReachable ord hex text db) : StoreInv db.toStore := by
  induction h with
  | refl => exact storeInv_empty
  | tail _ hstep ih => exact hstep.storeInv ih

/-- A call fails exactly when the filters of the trees do not compile; in particular no deletion
is ever left unprocessed. -/
theorem writeEvents_error_iff (hinv : StoreInv db.toStore) (hw : Writable evs) (e : Err) :
    (writeEvents S ord hex text cache db evs).2 = .error e ↔
      (cache.freshen hex text db).2 = .error e := by
  unfold writeEvents
  cases hfresh : cache.freshen hex text db with
  | mk cache' res =>
    cases res with
    | error e' => simp
    | ok u =>
      obtain ⟨db', evs', hok, -⟩ := writeLoop_spec ord cache'.filters none hinv
        (hw.perm (S.perm EventToWrite.before evs))
      simp [hok]

/-! ## What a call removes -/

/-- One iteration of a call of `writeEvents`. -/
def CallStep (S : StdSort) (ord : IndexOrder) (hex : HexCodec) (text : JsonText)
    (cache : NegentropyFilterCache) (db : Db) (evs : List EventToWrite) :
    Db → EventToWrite → EventToWrite → Db → Prop :=
  BatchStep ord (cache.current hex text db) none db (S.sort EventToWrite.before evs)

/-- The row is stored before the call, or the call writes it. -/
def StoredOrWritten (db : Db) (evs' : List EventToWrite) (r : Nat × PackedEvent) : Prop :=
  r ∈ db.event.rows ∨ ∃ w ∈ evs', w.status = .written ∧ r = (w.levId, w.packed)

/-- The effect of a call that takes `db` to `db'` and marks the batch as in `evs'`, where `step`
are its iterations. -/
structure RemovesOnlyTargets (db : Db) (evs : List EventToWrite)
    (step : Db → EventToWrite → EventToWrite → Db → Prop) (db' : Db) (evs' : List EventToWrite) :
    Prop where
  contents : (evs'.map EventToWrite.content).Perm (evs.map EventToWrite.content)
  /-- What is gone was removed in the iteration of another written event that targets it. -/
  removed : ∀ r, StoredOrWritten db evs' r → r ∉ db'.event.rows →
    ∃ w ∈ evs', w.status = .written ∧ (w.levId, w.packed) ≠ r ∧ Targets w.packed r.2 ∧
      ∃ db₁ ev db₂, step db₁ ev w db₂ ∧ r ∈ db₁.event.rows ∧ r ∉ db₂.event.rows
  /-- An iteration that writes removes every stored target. -/
  targets : ∀ db₁ ev w db₂, step db₁ ev w db₂ → w.status = .written →
    ∀ r ∈ db₁.event.rows, Targets w.packed r.2 → r ∉ db₂.event.rows
  /-- The other events keep their rows and payloads, and there are no others. -/
  kept : ∀ r, StoredOrWritten db evs' r →
    (∀ db₁ ev w db₂, step db₁ ev w db₂ → w.status = .written → r ∈ db₁.event.rows →
      ¬ Targets w.packed r.2) → r ∈ db'.event.rows
  payload_stored : ∀ r ∈ db.event.rows, r ∈ db'.event.rows →
    db'.eventPayload.get? r.1 = db.eventPayload.get? r.1
  payload_written : ∀ w ∈ evs', w.status = .written → (w.levId, w.packed) ∈ db'.event.rows →
    db'.eventPayload.get? w.levId = some (0 :: w.jsonStr)
  only : ∀ r ∈ db'.event.rows, StoredOrWritten db evs' r

/-- In an iteration, no row survives of which the written event is a removal. -/
theorem BatchStep.not_mem_of_targets {filters : List FilterInfo} {prevId : Option Bytes}
    {db₁ db₂ : Db} {ev w : EventToWrite} (hinv : StoreInv db.toStore) (hw : Writable evs)
    (h : BatchStep ord filters prevId db evs db₁ ev w db₂) (hs : w.status = .written)
    {r : Nat × PackedEvent} (hr : r ∈ db₁.event.rows) (ht : Targets w.packed r.2) :
    r ∉ db₂.event.rows := by
  obtain ⟨-, -, prev, hout⟩ := h.spec hinv hw
  rw [hout.mem_rows hs]
  rintro (he | ⟨-, hnt⟩)
  · exact (hout.levId_gt hs hr).ne (congrArg Prod.fst he)
  · exact hnt (hout.event_eq.1 ▸ ht)

/-- `writeEvents` removes only what it is entitled to remove, and never throws
"unprocessed deletion". -/
theorem writeEvents_removes_only_targets (hreach : StoreReachable ord hex text db)
    (hsub : Submitted hex evs) :
    (∀ e, (writeEvents S ord hex text cache db evs).2 = .error e ↔
      (cache.freshen hex text db).2 = .error e) ∧
    ∀ db' evs', (writeEvents S ord hex text cache db evs).2 = .ok (db', evs') →
      RemovesOnlyTargets db evs (CallStep S ord hex text cache db evs) db' evs' := by
  have hinv := hreach.storeInv
  refine ⟨writeEvents_error_iff hinv hsub.writable, fun db' evs' hok => ?_⟩
  have hsorted : Writable (S.sort EventToWrite.before evs) := hsub.writable.perm (S.perm _ _)
  have hrun := writeEvents_run hinv hsub.writable hok
  -- every row stored or written stays or is removed by a batch event
  have hcases : ∀ r, StoredOrWritten db evs' r → r ∈ db'.event.rows ∨
      ∃ w ∈ evs', RemovedBy ord (cache.current hex text db) none db
        (S.sort EventToWrite.before evs) r w := by
    rintro r (hr | ⟨w, hw, hs, rfl⟩)
    · exact (hrun.stored hr).imp And.left And.right
    · exact (hrun.written hw hs).imp And.left And.right
  refine ⟨?_, ?_, ?_, ?_, ?_, ?_, fun r hr => hrun.mem_rows hr⟩
  · rw [hrun.contents]
    exact (S.perm _ _).map _
  · intro r hr hnot
    rcases hcases r hr with hin | ⟨w, hw, hs, hne, ht, hstep⟩
    · exact absurd hin hnot
    · exact ⟨w, hw, hs, hne, ht, hstep⟩
  · intro db₁ ev w db₂ hstep hs r hr ht
    exact BatchStep.not_mem_of_targets hinv hsorted hstep hs hr ht
  · intro r hr hno
    rcases hcases r hr with hin | ⟨w, hw, hs, hne, ht, db₁, ev, db₂, hstep, hmem, -⟩
    · exact hin
    · exact absurd ht (hno db₁ ev w db₂ hstep hs hmem)
  · intro r hr hin
    rcases hrun.stored hr with ⟨-, hpay⟩ | ⟨hnot, -⟩
    · exact hpay
    · exact absurd hin hnot
  · intro w hw hs hin
    rcases hrun.written hw hs with ⟨-, hpay⟩ | ⟨hnot, -⟩
    · exact hpay
    · exact absurd hin hnot

/-- Two profiles of one author, the newer one first. -/
def twoProfiles : List EventToWrite :=
  [⟨repeatedEvent 2 9 20 0, [], .pending, 0, 0⟩, ⟨repeatedEvent 1 9 10 0, [], .pending, 0, 0⟩]

theorem submitted_twoProfiles : Submitted hexCodec twoProfiles := by
  intro ev hev
  rcases List.mem_cons.1 hev with rfl | hev
  · exact ⟨rfl, fromJson_plainEvent _ _ _ _ _ _⟩
  · rw [List.mem_singleton] at hev
    subst hev
    exact ⟨rfl, fromJson_plainEvent _ _ _ _ _ _⟩

/-- Both are written, and the second removes the first. -/
theorem writeEvents_removes_older_profile :
    Submitted hexCodec twoProfiles ∧ ∃ db' evs',
      (writeEvents .insertion byteOrder hexCodec emptyObjectText {} Db.init twoProfiles).2 =
        .ok (db', evs') ∧
      (db'.event.rows.map Prod.fst = [2] ∧ evs'.map EventToWrite.status = [.written, .written]) ∧
      RemovesOnlyTargets Db.init twoProfiles
        (CallStep .insertion byteOrder hexCodec emptyObjectText {} Db.init twoProfiles) db' evs' := by
  have heval : ((writeEvents .insertion byteOrder hexCodec emptyObjectText {} Db.init
      twoProfiles).2.map fun r => (r.1.event.rows.map Prod.fst, r.2.map EventToWrite.status)) =
        .ok ([2], [.written, .written]) := by decide +kernel
  obtain ⟨⟨db', evs'⟩, hok, heq⟩ := map_eq_ok.1 heval
  rw [Prod.mk.injEq] at heq
  exact ⟨submitted_twoProfiles, db', evs', hok, heq,
    (writeEvents_removes_only_targets .refl submitted_twoProfiles).2 db' evs' hok⟩

/-! ## Stored deletions -/

/-- A stored deletion wins over the events it lists, in any order of arrival, and an event is
refused as deleted only on account of a stored deletion. -/
theorem stored_deletion_wins (hreach : StoreReachable ord hex text db) :
    (∀ d e : Nat × PackedEvent, d ∈ db.event.rows → e ∈ db.event.rows → d ≠ e →
      ¬ Deletes d.2 e.2) ∧
    ∀ (S : StdSort) (cache : NegentropyFilterCache) (evs evs' : List EventToWrite) (db' : Db),
      Submitted hex evs → (writeEvents S ord hex text cache db evs).2 = .ok (db', evs') →
      ∀ e ∈ evs', e.status = .deleted →
        ∃ db₁ ev db₂, CallStep S ord hex text cache db evs db₁ ev e db₂ ∧
          ∃ d ∈ db₁.event.rows, Deletes d.2 e.packed := by
  have hinv := hreach.storeInv
  refine ⟨hinv.noDeleted, ?_⟩
  intro S cache evs evs' db' hsub hok e he hs
  have hsorted : Writable (S.sort EventToWrite.before evs) := hsub.writable.perm (S.perm _ _)
  obtain ⟨db₁, ev, db₂, hstep⟩ :=
    (writeEvents_run hinv hsub.writable hok).exists_step hinv hsorted he
  refine ⟨db₁, ev, db₂, hstep, ?_⟩
  obtain ⟨-, -, prev, hout⟩ := hstep.spec hinv hsorted
  cases hout with
  | deleted hfresh hdel => exact hdel
  | duplicate | replaced | written => cases hs

/-- A note. -/
def note : EventToWrite :=
  ⟨repeatedEvent 1 9 20 1, [], .pending, 0, 0⟩

/-- Two notes of one author, the newer one first. -/
def twoNotes : List EventToWrite :=
  [⟨repeatedEvent 1 9 20 1, [], .pending, 0, 0⟩, ⟨repeatedEvent 2 9 10 1, [], .pending, 0, 0⟩]

theorem submitted_twoNotes : Submitted hexCodec twoNotes := by
  intro ev hev
  rcases List.mem_cons.mp hev with rfl | hev
  · exact ⟨rfl, fromJson_plainEvent _ _ _ _ _ _⟩
  · rcases List.mem_singleton.mp hev with rfl
    exact ⟨rfl, fromJson_plainEvent _ _ _ _ _ _⟩

/-- A deletion of it by its author, with an earlier timestamp. -/
def noteDeletion : PackedEvent :=
  { repeatedEvent 7 9 5 5 with
    tags := [(tagE, List.replicate 32 1)]
    tags_size := by simp }

def noteDeletionJson : Json :=
  .object [(ascii "content", .string []), (ascii "created_at", .unsigned 5),
    (ascii "id", .string (encodeHex (List.replicate 32 7))), (ascii "kind", .unsigned 5),
    (ascii "pubkey", .string (encodeHex (List.replicate 32 9))),
    (ascii "tags", .array [.array [.string (ascii "e"),
      .string (encodeHex (List.replicate 32 1))]])]

theorem submitted_noteDeletion : Submitted hexCodec [⟨noteDeletion, [], .pending, 0, 0⟩, note] := by
  intro ev hev
  rcases List.mem_cons.1 hev with rfl | hev
  · exact ⟨rfl, EventsConfig.default, noteDeletionJson, by decide +kernel⟩
  · rw [List.mem_singleton] at hev
    subst hev
    exact ⟨rfl, fromJson_plainEvent _ _ _ _ _ _⟩

/-- In one batch the deletion is written and the note refused. -/
theorem stored_deletion_wins_of_batch :
    ∃ db, StoreReachable byteOrder hexCodec emptyObjectText db ∧
      db.event.rows.map (fun r => r.2.kind) = [5] ∧
      (∀ d e : Nat × PackedEvent, d ∈ db.event.rows → e ∈ db.event.rows → d ≠ e →
        ¬ Deletes d.2 e.2) ∧
      ∃ e₁ e₂ : EventToWrite, (writeEvents .insertion byteOrder hexCodec emptyObjectText {} Db.init
          [⟨noteDeletion, [], .pending, 0, 0⟩, note]).2 = .ok (db, [e₁, e₂]) ∧
        e₂.status = .deleted ∧
        ∃ db₁ ev db₂, CallStep .insertion byteOrder hexCodec emptyObjectText {} Db.init
          [⟨noteDeletion, [], .pending, 0, 0⟩, note] db₁ ev e₂ db₂ ∧
          ∃ d ∈ db₁.event.rows, Deletes d.2 e₂.packed := by
  have heval : ((writeEvents .insertion byteOrder hexCodec emptyObjectText {} Db.init
      [⟨noteDeletion, [], .pending, 0, 0⟩, note]).2.map fun r =>
        (r.1.event.rows.map (fun r => r.2.kind), r.2.map EventToWrite.status)) =
        .ok ([5], [.written, .deleted]) := by decide +kernel
  obtain ⟨⟨db', evs'⟩, hok, heq⟩ := map_eq_ok.1 heval
  rw [Prod.mk.injEq] at heq
  obtain ⟨hkinds, hstatus⟩ := heq
  obtain ⟨e₁, e₂, rfl⟩ : ∃ e₁ e₂, evs' = [e₁, e₂] := by
    have hlen := congrArg List.length hstatus
    rw [List.length_map] at hlen
    exact List.length_eq_two.1 hlen
  have hdel : e₂.status = .deleted := (by simpa using hstatus : _ ∧ _).2
  have hreach : StoreReachable byteOrder hexCodec emptyObjectText db' :=
    .single (.write .insertion {} submitted_noteDeletion hok)
  exact ⟨db', hreach, hkinds, (stored_deletion_wins hreach).1, e₁, e₂, hok, hdel,
    (stored_deletion_wins .refl).2 .insertion {} _ _ db' submitted_noteDeletion hok e₂ (by simp)
      hdel⟩

end Calls

end Strfry
