import Strfry.Writer

/-!
# Positive acknowledgements

`writeEvents` marks an event as a duplicate if its id is stored, or if the event before it in the
sorted batch has the same id. The second test does not ask what became of that event: when it was
refused, the copy is called a duplicate of an event that is nowhere. This is the only way in which
an acknowledgement of the writer can be wrong.
-/

set_option autoImplicit false

namespace Strfry

open Lib

/-- An event with the id is stored. -/
def Store.HasId (st : Store) (id : Bytes) : Prop := ∃ r ∈ st.event.rows, r.2.id = id

/-- The event is refused on this store: a stored deletion lists it, or a stored event of the same
address beats it. -/
def Store.Refuses (st : Store) (p : PackedEvent) : Prop :=
  ¬ st.HasId p.id ∧ ((∃ r ∈ st.event.rows, Deletes r.2 p) ∨
    ∃ r ∈ st.event.rows, SameAddress p r.2 ∧ beats p r.2 = false)

/-- Two neighbours of the sorted batch have the same id, and the first is refused on the store
that the loop has reached. -/
def RefusedThenRepeated (ord : IndexOrder) (filters : List FilterInfo) (prevId : Option Bytes)
    (db : Db) (sorted : List EventToWrite) : Prop :=
  ∃ pre ev next post db₁ pre', sorted = pre ++ ev :: next :: post ∧
    writeLoop ord filters prevId db [] pre = .ok (db₁, pre') ∧
    next.packed.id = ev.packed.id ∧ db₁.Refuses ev.packed

/-! ## The loop -/

section Loop

variable {ord : IndexOrder} {filters : List FilterInfo} {prevId : Option Bytes} {db db₁ db' : Db}
  {ev ev' : EventToWrite} {evs evs' : List EventToWrite}

theorem WriteOutcome.hasId_or_refuses (h : WriteOutcome filters prevId db ev db₁ ev')
    (hprev : prevId = some ev.packed.id → db.HasId ev.packed.id) :
    db₁.HasId ev.packed.id ∨ (db.Refuses ev.packed ∧ db₁ = db) := by
  cases h with
  | duplicate hdup =>
    left
    rcases hdup with hid | hid
    · exact hid
    · exact hprev hid
  | deleted hfresh hdel =>
    right
    exact ⟨⟨fun ⟨r, hr, hid⟩ => hfresh r hr hid, Or.inl hdel⟩, rfl⟩
  | replaced r hfresh hr hsame hb =>
    right
    exact ⟨⟨fun ⟨r', hr', hid⟩ => hfresh r' hr' hid, Or.inr ⟨r, hr, hsame, hb⟩⟩, rfl⟩
  | written toDelete hfresh hnodel hbeats htargets =>
    left
    have hout : WriteOutcome filters prevId db ev _ _ :=
      .written toDelete hfresh hnodel hbeats htargets
    refine ⟨(db.event.lastKey + 1, ev.packed), ?_, rfl⟩
    exact (hout.mem_rows rfl).2 (Or.inl rfl)

/-- On a refused event an iteration changes nothing. -/
theorem WriteOutcome.eq_of_refuses (h : WriteOutcome filters prevId db ev db₁ ev')
    (hr : db.Refuses ev.packed) : db₁ = db := by
  cases h with
  | duplicate | deleted | replaced => rfl
  | written toDelete hfresh hnodel hbeats htargets =>
    obtain ⟨-, ⟨r, hr, hdel⟩ | ⟨r, hr, hsame, hb⟩⟩ := hr
    · exact absurd hdel (hnodel r hr)
    · rw [hbeats r hr hsame] at hb
      cases hb

/-- A run and one more iteration. -/
theorem WriteRun.concat (h : WriteRun ord filters prevId db evs db₁ evs')
    (hone : writeOne ord filters (lastId prevId evs) db₁ [] ev = .ok (db', [], ev')) :
    writeLoop ord filters prevId db [] (evs ++ [ev]) = .ok (db', evs' ++ [ev']) := by
  induction h with
  | nil =>
    rw [List.nil_append, writeLoop]
    change writeOne ord filters _ _ [] ev = _ at hone
    rw [lastId, List.foldl_nil] at hone
    simp only [bind, Except.bind, hone]
    rfl
  | @cons prevId db db₂ db₁ ev₀ ev₀' rest rest' hone₀ hout hrun ih =>
    rw [List.cons_append, writeLoop, hone₀]
    simp only [bind, Except.bind, ih hone]
    rfl

/-- A repetition of the id before it is marked as a duplicate, whatever is stored. -/
theorem writeOne_repeated (ord : IndexOrder) (filters : List FilterInfo) (db : Db)
    (toDelete : List Nat) (ev : EventToWrite) :
    writeOne ord filters (some ev.packed.id) db toDelete ev =
      .ok (db, toDelete, { ev with status := .duplicate }) := by
  rw [writeOne, if_pos (by simp)]

/-- Every iteration that marks an event as a duplicate finds its id in the store. -/
def DuplicatesStored (step : Db → EventToWrite → EventToWrite → Db → Prop) : Prop :=
  ∀ db₁ ev ev' db₂, step db₁ ev ev' db₂ → ev'.status = .duplicate → db₁.HasId ev'.packed.id

theorem RefusedThenRepeated.tail {rest : List EventToWrite}
    (hone : writeOne ord filters prevId db [] ev = .ok (db₁, [], ev'))
    (h : RefusedThenRepeated ord filters (some ev.packed.id) db₁ rest) :
    RefusedThenRepeated ord filters prevId db (ev :: rest) := by
  obtain ⟨pre, a, b, post, db₂, pre', rfl, hpre, hid, href⟩ := h
  refine ⟨ev :: pre, a, b, post, db₂, ev' :: pre', rfl, ?_, hid, href⟩
  rw [writeLoop, hone]
  simp only [bind, Except.bind, hpre]

/-- Without a refused event that is repeated, duplicates are stored. The induction carries that the
id before the first event is stored if that event repeats it. -/
theorem WriteRun.duplicate_hasId (h : WriteRun ord filters prevId db evs db' evs')
    (hno : ¬ RefusedThenRepeated ord filters prevId db evs)
    (hprev : ∀ ev ∈ evs.head?, prevId = some ev.packed.id → db.HasId ev.packed.id) :
    DuplicatesStored (BatchStep ord filters prevId db evs) := by
  induction h with
  | nil =>
    rintro db₁ ev ev' db₂ ⟨pre, post, pre', hsplit, -⟩
    simp at hsplit
  | @cons prevId db db₁ db' ev₀ ev₀' rest rest' hone hout hrun ih =>
    have hprev₀ := hprev ev₀ rfl
    have hrest : DuplicatesStored (BatchStep ord filters (some ev₀.packed.id) db₁ rest) := by
      apply ih (fun h => hno (h.tail hone))
      intro ev hev heq
      rcases hout.hasId_or_refuses hprev₀ with hid | ⟨href, -⟩
      · rw [← Option.some.inj heq]
        exact hid
      · -- the event before was refused, and is repeated
        obtain ⟨post, rfl⟩ := List.head?_eq_some_iff.1 hev
        exact absurd ⟨[], ev₀, ev, post, db, [], rfl, rfl, (Option.some.inj heq).symm, href⟩ hno
    rintro db₂ ev ev' db₃ ⟨pre, post, pre', hsplit, hpre, hev⟩ hdup
    cases pre with
    | nil =>
      cases hsplit
      cases hpre
      change writeOne ord filters prevId db [] ev₀ = .ok (db₃, [], ev') at hev
      rw [hone] at hev
      cases hev
      cases hout with
      | duplicate hid =>
        rcases hid with hid | hid
        · exact hid
        · exact hprev₀ hid
      | deleted | replaced | written => cases hdup
    | cons a pre =>
      cases hsplit
      rw [writeLoop, hone] at hpre
      obtain ⟨_, heq, hloop⟩ := bind_eq_ok.1 hpre
      cases heq
      obtain ⟨⟨db₄, pre₄⟩, hrec, heq⟩ := bind_eq_ok.1 hloop
      cases heq
      exact hrest db₂ ev ev' db₃ ⟨pre, post, pre₄, rfl, hrec, hev⟩ hdup

/-- A refused event that is repeated has a copy that is wrongly marked as a duplicate. -/
theorem RefusedThenRepeated.wrong (hinv : StoreInv db.toStore) (hw : Writable evs)
    (h : RefusedThenRepeated ord filters prevId db evs) :
    ¬ DuplicatesStored (BatchStep ord filters prevId db evs) := by
  obtain ⟨pre, ev, next, post, db₁, pre', rfl, hpre, hid, href⟩ := h
  intro hall
  have hwpre : Writable pre := fun e he => hw e (by simp [he])
  have hrun := WriteRun.of_writeLoop hinv hwpre hpre
  obtain ⟨hp, hwp⟩ := hw ev (by simp)
  obtain ⟨db₂, ev₂, hone, hout⟩ := writeOne_spec ord filters (lastId prevId pre)
    (hrun.storeInv hinv hwpre) hwp hp
  rw [hout.eq_of_refuses href] at hone
  have hnext := writeOne_repeated ord filters db₁ [] next
  have hlast : lastId prevId (pre ++ [ev]) = some next.packed.id := by
    rw [lastId, List.foldl_append, hid]
    rfl
  apply href.1
  rw [← hid]
  refine hall db₁ next { next with status := .duplicate } db₁ ?_ rfl
  refine ⟨pre ++ [ev], post, pre' ++ [ev₂], by simp, hrun.concat hone, ?_⟩
  rw [hlast]
  exact hnext

end Loop

/-! ## The replies of the writer -/

/-- A success on a promise, or an OK reply that says the event is written. -/
def Reply.positive : Reply → Bool
  | .setValue result => result.success
  | .okResponse _ _ written _ => written
  | .noticeError _ _ => false

/-- The id of the event that a reply is about. -/
def Reply.eventIdHex : Reply → Bytes
  | .setValue result => result.eventId
  | .okResponse _ eventIdHex _ _ => eventIdHex
  | .noticeError _ _ => []

/-- The events lead to their messages. -/
def Linked (adds : List AddEvent) (evs : List EventToWrite) : Prop :=
  ∀ ev ∈ evs, ∃ msg, adds[ev.userData]? = some msg ∧ msg.packed = ev.packed

/-- The events that `runWriter` hands to `writeEvents` lead to their messages. -/
theorem linked_prepare (P : WritePolicy) (pre adds : List AddEvent) :
    Linked (pre ++ adds) (prepare P pre.length adds).1 := by
  induction adds generalizing pre with
  | nil => exact nofun
  | cons msg rest ih =>
    have hrest := ih (pre ++ [msg])
    rw [List.append_assoc, List.singleton_append, List.length_append, List.length_singleton] at hrest
    rw [prepare]
    split
    · intro ev hev
      rcases List.mem_cons.1 hev with rfl | hev
      · exact ⟨msg, by simp, rfl⟩
      · exact hrest ev hev
    · exact hrest

/-- A row with the id was removed in an iteration that writes another event of the batch. -/
def RemovedByBatch (step : Db → EventToWrite → EventToWrite → Db → Prop)
    (evs' : List EventToWrite) (id : Bytes) : Prop :=
  ∃ r : Nat × PackedEvent, r.2.id = id ∧ ∃ w ∈ evs', w.status = .written ∧
    (w.levId, w.packed) ≠ r ∧
      ∃ db₁ ev db₂, step db₁ ev w db₂ ∧ r ∈ db₁.event.rows ∧ r ∉ db₂.event.rows

/-- The acknowledgements of a call of `writeEvents` that leaves `db'` and marks the batch `evs` as
in `evs'`, where `step` are its iterations. -/
structure AcknowledgementsTrue (step : Db → EventToWrite → EventToWrite → Db → Prop)
    (evs : List EventToWrite) (db' : Db) (evs' : List EventToWrite) : Prop where
  duplicate : DuplicatesStored step
  written : ∀ db₁ ev ev' db₂, step db₁ ev ev' db₂ → ev'.status = .written →
    (ev'.levId, ev'.packed) ∉ db₁.event.rows ∧ (ev'.levId, ev'.packed) ∈ db₂.event.rows
  /-- What the writer acknowledges is in the committed store, or another written event of the batch
  has removed it. -/
  positive : ∀ adds, Linked adds evs → ∀ token reply,
    .sent token reply ∈ writeResults adds evs' → reply.positive = true →
    ∃ id, reply.eventIdHex = encodeHex id ∧ (db'.HasId id ∨ RemovedByBatch step evs' id)

section Replies

variable {S : StdSort} {ord : IndexOrder} {hex : HexCodec} {text : JsonText}
  {cache : NegentropyFilterCache} {db db' : Db} {evs evs' : List EventToWrite}

theorem WriteRun.links {filters : List FilterInfo} {prevId : Option Bytes}
    (h : WriteRun ord filters prevId db evs db' evs') :
    evs'.map (fun ev => (ev.packed, ev.userData)) =
      evs.map fun ev => (ev.packed, ev.userData) := by
  induction h with
  | nil => rfl
  | cons hone hout hrun ih =>
    rw [List.map_cons, List.map_cons, ih]
    cases hout <;> rfl

/-- The marks of the first events of a batch. -/
theorem WriteRun.split {filters : List FilterInfo} {prevId : Option Bytes}
    {pre rest pre' : List EventToWrite} {db₁ : Db}
    (h : WriteRun ord filters prevId db (pre ++ rest) db' evs')
    (hpre : writeLoop ord filters prevId db [] pre = .ok (db₁, pre')) :
    ∃ rest', evs' = pre' ++ rest' := by
  induction pre generalizing prevId db pre' evs' with
  | nil =>
    cases hpre
    exact ⟨evs', rfl⟩
  | cons ev pre ih =>
    cases h with
    | cons hone hout hrun =>
      rw [writeLoop, hone] at hpre
      obtain ⟨_, heq, hloop⟩ := bind_eq_ok.1 hpre
      cases heq
      obtain ⟨⟨db₂, pre₂⟩, hrec, heq⟩ := bind_eq_ok.1 hloop
      cases heq
      obtain ⟨rest', rfl⟩ := ih hrun hrec
      exact ⟨rest', rfl⟩

/-- A row that is there at some point of the loop stays to the end, or an event of the batch
removes it. -/
theorem WriteRun.stored_at {filters : List FilterInfo} {prevId : Option Bytes}
    (h : WriteRun ord filters prevId db evs db' evs') (hinv : StoreInv db.toStore)
    (hw : Writable evs) {db₁ db₂ : Db} {ev ev' : EventToWrite}
    (hstep : BatchStep ord filters prevId db evs db₁ ev ev' db₂) {r : Nat × PackedEvent}
    (hr : r ∈ db₁.event.rows) :
    r ∈ db'.event.rows ∨ ∃ w ∈ evs', RemovedBy ord filters prevId db evs r w := by
  obtain ⟨pre, post, pre', rfl, hpre, -⟩ := hstep
  have hrun := WriteRun.of_writeLoop hinv (fun e he => hw e (by simp [he])) hpre
  rcases hrun.mem_rows hr with hold | ⟨w, hmem, hs, rfl⟩
  · exact (h.stored hold).imp And.left And.right
  · obtain ⟨rest', rfl⟩ := h.split hpre
    exact (h.written (List.mem_append_left _ hmem) hs).imp And.left And.right

theorem Linked.of_links {adds : List AddEvent} (h : Linked adds evs)
    (heq : ∀ ev' ∈ evs', ∃ ev ∈ evs, (ev.packed, ev.userData) = (ev'.packed, ev'.userData)) :
    Linked adds evs' := by
  intro ev' hev'
  obtain ⟨ev, hev, hlink⟩ := heq ev' hev'
  obtain ⟨hp, hu⟩ := Prod.mk.inj hlink
  rw [← hp, ← hu]
  exact h ev hev

/-- A positive reply after the commit is about an event marked as written or as a duplicate. -/
theorem positive_writeResults {adds : List AddEvent} (hlink : Linked adds evs') {token : Nat}
    {reply : Reply} (h : .sent token reply ∈ writeResults adds evs')
    (hpos : reply.positive = true) :
    ∃ ev' ∈ evs', reply.eventIdHex = encodeHex ev'.packed.id ∧
      (ev'.status = .written ∨ ev'.status = .duplicate) := by
  obtain ⟨ev', hev', hmem⟩ := List.mem_flatMap.1 h
  obtain ⟨msg, hmsg, hpacked⟩ := hlink ev' hev'
  simp only [hmsg, AddEvent.report, List.mem_append, List.mem_ite_nil_right, List.mem_singleton,
    LogEntry.sent.injEq] at hmem
  refine ⟨ev', hev', ?_, ?_⟩
  · rcases hmem with ⟨-, -, rfl⟩ | ⟨-, rfl⟩ <;> rw [Reply.eventIdHex, hpacked]
  · have hverdict : ev'.status.verdict.1 = true ∨ ev'.status.verdict.2.1 = true := by
      rcases hmem with ⟨-, -, rfl⟩ | ⟨-, rfl⟩
      · exact Or.inr hpos
      · exact Or.inl hpos
    cases hs : ev'.status <;> simp_all [EventWriteStatus.verdict]

/-- The acknowledgements of a batch are true exactly if no event in it is refused and then
repeated. -/
theorem acknowledgements_true_iff (hreach : StoreReachable ord hex text db)
    (hsub : Submitted hex evs)
    (hok : (writeEvents S ord hex text cache db evs).2 = .ok (db', evs')) :
    AcknowledgementsTrue (CallStep S ord hex text cache db evs) evs db' evs' ↔
      ¬ RefusedThenRepeated ord (cache.current hex text db) none db
        (S.sort EventToWrite.before evs) := by
  have hinv := hreach.storeInv
  have hsorted : Writable (S.sort EventToWrite.before evs) := hsub.writable.perm (S.perm _ _)
  have hrun := writeEvents_run hinv hsub.writable hok
  constructor
  · intro h hbad
    exact hbad.wrong hinv hsorted h.duplicate
  · intro hno
    have hdup := hrun.duplicate_hasId hno nofun
    refine ⟨hdup, ?_, ?_⟩
    · intro db₁ ev ev' db₂ hstep hs
      obtain ⟨-, -, prev, hout⟩ := BatchStep.spec hinv hsorted hstep
      refine ⟨fun hmem => ?_, ?_⟩
      · exact absurd rfl (hout.levId_gt hs hmem).ne
      · rw [hout.mem_rows hs, hout.event_eq.1]
        exact Or.inl rfl
    · intro adds hlink token reply hmem hpos
      have hlink' : Linked adds evs' := by
        apply hlink.of_links
        intro ev' hev'
        have hmem' : (ev'.packed, ev'.userData) ∈
            evs'.map fun ev => (ev.packed, ev.userData) := List.mem_map_of_mem hev'
        rw [hrun.links] at hmem'
        obtain ⟨ev, hev, heq⟩ := List.mem_map.1 hmem'
        exact ⟨ev, (S.perm _ _).mem_iff.1 hev, heq⟩
      obtain ⟨ev', hev', hid, hs⟩ := positive_writeResults hlink' hmem hpos
      refine ⟨ev'.packed.id, hid, ?_⟩
      obtain ⟨db₁, ev, db₂, hstep⟩ := hrun.exists_step hinv hsorted hev'
      have hrow : ∃ r : Nat × PackedEvent, r.2.id = ev'.packed.id ∧ (r ∈ db'.event.rows ∨
          ∃ w ∈ evs', RemovedBy ord (cache.current hex text db) none db
            (S.sort EventToWrite.before evs) r w) := by
        rcases hs with hs | hs
        · exact ⟨_, rfl, (hrun.written hev' hs).imp And.left And.right⟩
        · obtain ⟨r, hr, hid⟩ := hdup db₁ ev ev' db₂ hstep hs
          exact ⟨r, hid, hrun.stored_at hinv hsorted hstep hr⟩
      obtain ⟨r, hid, hin | ⟨w, hw, hs, hne, -, hrem⟩⟩ := hrow
      · exact Or.inl ⟨r, hin, hid⟩
      · exact Or.inr ⟨r, hid, w, hw, hs, hne, hrem⟩

end Replies

/-- A batch without repetitions has no refused event that is repeated. -/
theorem not_refusedThenRepeated {ord : IndexOrder} {filters : List FilterInfo}
    {prevId : Option Bytes} {db : Db} {sorted : List EventToWrite}
    (h : (sorted.map fun ev => ev.packed.id).Nodup) :
    ¬ RefusedThenRepeated ord filters prevId db sorted := by
  rintro ⟨pre, ev, next, post, db₁, pre', rfl, -, hid, -⟩
  rw [List.map_append] at h
  have hcons := (List.nodup_append.1 h).2.1
  simp [hid] at hcons

/-- Two profiles of one author: both are acknowledged, and the second has removed the first. -/
theorem acknowledgements_true_twoProfiles :
    ∃ db' evs', (writeEvents .insertion byteOrder hexCodec emptyObjectText {} Db.init
        twoProfiles).2 = .ok (db', evs') ∧ evs'.map EventToWrite.status = [.written, .written] ∧
      AcknowledgementsTrue (CallStep .insertion byteOrder hexCodec emptyObjectText {} Db.init
        twoProfiles) twoProfiles db' evs' := by
  have heval : ((writeEvents .insertion byteOrder hexCodec emptyObjectText {} Db.init
      twoProfiles).2.map fun r => r.2.map EventToWrite.status) = .ok [.written, .written] := by
    decide +kernel
  obtain ⟨⟨db', evs'⟩, hok, heq⟩ := map_eq_ok.1 heval
  refine ⟨db', evs', hok, heq, ?_⟩
  apply (acknowledgements_true_iff .refl submitted_twoProfiles hok).2
  apply not_refusedThenRepeated
  decide +kernel

/-- A note twice in one batch, after a deletion of it. -/
def deletedTwice : List EventToWrite := [⟨noteDeletion, [], .pending, 0, 0⟩, note, note]

theorem submitted_deletedTwice : Submitted hexCodec deletedTwice := by
  intro ev hev
  apply submitted_noteDeletion ev
  simpa [deletedTwice] using hev

/-- The first copy is refused, and the second is acknowledged as a duplicate of it. -/
theorem duplicate_of_refused_note :
    StoreReachable byteOrder hexCodec emptyObjectText Db.init ∧ Submitted hexCodec deletedTwice ∧
      ∃ db' evs', (writeEvents .insertion byteOrder hexCodec emptyObjectText {} Db.init
          deletedTwice).2 = .ok (db', evs') ∧
        evs'.map EventToWrite.status = [.written, .deleted, .duplicate] ∧
        db'.event.rows.map (fun r => r.2.id) = [noteDeletion.id] ∧
        ¬ AcknowledgementsTrue (CallStep .insertion byteOrder hexCodec emptyObjectText {} Db.init
          deletedTwice) deletedTwice db' evs' := by
  have heval : ((writeEvents .insertion byteOrder hexCodec emptyObjectText {} Db.init
      deletedTwice).2.map fun r => (r.2.map EventToWrite.status,
        r.1.event.rows.map (fun r => r.2.id))) =
          .ok ([.written, .deleted, .duplicate], [noteDeletion.id]) := by
    decide +kernel
  obtain ⟨⟨db', evs'⟩, hok, heq⟩ := map_eq_ok.1 heval
  obtain ⟨hstatus, hrows⟩ := Prod.mk.inj heq
  refine ⟨.refl, submitted_deletedTwice, db', evs', hok, hstatus, hrows, fun h => ?_⟩
  have hsorted : Writable (StdSort.insertion.sort EventToWrite.before deletedTwice) :=
    submitted_deletedTwice.writable.perm (StdSort.insertion.perm _ _)
  refine RefusedThenRepeated.wrong storeInv_empty hsorted ?_ h.duplicate
  have hpre : ∃ db₁ pre', writeLoop byteOrder
      (NegentropyFilterCache.current hexCodec emptyObjectText Db.init {}) none Db.init []
        [⟨noteDeletion, [], .pending, 0, 0⟩] = .ok (db₁, pre') ∧
      db₁.event.rows = [(1, noteDeletion)] := ⟨_, _, rfl, rfl⟩
  obtain ⟨db₁, pre', hpre, hdb₁⟩ := hpre
  refine ⟨_, note, note, [], db₁, pre', rfl, hpre, rfl, ?_, Or.inl ⟨(1, noteDeletion), ?_, ?_⟩⟩
  · rintro ⟨r, hr, hid⟩
    rw [hdb₁, List.mem_singleton] at hr
    subst hr
    revert hid
    decide
  · rw [hdb₁]
    exact List.mem_singleton.2 rfl
  · exact ⟨rfl, rfl, List.mem_singleton.2 rfl⟩

end Strfry
