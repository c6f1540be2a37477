import Strfry.Fried
import Strfry.PipelineAccounting

/-!
# Restoring a database

The events of a store are independent of each other: no two have the same id or address, and none is
deleted by another. A batch of events that are independent of each other and of what is stored is written
as a whole and removes nothing (`WriteRun.all_written`). So it does not matter where the pipeline cuts its
batches: `Restoring` holds throughout an import of such events into an empty database.
-/

set_option autoImplicit false

namespace Strfry

open Lib

/-! ## Independent events -/

/-- Neither event stands in the way of the other. -/
structure Independent (p q : PackedEvent) : Prop where
  ids : p.id ≠ q.id
  address : ¬ SameAddress p q
  deletes : ¬ Deletes p q
  deleted : ¬ Deletes q p

theorem Independent.symm {p q : PackedEvent} (h : Independent p q) : Independent q p :=
  ⟨h.ids.symm, fun hsame => h.address hsame.symm, h.deleted, h.deletes⟩

theorem Independent.not_targets {p q : PackedEvent} (h : Independent p q) : ¬ Targets p q := by
  rintro (hdel | ⟨hsame, -⟩)
  · exact h.deletes hdel
  · exact h.address hsame

theorem StoreInv.independent {st : Store} (h : StoreInv st) {a b : Nat × PackedEvent}
    (ha : a ∈ st.event.rows) (hb : b ∈ st.event.rows) (hne : a ≠ b) : Independent a.2 b.2 :=
  ⟨fun hid => hne (h.uniqueIds a b ha hb hid), fun hsame => hne (h.uniqueAddress a b ha hb hsame),
    h.noDeleted a b ha hb hne, h.noDeleted b a hb ha hne.symm⟩

/-- The event is stored with this text. -/
def Db.Holds (db : Db) (ev : EventToWrite) : Prop :=
  ∃ levId, (levId, ev.packed) ∈ db.event.rows ∧
    db.eventPayload.get? levId = some (0 :: ev.jsonStr)

section Batch

variable {ord : IndexOrder} {filters : List FilterInfo} {prevId : Option Bytes} {db db' : Db}
  {ev ev' : EventToWrite} {evs evs' : List EventToWrite}

/-- An event that is independent of what is stored is written, and nothing is removed. -/
theorem WriteOutcome.of_independent (h : WriteOutcome filters prevId db ev db' ev')
    (hprev : prevId ≠ some ev.packed.id) (hind : ∀ r ∈ db.event.rows, Independent ev.packed r.2) :
    ev'.status = .written ∧ ∀ r, r ∈ db'.event.rows ↔
      r = (ev'.levId, ev.packed) ∨ r ∈ db.event.rows := by
  have hwritten : ev'.status = .written := by
    cases h with
    | duplicate hdup =>
      rcases hdup with ⟨r, hr, hid⟩ | hid
      · exact absurd hid.symm (hind r hr).ids
      · exact absurd hid hprev
    | deleted _ hdel =>
      obtain ⟨r, hr, hd⟩ := hdel
      exact absurd hd (hind r hr).deleted
    | replaced r _ hr hsame => exact absurd hsame (hind r hr).address
    | written => rfl
  refine ⟨hwritten, fun r => ?_⟩
  rw [h.mem_rows hwritten]
  exact or_congr_right ⟨fun h => h.1, fun hr => ⟨hr, (hind r hr).not_targets⟩⟩

/-- What such an event leaves behind: itself, and everything that was stored before. -/
theorem WriteOutcome.holds_of_independent (h : WriteOutcome filters prevId db ev db' ev')
    (hprev : prevId ≠ some ev.packed.id) (hind : ∀ r ∈ db.event.rows, Independent ev.packed r.2) :
    db'.Holds ev ∧ ∀ w, db.Holds w → db'.Holds w := by
  obtain ⟨hs, hrows⟩ := h.of_independent hprev hind
  have hnew : (ev'.levId, ev.packed) ∈ db'.event.rows := (hrows _).2 (Or.inl rfl)
  refine ⟨⟨ev'.levId, hnew, ?_⟩, ?_⟩
  · rw [h.payload hs hnew, if_pos rfl]
  · rintro w ⟨levId, hr, hpay⟩
    have hr' : (levId, w.packed) ∈ db'.event.rows := (hrows _).2 (Or.inr hr)
    refine ⟨levId, hr', ?_⟩
    have hlt := h.levId_gt hs hr
    rw [h.payload hs hr', if_neg (ne_of_lt hlt), hpay]

/-- A batch of independent events is written as a whole: every event of it is stored, whatever was stored
stays, and nothing else is. -/
theorem WriteRun.all_written (h : WriteRun ord filters prevId db evs db' evs')
    (hprev : ∀ ev ∈ evs, prevId ≠ some ev.packed.id)
    (hind : ∀ ev ∈ evs, ∀ r ∈ db.event.rows, Independent ev.packed r.2)
    (hpair : evs.Pairwise fun a b => Independent a.packed b.packed) :
    (∀ ev' ∈ evs', ev'.status = .written) ∧ (∀ ev ∈ evs, db'.Holds ev) ∧
      (∀ w, db.Holds w → db'.Holds w) ∧
      ∀ r ∈ db'.event.rows, r ∈ db.event.rows ∨ ∃ ev ∈ evs, r.2 = ev.packed := by
  induction h with
  | nil prevId db => exact ⟨nofun, nofun, fun _ hw => hw, fun _ hr => Or.inl hr⟩
  | @cons prevId db db₁ db' ev ev' rest rest' hone hout hrun ih =>
    rw [List.pairwise_cons] at hpair
    have hev := hind ev List.mem_cons_self
    have hne := hprev ev List.mem_cons_self
    obtain ⟨hs, hrows⟩ := hout.of_independent hne hev
    obtain ⟨hnew, hold⟩ := hout.holds_of_independent hne hev
    have hind₁ : ∀ e ∈ rest, ∀ r ∈ db₁.event.rows, Independent e.packed r.2 := by
      intro e he r hr
      rcases (hrows r).1 hr with rfl | hr
      · exact (hpair.1 e he).symm
      · exact hind e (List.mem_cons_of_mem _ he) r hr
    obtain ⟨hall, hin, hstay, hfrom⟩ := ih
      (fun e he heq => (hpair.1 e he).ids (Option.some.inj heq)) hind₁ hpair.2
    refine ⟨?_, ?_, fun w hw => hstay w (hold w hw), ?_⟩
    · intro e he
      rcases List.mem_cons.1 he with rfl | he
      · exact hs
      · exact hall e he
    · intro e he
      rcases List.mem_cons.1 he with rfl | he
      · exact hstay e hnew
      · exact hin e he
    · intro r hr
      rcases hfrom r hr with hr | ⟨e, he, heq⟩
      · rcases (hrows r).1 hr with rfl | hr
        · exact Or.inr ⟨ev, List.mem_cons_self, rfl⟩
        · exact Or.inl hr
      · exact Or.inr ⟨e, List.mem_cons_of_mem _ he, heq⟩

/-- The same of a call, which sorts the batch first. -/
theorem writeEvents_all_written {S : StdSort} {hex : HexCodec} {text : JsonText}
    {cache : NegentropyFilterCache} (hinv : StoreInv db.toStore) (hw : Writable evs)
    (hind : ∀ ev ∈ evs, ∀ r ∈ db.event.rows, Independent ev.packed r.2)
    (hpair : evs.Pairwise fun a b => Independent a.packed b.packed)
    (hok : (writeEvents S ord hex text cache db evs).2 = .ok (db', evs')) :
    (∀ ev' ∈ evs', ev'.status = .written) ∧ (∀ ev ∈ evs, db'.Holds ev) ∧
      (∀ w, db.Holds w → db'.Holds w) ∧ StoreInv db'.toStore ∧
      ∀ r ∈ db'.event.rows, r ∈ db.event.rows ∨ ∃ ev ∈ evs, r.2 = ev.packed := by
  have hperm := S.perm EventToWrite.before evs
  have hrun := writeEvents_run hinv hw hok
  obtain ⟨hall, hin, hstay, hfrom⟩ := hrun.all_written (fun _ _ => nofun)
    (fun e he => hind e (hperm.mem_iff.1 he))
    ((hperm.pairwise_iff fun h => h.symm).2 hpair)
  refine ⟨hall, fun e he => hin e (hperm.mem_iff.2 he), hstay, hrun.storeInv hinv (hw.perm hperm), ?_⟩
  intro r hr
  rcases hfrom r hr with hr | ⟨e, he, heq⟩
  · exact Or.inl hr
  · exact Or.inr ⟨e, hperm.mem_iff.1 he, heq⟩

end Batch

/-! ## The pipeline on an empty database -/

namespace WriterPipeline

/-- No other process writes. -/
def alone : Db → Db → Prop := fun _ _ => False

/-- Events that can be restored: to be written, and independent of each other. -/
structure Importable (evs : List EventToWrite) : Prop where
  writable : Writable evs
  pairwise : evs.Pairwise fun a b => Independent a.packed b.packed

theorem Importable.independent {evs : List EventToWrite} (h : Importable evs) {k k' : Nat}
    {ev ev' : EventToWrite} (hk : evs[k]? = some ev) (hk' : evs[k']? = some ev') (hne : k ≠ k') :
    Independent ev.packed ev'.packed := by
  obtain ⟨hlt, rfl⟩ := List.getElem?_eq_some_iff.1 hk
  obtain ⟨hlt', rfl⟩ := List.getElem?_eq_some_iff.1 hk'
  rcases Nat.lt_or_gt_of_ne hne with hlt'' | hlt''
  · exact List.pairwise_iff_getElem.1 h.pairwise k k' hlt hlt' hlt''
  · exact (List.pairwise_iff_getElem.1 h.pairwise k' k hlt' hlt hlt'').symm

/-- The row is an event that has been passed to `writeEvents`. -/
def Passed (s : WriterPipeline) (r : Nat × PackedEvent) : Prop :=
  ∃ k ev, (k, PipelineOutcome.passed ev) ∈ s.outcomes ∧ r.2 = ev.packed

/-- So far every event has been written: what was passed to `writeEvents` is stored, and nothing else. -/
structure Restoring (s : WriterPipeline) : Prop where
  storeInv : StoreInv s.db.toStore
  rows : ∀ r ∈ s.db.event.rows, s.Passed r
  outcomes : ∀ p ∈ s.outcomes, ∃ ev, p.2 = .passed ev ∧ s.db.Holds ev
  snapshot : ∀ db newEvents proc, s.writer = .collecting db newEvents proc →
    ∀ r ∈ db.event.rows, s.Passed r
  rejected : s.totalRejected = 0
  dups : s.totalDups = 0
  processed : s.totalProcessed = s.submitted.length

variable {cfg : PipelineConfig} {env : Db → Db → Prop} {s s' : WriterPipeline} {evs : List EventToWrite}

theorem Step.submitted_prefix (h : Step cfg env s s') : s.submitted <+: s'.submitted := by
  cases h with
  | process => exact List.prefix_append _ _
  | _ => exact List.prefix_rfl

/-- A submission is the event with its serial. -/
theorem event_of_submitted (hpre : s.submitted <+: evs.map .event) {k : Nat} {input : PipelineInput}
    (hk : s.submitted[k]? = some input) : ∃ ev, evs[k]? = some ev ∧ input = .event ev := by
  obtain ⟨hlt, -⟩ := List.getElem?_eq_some_iff.1 hk
  have hk' : (evs.map PipelineInput.event)[k]? = some input := by
    rw [← hk]
    exact (List.prefix_iff_getElem?.1 hpre k hlt).trans (List.getElem?_eq_getElem hlt).symm
  rw [List.getElem?_map, Option.map_eq_some_iff] at hk'
  obtain ⟨ev, hev, rfl⟩ := hk'
  exact ⟨ev, hev, rfl⟩

theorem event_of_carries (hpre : s.submitted <+: evs.map .event) {k : Nat} {ev : EventToWrite}
    (h : ∃ input, s.submitted[k]? = some input ∧ Carries cfg input ev) : evs[k]? = some ev := by
  obtain ⟨input, hk, hc⟩ := h
  obtain ⟨ev', hev', rfl⟩ := event_of_submitted hpre hk
  cases hc
  exact hev'

/-- An event that has been passed on is not one of those that are still on their way. -/
theorem Inv.not_passed (h : Inv s) {k : Nat} (hk : k ∈ s.live ∨ k ∈ s.writer.batch.map Prod.fst) :
    k ∉ s.outcomes.map Prod.fst := by
  intro hout
  have honce := h.once k
  have hpos : 0 < (s.outcomes.map Prod.fst).count k := List.count_pos_iff.2 hout
  rcases hk with hk | hk
  · have := List.count_pos_iff.2 hk
    split_ifs at honce <;> omega
  · have := List.count_pos_iff.2 hk
    split_ifs at honce <;> omega

/-- So it is independent of all that are stored. -/
theorem independent_of_passed (hinv : Inv s) (htr : Traced cfg s) (hevs : Importable evs)
    (hpre : s.submitted <+: evs.map .event) {k : Nat} {ev : EventToWrite} (hev : evs[k]? = some ev)
    (hk : k ∈ s.live ∨ k ∈ s.writer.batch.map Prod.fst) {r : Nat × PackedEvent} (hr : s.Passed r) :
    Independent ev.packed r.2 := by
  obtain ⟨k', ev', hout, hrow⟩ := hr
  have hev' : evs[k']? = some ev' := by
    apply event_of_carries hpre
    obtain ⟨input, hinput, hexp⟩ := htr.outcomes _ hout
    cases hexp with
    | passed hc => exact ⟨input, hinput, hc⟩
  rw [hrow]
  refine hevs.independent hev hev' ?_
  rintro rfl
  exact hinv.not_passed hk (List.mem_map_of_mem hout)

/-- The batch is one that `writeEvents` writes as a whole. -/
theorem batch_importable (hinv : Inv s) (htr : Traced cfg s) (hevs : Importable evs)
    (hpre : s.submitted <+: evs.map .event) : Importable (s.writer.batch.map Prod.snd) := by
  have hat : ∀ p ∈ s.writer.batch, evs[p.1]? = some p.2 :=
    fun p hp => event_of_carries hpre (htr.batch p hp)
  have hnodup : (s.writer.batch.map Prod.fst).Nodup := by
    refine List.nodup_iff_count_le_one.2 fun k => ?_
    have honce := hinv.once k
    split_ifs at honce <;> omega
  constructor
  · intro ev hev
    obtain ⟨p, hp, rfl⟩ := List.mem_map.1 hev
    exact hevs.writable _ (List.mem_of_getElem? (hat p hp))
  · refine List.pairwise_map.2 ((List.pairwise_map.1 hnodup).imp_of_mem ?_)
    intro p q hp hq hne
    exact hevs.independent (hat p hp) (hat q hq) hne

theorem mem_live_of_mem_downstream {k : Nat} {ev : EventToWrite} (h : some (k, ev) ∈ s.downstream) :
    k ∈ s.live := by
  refine List.mem_append_right _ (List.mem_map.2 ⟨(k, ev), ?_, rfl⟩)
  exact List.reduceOption_mem_iff.2 h

/-- The step lemma. -/
theorem Step.restoring (hstep : Step cfg alone s s') (hinv : Inv s) (htr : Traced cfg s)
    (hevs : Importable evs) (hpre : s'.submitted <+: evs.map .event) (h : Restoring s) :
    Restoring s' := by
  have hpre' : s.submitted <+: evs.map .event := hstep.submitted_prefix.trans hpre
  cases hstep with
  | process =>
    refine { h with processed := ?_ }
    rw [List.length_append, List.length_singleton]
    exact congrArg (· + 1) h.processed
  | @reject k v rest now e hv hbad =>
    have hmem : some (k, v) ∈ s.upstream := by
      rw [upstream, hv]
      exact List.mem_cons_self
    obtain ⟨ev, -, heq⟩ := event_of_submitted hpre' (htr.upstream k v hmem)
    cases heq
  | «open» hw =>
    refine { h with snapshot := ?_ }
    rintro db newEvents proc ⟨⟩
    exact h.rows
  | @duplicate snapshot k ev rest proc hw hroom hdup =>
    -- the snapshot has only events that were passed on before
    obtain ⟨r, hr, hid⟩ := (Store.lookupEventById_isSome_iff cfg.ord ev.packed.id_size).1 hdup
    have hmem : some (k, ev) ∈ s.downstream := by
      rw [downstream, hw]
      exact List.mem_cons_self
    have hat : evs[k]? = some ev := event_of_carries hpre' (htr.downstream k ev hmem)
    have hind := independent_of_passed hinv htr hevs hpre' hat
      (Or.inl (mem_live_of_mem_downstream hmem)) (h.snapshot _ _ _ hw r hr)
    exact absurd hid.symm hind.ids
  | @collect snapshot k ev rest proc hw hroom hnew =>
    refine { h with snapshot := ?_ }
    rintro db newEvents proc ⟨⟩
    exact h.snapshot _ _ _ hw
  | writerPop | unshift | writerEnd | collected | skip | finish | again =>
    -- nothing is being collected now
    refine { h with snapshot := ?_ }
    rintro db newEvents proc ⟨⟩
  | @write proc cache db' evs' hw hne hok =>
    have hbatch : s.writer.batch = proc := by
      rw [hw]
      rfl
    have himp := batch_importable hinv htr hevs hpre'
    rw [hbatch] at himp
    have hind : ∀ ev ∈ proc.map Prod.snd, ∀ r ∈ s.db.event.rows, Independent ev.packed r.2 := by
      intro ev hev r hr
      obtain ⟨p, hp, rfl⟩ := List.mem_map.1 hev
      have hat : evs[p.1]? = some p.2 := event_of_carries hpre' (htr.batch p (hbatch ▸ hp))
      have hmem : p.1 ∈ s.writer.batch.map Prod.fst := List.mem_map_of_mem (hbatch ▸ hp)
      exact independent_of_passed hinv htr hevs hpre' hat (Or.inr hmem) (h.rows r hr)
    obtain ⟨hall, hin, hstay, hstore, hfrom⟩ := writeEvents_all_written h.storeInv himp.writable hind
      himp.pairwise (congrArg Prod.snd hok)
    have hwritten : numWritten evs' = evs'.length := by
      refine List.countP_eq_length.2 fun ev hev => ?_
      rw [hall ev hev]
      rfl
    refine ⟨hstore, ?_, ?_, ?_, h.rejected, ?_, h.processed⟩
    · intro r hr
      rcases hfrom r hr with hr | ⟨ev, hev, heq⟩
      · obtain ⟨k, ev, hout, heq⟩ := h.rows r hr
        exact ⟨k, ev, List.mem_append_left _ hout, heq⟩
      · obtain ⟨p, hp, rfl⟩ := List.mem_map.1 hev
        exact ⟨p.1, p.2, List.mem_append_right _ (List.mem_map.2 ⟨p, hp, rfl⟩), heq⟩
    · intro p hp
      rcases List.mem_append.1 hp with hp | hp
      · obtain ⟨ev, heq, hholds⟩ := h.outcomes p hp
        exact ⟨ev, heq, hstay ev hholds⟩
      · obtain ⟨q, hq, rfl⟩ := List.mem_map.1 hp
        exact ⟨q.2, rfl, hin q.2 (List.mem_map_of_mem hq)⟩
    · rintro db newEvents proc ⟨⟩
    · show s.totalDups + (evs'.length - numWritten evs') = 0
      rw [hwritten, Nat.sub_self, h.dups]
  | other henv => exact henv.elim
  | _ => exact { h with }

theorem restoring_init : Restoring { db := Db.init } :=
  ⟨storeInv_empty, nofun, nofun, nofun, rfl, rfl, rfl⟩

/-- The run lemma. -/
theorem Reachable.restoring (h : Reachable cfg alone Db.init s) (hevs : Importable evs)
    (hpre : s.submitted <+: evs.map .event) : Restoring s := by
  induction h with
  | refl => exact restoring_init
  | tail hreach hstep ih =>
    have hreach : Reachable cfg alone Db.init _ := hreach
    exact hstep.restoring hreach.inv hreach.traced hevs hpre (ih (hstep.submitted_prefix.trans hpre))

/-- Once `flush` has returned, all events are stored, and nothing else is. -/
theorem Reachable.restored (h : Reachable cfg alone Db.init s) (hevs : Importable evs)
    (hsub : s.submitted = evs.map .event) (hp : s.producer = .flushed) :
    s.totalWritten = evs.length ∧ (∀ ev ∈ evs, s.db.Holds ev) ∧
      ∀ r ∈ s.db.event.rows, ∃ ev ∈ evs, r.2 = ev.packed := by
  have hpre : s.submitted <+: evs.map .event := hsub ▸ List.prefix_rfl
  have hres := h.restoring hevs hpre
  have hinv := h.inv
  obtain ⟨hlive, hbatch⟩ := hinv.drained hp
  have hlocated : ∀ k ev, (k, PipelineOutcome.passed ev) ∈ s.outcomes → evs[k]? = some ev := by
    intro k ev hout
    obtain ⟨input, hinput, hexp⟩ := h.traced.outcomes _ hout
    cases hexp with
    | passed hc => exact event_of_carries hpre ⟨input, hinput, hc⟩
  refine ⟨?_, ?_, ?_⟩
  · have hproc := hinv.processed
    rw [hlive, hbatch, settled, hres.rejected, hres.dups, hres.processed, hsub, List.length_map] at hproc
    exact hproc.symm
  · intro ev hev
    obtain ⟨k, hk, rfl⟩ := List.getElem_of_mem hev
    have honce := hinv.once k
    rw [hlive, hbatch, hsub, List.length_map, if_pos hk, List.count_nil, List.map_nil, List.count_nil,
      zero_add, zero_add] at honce
    have hmem : k ∈ s.outcomes.map Prod.fst := List.count_pos_iff.1 (by omega)
    obtain ⟨⟨k', o⟩, hout, rfl⟩ := List.mem_map.1 hmem
    obtain ⟨ev', rfl, hholds⟩ := hres.outcomes _ hout
    have heq := (List.getElem?_eq_getElem hk).symm.trans (hlocated _ _ hout)
    rw [Option.some.inj heq]
    exact hholds
  · intro r hr
    obtain ⟨k, ev, hout, heq⟩ := hres.rows r hr
    exact ⟨ev, List.mem_of_getElem? (hlocated k ev hout), heq⟩

/-! ## The import comes to its end -/

/-- The trees of a new database. -/
theorem writeEvents_ok {S : StdSort} {ord : IndexOrder} {hex : HexCodec} {text : JsonText}
    (cache : NegentropyFilterCache) {db : Db} {evs : List EventToWrite} (hinv : StoreInv db.toStore)
    (hw : Writable evs) (hfilter : db.negentropyFilter = Db.init.negentropyFilter)
    (hempty : text.fromString emptyFilterText = .ok (.object [])) :
    ∃ cache' db' evs', writeEvents S ord hex text cache db evs = (cache', .ok (db', evs')) := by
  have hfresh : (cache.freshen hex text db).2 = .ok () := by
    have hrows : Db.init.negentropyFilter.rows = [(1, emptyFilterText)] := rfl
    have hrow : ∃ info, compileRow hex text (1, emptyFilterText) = .ok info := by
      rw [compileRow, hempty]
      exact ⟨_, rfl⟩
    obtain ⟨info, hinfo⟩ := hrow
    rw [NegentropyFilterCache.freshen, hfilter, hrows]
    split_ifs
    · simp only [loadFilters, hinfo]
    · rfl
  cases hres : (writeEvents S ord hex text cache db evs).2 with
  | error e =>
    rw [writeEvents_error_iff hinv hw, hfresh] at hres
    cases hres
  | ok r => exact ⟨(writeEvents S ord hex text cache db evs).1, r.1, r.2, Prod.ext rfl hres⟩

/-- The trees are those of a new database throughout. -/
theorem Reachable.negentropyFilter (h : Reachable cfg alone Db.init s) (hevs : Importable evs)
    (hpre : s.submitted <+: evs.map .event) : s.db.negentropyFilter = Db.init.negentropyFilter := by
  induction h with
  | refl => rfl
  | @tail s s' hreach hstep ih =>
    have hreach : Reachable cfg alone Db.init s := hreach
    have hpre' : s.submitted <+: evs.map .event := hstep.submitted_prefix.trans hpre
    rw [← ih hpre']
    cases hstep with
    | write hw hne hok =>
      have himp := batch_importable hreach.inv hreach.traced hevs hpre'
      rw [hw] at himp
      have hrun := writeEvents_run (hreach.restoring hevs hpre').storeInv himp.writable
        (congrArg Prod.snd hok)
      exact (Db.sameFilters_writeRun hrun).2
    | other henv => exact henv.elim
    | _ => rfl

/-- What the producer does leaves the other threads as they are. -/
structure Frame (s s' : WriterPipeline) : Prop where
  validatorInbox : s'.validatorInbox = s.validatorInbox
  validator : s'.validator = s.validator
  writer : s'.writer = s.writer
  shutdownComplete : s'.shutdownComplete = s.shutdownComplete

/-- The producer can submit an event. -/
theorem submit_one (ev : EventToWrite) (hp : s.producer = .idle) :
    ∃ s', Relation.ReflTransGen (Step cfg alone) s s' ∧ s'.producer = .idle ∧
      s'.submitted = s.submitted ++ [.event ev] ∧
      s'.writerInbox = s.writerInbox ++ [some (s.submitted.length, ev)] ∧ Frame s s' := by
  have hstart : Relation.ReflTransGen (Step cfg alone) s s := .refl
  exact ⟨_, ((hstart.tail (@Step.process _ _ _ (.event ev) nofun hp)).tail (.count rfl)).tail
    (.pushEvent rfl), rfl, rfl, rfl, rfl, rfl, rfl, rfl⟩

theorem submit_all (evs : List EventToWrite) (hp : s.producer = .idle) :
    ∃ s' ms, Relation.ReflTransGen (Step cfg alone) s s' ∧ s'.producer = .idle ∧
      s'.submitted = s.submitted ++ evs.map .event ∧
      s'.writerInbox = s.writerInbox ++ List.map some ms ∧ Frame s s' := by
  induction evs generalizing s with
  | nil =>
    refine ⟨s, [], .refl, hp, ?_, ?_, rfl, rfl, rfl, rfl⟩
    · exact (List.append_nil _).symm
    · exact (List.append_nil _).symm
  | cons ev evs ih =>
    obtain ⟨s₁, hone, hp₁, hsub₁, hin₁, hf₁⟩ := @submit_one cfg s ev hp
    obtain ⟨s', ms, hrest, hp', hsub, hin, hf⟩ := ih hp₁
    refine ⟨s', (s.submitted.length, ev) :: ms, hone.trans hrest, hp', ?_, ?_,
      hf.1.trans hf₁.1, hf.2.trans hf₁.2, hf.3.trans hf₁.3, hf.4.trans hf₁.4⟩
    · rw [hsub, hsub₁, List.append_assoc]
      rfl
    · rw [hin, hin₁, List.append_assoc]
      rfl

/-- The end of the collecting loop: the mark of the end was found, or a full batch was collected and the
rest put back. -/
def Collected (cfg : PipelineConfig) (n : Nat) (s s' : WriterPipeline) : Prop :=
  ∃ proc, s'.writer = .writing proc ∧ s'.producer = s.producer ∧ s'.submitted = s.submitted ∧
    (s'.shutdownComplete = true ∨ (s'.shutdownComplete = false ∧ cfg.writeBatchSize ≤ proc.length ∧
      ∃ rest : List (Nat × EventToWrite), s'.writerInbox = rest.map some ++ [none] ∧
        rest.length + proc.length ≤ n))

theorem collect_full {ms : List (Nat × EventToWrite)} {snapshot : Db}
    {proc : List (Nat × EventToWrite)}
    (hw : s.writer = .collecting snapshot (ms.map some ++ [none]) proc) (hin : s.writerInbox = [])
    (hend : s.shutdownComplete = false) (hfull : cfg.writeBatchSize ≤ proc.length) :
    ∃ s', Relation.ReflTransGen (Step cfg alone) s s' ∧
      Collected cfg (ms.length + proc.length) s s' := by
  obtain ⟨m, rest, hms⟩ : ∃ m rest, ms.map some ++ [none] = m :: rest :=
    List.exists_cons_of_ne_nil (List.append_ne_nil_of_right_ne_nil _ (List.cons_ne_nil _ _))
  rw [hms] at hw
  refine ⟨_, .single (.unshift hw hfull), proc, rfl, rfl, rfl, Or.inr ⟨hend, hfull, ms, ?_, le_rfl⟩⟩
  show (m :: rest) ++ s.writerInbox = _
  rw [hin, List.append_nil, hms]

/-- The collecting loop ends. -/
theorem collect_batch (ms : List (Nat × EventToWrite)) {snapshot : Db}
    {proc : List (Nat × EventToWrite)}
    (hw : s.writer = .collecting snapshot (ms.map some ++ [none]) proc) (hin : s.writerInbox = [])
    (hend : s.shutdownComplete = false) :
    ∃ s', Relation.ReflTransGen (Step cfg alone) s s' ∧
      Collected cfg (ms.length + proc.length) s s' := by
  induction ms generalizing s proc with
  | nil =>
    by_cases hfull : cfg.writeBatchSize ≤ proc.length
    · exact collect_full hw hin hend hfull
    · exact ⟨_, .single (.writerEnd hw (not_le.1 hfull)), proc, rfl, rfl, rfl, Or.inl rfl⟩
  | cons m ms ih =>
    by_cases hfull : cfg.writeBatchSize ≤ proc.length
    · exact collect_full hw hin hend hfull
    -- the event is a duplicate or joins the batch; both leave one message less
    · have hnext : ∃ s₁ proc₁, Step cfg alone s s₁ ∧
          s₁.writer = .collecting snapshot (ms.map some ++ [none]) proc₁ ∧ s₁.writerInbox = [] ∧
          s₁.shutdownComplete = false ∧ s₁.producer = s.producer ∧ s₁.submitted = s.submitted ∧
          proc₁.length ≤ proc.length + 1 := by
        cases hdup : (snapshot.lookupEventById cfg.ord m.2.packed.id).isSome with
        | true =>
          exact ⟨_, proc, .duplicate hw (not_le.1 hfull) hdup, rfl, hin, hend, rfl, rfl,
            Nat.le_succ _⟩
        | false =>
          refine ⟨_, proc ++ [m], .collect hw (not_le.1 hfull) hdup, rfl, hin, hend, rfl, rfl, ?_⟩
          rw [List.length_append, List.length_singleton]
      obtain ⟨s₁, proc₁, hstep, hw₁, hin₁, hend₁, hp₁, hsub₁, hle⟩ := hnext
      obtain ⟨s', hrun, proc', hw', hp', hsub', hcases⟩ := ih hw₁ hin₁ hend₁
      refine ⟨s', .head hstep hrun, proc', hw', hp'.trans hp₁, hsub'.trans hsub₁, ?_⟩
      rcases hcases with hdone | ⟨hopen, hbatch, rest, hrest, hlen⟩
      · exact Or.inl hdone
      · refine Or.inr ⟨hopen, hbatch, rest, hrest, ?_⟩
        rw [List.length_cons]
        omega

/-- The writer can settle its batch. -/
theorem settle_batch (hreach : Reachable cfg alone Db.init s) (hevs : Importable evs)
    (hpre : s.submitted <+: evs.map .event)
    (hempty : cfg.verifier.text.fromString emptyFilterText = .ok (.object []))
    {proc : List (Nat × EventToWrite)} (hw : s.writer = .writing proc) :
    ∃ s', Step cfg alone s s' ∧ s'.writer = .finishing ∧ s'.producer = s.producer ∧
      s'.submitted = s.submitted ∧ s'.shutdownComplete = s.shutdownComplete ∧
      s'.writerInbox = s.writerInbox := by
  by_cases hne : proc = []
  · subst hne
    exact ⟨_, .skip hw, rfl, rfl, rfl, rfl, rfl⟩
  · have himp := batch_importable hreach.inv hreach.traced hevs hpre
    rw [hw] at himp
    obtain ⟨cache', db', evs', hok⟩ := writeEvents_ok (S := cfg.S) s.neFilterCache
      (hreach.restoring hevs hpre).storeInv himp.writable (hreach.negentropyFilter hevs hpre) hempty
    exact ⟨_, .write hw hne hok, rfl, rfl, rfl, rfl, rfl⟩

/-- Round by round the writer empties its inbox, and `flush` returns. -/
theorem drain (hevs : Importable evs) (hbatch : 1 ≤ cfg.writeBatchSize)
    (hempty : cfg.verifier.text.fromString emptyFilterText = .ok (.object []))
    (ms : List (Nat × EventToWrite)) (hreach : Reachable cfg alone Db.init s)
    (hw : s.writer = .waiting) (hin : s.writerInbox = ms.map some ++ [none])
    (hend : s.shutdownComplete = false) (hp : s.producer = .flushing)
    (hsub : s.submitted = evs.map .event) :
    ∃ s', Reachable cfg alone Db.init s' ∧ s'.producer = .flushed ∧ s'.submitted = evs.map .event := by
  induction hn : ms.length using Nat.strong_induction_on generalizing s ms with
  | _ n ih =>
    have hne : s.writerInbox ≠ [] := by
      rw [hin]
      exact List.append_ne_nil_of_right_ne_nil _ (List.cons_ne_nil _ _)
    obtain ⟨s₀, hopened, hw₀, hin₀, hend₀, hp₀, hsub₀⟩ : ∃ s₀, Reachable cfg alone Db.init s₀ ∧
        s₀.writer = .collecting s.db (ms.map some ++ [none]) [] ∧ s₀.writerInbox = [] ∧
        s₀.shutdownComplete = false ∧ s₀.producer = .flushing ∧ s₀.submitted = evs.map .event := by
      refine ⟨_, (hreach.tail (.writerPop hw hne)).tail (.open rfl), ?_, rfl, hend, hp, hsub⟩
      rw [← hin]
    obtain ⟨s₁, hcollect, proc, hw₁, hp₁, hsub₁, hcases⟩ := collect_batch ms hw₀ hin₀ hend₀
    have hreach₁ : Reachable cfg alone Db.init s₁ := hopened.trans hcollect
    have hpre₁ : s₁.submitted <+: evs.map .event := by
      rw [hsub₁, hsub₀]
    obtain ⟨s₂, hsettle, hw₂, hp₂, hsub₂, hend₂, hin₂⟩ :=
      settle_batch hreach₁ hevs hpre₁ hempty hw₁
    have hreach₂ : Reachable cfg alone Db.init s₂ := hreach₁.tail hsettle
    have hflushing : s₂.producer = .flushing := hp₂.trans (hp₁.trans hp₀)
    have hsubmitted : s₂.submitted = evs.map .event := hsub₂.trans (hsub₁.trans hsub₀)
    rcases hcases with hdone | ⟨hopen, hfull, rest, hrest, hlen⟩
    · have hfinished : Reachable cfg alone Db.init _ := hreach₂.tail (.finish hw₂ (hend₂.trans hdone))
      have hne₂ : s₂.flushInbox ++ [true] ≠ [] :=
        List.append_ne_nil_of_right_ne_nil _ (List.cons_ne_nil _ _)
      exact ⟨_, hfinished.tail (.flushed hflushing hne₂), rfl, hsubmitted⟩
    · have hagain : Reachable cfg alone Db.init _ := hreach₂.tail (.again hw₂ (hend₂.trans hopen))
      -- a full batch has at least one event
      refine ih rest.length ?_ rest hagain rfl (hin₂.trans hrest) (hend₂.trans hopen) hflushing hsubmitted rfl
      rw [List.length_nil] at hlen
      omega

/-- An import of any restorable events can run to its end. -/
theorem import_completes (hevs : Importable evs) (hbatch : 1 ≤ cfg.writeBatchSize)
    (hempty : cfg.verifier.text.fromString emptyFilterText = .ok (.object [])) :
    ∃ s, Reachable cfg alone Db.init s ∧ s.producer = .flushed ∧ s.submitted = evs.map .event := by
  obtain ⟨s, ms, hrun, hp, hsub, hin, hframe⟩ := @submit_all cfg { db := Db.init } evs rfl
  have hreach : Reachable cfg alone Db.init s := hrun
  have hflush : Reachable cfg alone Db.init _ := hreach.tail (.flush hp)
  have hvin : s.validatorInbox ++ [none] = [none] := by
    rw [hframe.validatorInbox]
    rfl
  have hpopped := hflush.tail (.validatorPop hframe.validator (by rw [hvin]; exact List.cons_ne_nil _ _))
  have hended := hpopped.tail (.validatorEnd (congrArg Validator.working hvin))
  refine drain hevs hbatch hempty ms hended hframe.writer ?_ hframe.shutdownComplete rfl ?_
  · show s.writerInbox ++ [none] = _
    rw [hin]
    rfl
  · exact hsub

end WriterPipeline

end Strfry
