import Strfry.WriterPipeline

/-!
# Accounting for the import pipeline

A submission is at any time in exactly one place: in the hands of the producer, on its way to the
validator (`upstream`) or to the writer (`downstream`), in the batch of the writer, or among the outcomes.
`Inv.once` says so serial by serial and `Inv.processed` and `Inv.numLive` for the counters. A batch that is
pushed back leaves `downstream` as it was.

`Stage` follows the mark of the end. It comes last in every inbox that it passes, so that nothing is left
behind it when the writer returns.
-/

set_option autoImplicit false

namespace Strfry

open Lib

/-! ## Where the submissions are -/

/-- The serials of the messages of a queue. -/
def serials {α : Type} (msgs : List (Message α)) : List Nat := msgs.reduceOption.map Prod.fst

section

variable {α : Type}

@[simp] theorem serials_nil : serials ([] : List (Message α)) = [] := rfl

@[simp] theorem serials_cons_none (msgs : List (Message α)) : serials (none :: msgs) = serials msgs := rfl

@[simp] theorem serials_cons_some (p : Nat × α) (msgs : List (Message α)) :
    serials (some p :: msgs) = p.1 :: serials msgs := rfl

@[simp] theorem serials_append (msgs msgs' : List (Message α)) :
    serials (msgs ++ msgs') = serials msgs ++ serials msgs' := by
  simp [serials, List.reduceOption_append]

end

/-- The submission that the producer holds. -/
def Producer.held : Producer → List (Nat × PipelineInput)
  | .processed k input => [(k, input)]
  | .counted k input => [(k, input)]
  | _ => []

/-- The submissions that are processed and not yet counted as live. -/
def Producer.uncounted : Producer → Nat
  | .processed _ _ => 1
  | _ => 0

/-- The producer has called `flush`. -/
def Producer.ended : Producer → Bool
  | .flushing => true
  | .flushed => true
  | _ => false

/-- The messages that the validator has popped. -/
def Validator.msgs : Validator → List (Message Json)
  | .working msgs => msgs
  | _ => []

/-- The messages that the writer has popped. -/
def PipelineWriter.newEvents : PipelineWriter → List (Message EventToWrite)
  | .popped newEvents => newEvents
  | .collecting _ newEvents _ => newEvents
  | _ => []

/-- The batch of the writer. -/
def PipelineWriter.batch : PipelineWriter → List (Nat × EventToWrite)
  | .collecting _ _ proc => proc
  | .writing proc => proc
  | _ => []

namespace WriterPipeline

variable {cfg : PipelineConfig} {env : Db → Db → Prop} {s s' : WriterPipeline}

/-- What is on its way to the validator. -/
def upstream (s : WriterPipeline) : List (Message Json) := s.validator.msgs ++ s.validatorInbox

/-- What is on its way to the writer. -/
def downstream (s : WriterPipeline) : List (Message EventToWrite) := s.writer.newEvents ++ s.writerInbox

/-- The serials of the submissions that are on their way. -/
def live (s : WriterPipeline) : List Nat :=
  s.producer.held.map Prod.fst ++ serials s.upstream ++ serials s.downstream

/-- The event that a submission is passed on as. -/
inductive Carries (cfg : PipelineConfig) : PipelineInput → EventToWrite → Prop
  | event (ev : EventToWrite) : Carries cfg (.event ev) ev
  | json {v : Json} {now : Nat} {packed : PackedEvent} {jsonStr : Bytes}
      (hgood : verify cfg now v = .ok (packed, jsonStr)) :
      Carries cfg (.json v) { packed := packed, jsonStr := jsonStr }

/-- An outcome is what happens to the submission: it does not pass the check, one of the snapshots of the
writer has an event with its id, or it is passed to `writeEvents`. -/
inductive Explains (cfg : PipelineConfig) (snapshots : List Db) :
    PipelineInput → PipelineOutcome → Prop
  | rejected {v : Json} {now : Nat} {e : Err} (hbad : verify cfg now v = .error e) :
      Explains cfg snapshots (.json v) (.rejected e)
  | duplicate {input : PipelineInput} {ev : EventToWrite} {db : Db} (hev : Carries cfg input ev)
      (hdb : db ∈ snapshots) (hdup : (db.lookupEventById cfg.ord ev.packed.id).isSome = true) :
      Explains cfg snapshots input (.duplicate ev)
  | passed {input : PipelineInput} {ev : EventToWrite} (hev : Carries cfg input ev) :
      Explains cfg snapshots input (.passed ev)

theorem Explains.append {snapshots : List Db} {input : PipelineInput} {o : PipelineOutcome}
    (h : Explains cfg snapshots input o) (db : Db) : Explains cfg (snapshots ++ [db]) input o := by
  cases h with
  | rejected hbad => exact .rejected hbad
  | duplicate hev hdb hdup => exact .duplicate hev (List.mem_append_left _ hdb) hdup
  | passed hev => exact .passed hev

/-- Messages and outcomes belong to their submissions. -/
structure Traced (cfg : PipelineConfig) (s : WriterPipeline) : Prop where
  held : ∀ p ∈ s.producer.held, s.submitted[p.1]? = some p.2
  upstream : ∀ k v, some (k, v) ∈ s.upstream → s.submitted[k]? = some (.json v)
  downstream : ∀ k ev, some (k, ev) ∈ s.downstream →
    ∃ input, s.submitted[k]? = some input ∧ Carries cfg input ev
  batch : ∀ p ∈ s.writer.batch, ∃ input, s.submitted[p.1]? = some input ∧ Carries cfg input p.2
  outcomes : ∀ p ∈ s.outcomes,
    ∃ input, s.submitted[p.1]? = some input ∧ Explains cfg s.snapshots input p.2
  snapshot : ∀ db newEvents proc, s.writer = .collecting db newEvents proc → db ∈ s.snapshots

/-- Where the mark of the end is. -/
inductive Stage (s : WriterPipeline) : Prop
  | accepting (hp : s.producer.ended = false) (hu : none ∉ s.upstream) (hv : s.validator ≠ .returned)
      (hd : none ∉ s.downstream) (hend : s.shutdownComplete = false)
  | draining (hp : s.producer.ended = true) {us : List (Message Json)} (hu : s.upstream = us ++ [none])
      (hus : none ∉ us) (hv : s.validator ≠ .returned) (hd : none ∉ s.downstream)
      (hend : s.shutdownComplete = false)
  | ending (hp : s.producer.ended = true) (hu : s.upstream = []) (hv : s.validator = .returned)
      {ds : List (Message EventToWrite)} (hd : s.downstream = ds ++ [none]) (hds : none ∉ ds)
      (hend : s.shutdownComplete = false)
  | ended (hp : s.producer.ended = true) (hu : s.upstream = []) (hv : s.validator = .returned)
      (hd : s.downstream = []) (hend : s.shutdownComplete = true)

/-- The submissions that the counters of the threads have settled. -/
def settled (s : WriterPipeline) : Nat := s.totalWritten + s.totalRejected + s.totalDups

/-- The submissions that `numLive` stands for, with the one that the producer has still to count. -/
def counted (s : WriterPipeline) : Int := s.numLive + s.producer.uncounted

/-- The invariant of the counters and queues. -/
structure Inv (s : WriterPipeline) : Prop where
  once : ∀ k, s.live.count k + (s.writer.batch.map Prod.fst).count k +
    (s.outcomes.map Prod.fst).count k = if k < s.submitted.length then 1 else 0
  processed : s.totalProcessed = s.settled + s.live.length + s.writer.batch.length
  numLive : s.counted = s.live.length
  stage : Stage s
  flushInbox : s.flushInbox ≠ [] → s.writer = .returned ∧ s.shutdownComplete = true
  flushed : s.producer = .flushed → s.flushInbox ≠ []

theorem length_writeLoop {ord : IndexOrder} {filters : List FilterInfo} {prevId : Option Bytes}
    {db db' : Db} {levIds : List Nat} {evs evs' : List EventToWrite}
    (h : writeLoop ord filters prevId db levIds evs = .ok (db', evs')) : evs'.length = evs.length := by
  induction evs generalizing prevId db levIds evs' with
  | nil =>
    cases h
    rfl
  | cons ev evs ih =>
    obtain ⟨⟨db₁, levIds', ev'⟩, -, h⟩ := bind_eq_ok.1 h
    obtain ⟨⟨db₂, rest'⟩, hrest, h⟩ := bind_eq_ok.1 h
    cases h
    rw [List.length_cons, List.length_cons, ih hrest]

/-- `writeEvents` hands back as many events as it is given. -/
theorem length_writeEvents {S : StdSort} {ord : IndexOrder} {hex : HexCodec} {text : JsonText}
    {cache : NegentropyFilterCache} {db db' : Db} {evs evs' : List EventToWrite}
    (h : (writeEvents S ord hex text cache db evs).2 = .ok (db', evs')) : evs'.length = evs.length := by
  rw [length_writeLoop (writeEvents_eq_ok h), (S.perm _ _).length_eq]

/-! ## What a step does to the places -/

/-- The five things that a step can do: move a message along, submit, take an event into the batch,
settle a submission, or settle the batch. -/
inductive Effect (s s' : WriterPipeline) : Prop
  | move (hlive : s'.live.Perm s.live) (hbatch : s'.writer.batch = s.writer.batch)
      (hout : s'.outcomes = s.outcomes) (hsub : s'.submitted = s.submitted)
      (hproc : s'.totalProcessed = s.totalProcessed) (hset : s'.settled = s.settled)
      (hcount : s'.counted = s.counted)
  | submit (input : PipelineInput) (hlive : s'.live.Perm (s.submitted.length :: s.live))
      (hbatch : s'.writer.batch = s.writer.batch) (hout : s'.outcomes = s.outcomes)
      (hsub : s'.submitted = s.submitted ++ [input]) (hproc : s'.totalProcessed = s.totalProcessed + 1)
      (hset : s'.settled = s.settled) (hcount : s'.counted = s.counted + 1)
  | collect (p : Nat × EventToWrite) (hlive : s.live.Perm (p.1 :: s'.live))
      (hbatch : s'.writer.batch = s.writer.batch ++ [p]) (hout : s'.outcomes = s.outcomes)
      (hsub : s'.submitted = s.submitted) (hproc : s'.totalProcessed = s.totalProcessed)
      (hset : s'.settled = s.settled) (hcount : s'.counted = s.counted - 1)
  | settle (p : Nat × PipelineOutcome) (hlive : s.live.Perm (p.1 :: s'.live))
      (hbatch : s'.writer.batch = s.writer.batch) (hout : s'.outcomes = s.outcomes ++ [p])
      (hsub : s'.submitted = s.submitted) (hproc : s'.totalProcessed = s.totalProcessed)
      (hset : s'.settled = s.settled + 1) (hcount : s'.counted = s.counted - 1)
  | write (hlive : s'.live.Perm s.live) (hbatch : s'.writer.batch = [])
      (hout : s'.outcomes = s.outcomes ++ s.writer.batch.map fun p => (p.1, .passed p.2))
      (hsub : s'.submitted = s.submitted) (hproc : s'.totalProcessed = s.totalProcessed)
      (hset : s'.settled = s.settled + s.writer.batch.length) (hcount : s'.counted = s.counted)

/-- Nothing follows the mark of the end in the validator. -/
theorem Stage.upstream_end (h : Stage s) {rest : List (Message Json)}
    (hv : s.validator = .working (none :: rest)) : rest = [] ∧ s.validatorInbox = [] := by
  have hu : s.upstream = none :: (rest ++ s.validatorInbox) := by
    rw [upstream, hv]
    rfl
  cases h with
  | accepting _ hno => exact absurd (hu ▸ List.mem_cons_self) hno
  | @draining _ us hlast hus =>
    rw [hu] at hlast
    cases us with
    | nil =>
      rw [List.nil_append, List.cons.injEq] at hlast
      exact List.append_eq_nil_iff.1 hlast.2
    | cons u us =>
      rw [List.cons_append, List.cons.injEq] at hlast
      exact absurd (hlast.1 ▸ List.mem_cons_self) hus
  | ending _ hempty => exact absurd (hu.symm.trans hempty) (List.cons_ne_nil _ _)
  | ended _ hempty => exact absurd (hu.symm.trans hempty) (List.cons_ne_nil _ _)

/-- Nothing follows the mark of the end in the writer. -/
theorem Stage.downstream_end (h : Stage s) {snapshot : Db} {rest : List (Message EventToWrite)}
    {proc : List (Nat × EventToWrite)} (hw : s.writer = .collecting snapshot (none :: rest) proc) :
    rest = [] ∧ s.writerInbox = [] := by
  have hd : s.downstream = none :: (rest ++ s.writerInbox) := by
    rw [downstream, hw]
    rfl
  cases h with
  | accepting _ _ _ hno => exact absurd (hd ▸ List.mem_cons_self) hno
  | draining _ _ _ _ hno => exact absurd (hd ▸ List.mem_cons_self) hno
  | @ending _ _ _ ds hlast hds =>
    rw [hd] at hlast
    cases ds with
    | nil =>
      rw [List.nil_append, List.cons.injEq] at hlast
      exact List.append_eq_nil_iff.1 hlast.2
    | cons d ds =>
      rw [List.cons_append, List.cons.injEq] at hlast
      exact absurd (hlast.1 ▸ List.mem_cons_self) hds
  | ended _ _ _ hempty => exact absurd (hd.symm.trans hempty) (List.cons_ne_nil _ _)

/-- Every step has one of the five effects. -/
theorem Step.effect (hstep : Step cfg env s s') (h : Stage s) : Effect s s' := by
  cases hstep with
  | @process input hnull hp =>
    refine .submit input ?_ rfl rfl rfl rfl rfl ?_
    · simp [live, hp, Producer.held, upstream, downstream]
    · simp [counted, hp, Producer.uncounted]
  | count hp | flush hp | flushed hp =>
    refine .move ?_ rfl rfl rfl rfl rfl ?_
    · simp [live, hp, Producer.held, upstream, downstream]
    · simp [counted, hp, Producer.uncounted]
  | pushJson hp | pushEvent hp =>
    -- the serial goes from the producer to the end of a queue
    refine .move (List.perm_iff_count.2 fun a => ?_) rfl rfl rfl rfl rfl ?_
    · simp only [live, hp, Producer.held, upstream, downstream, serials_append, serials_cons_some,
        serials_nil, List.map_cons, List.map_nil, List.count_append, List.count_cons, List.count_nil]
      omega
    · simp [counted, hp, Producer.uncounted]
  | validatorPop hv | validatorNext hv =>
    refine .move ?_ rfl rfl rfl rfl rfl rfl
    simp [live, hv, Validator.msgs, upstream, downstream]
  | validatorEnd hv =>
    -- what the validator leaves behind when it returns is nothing
    obtain ⟨rfl, hin⟩ := h.upstream_end hv
    refine .move ?_ rfl rfl rfl rfl rfl rfl
    simp [live, hv, hin, Validator.msgs, upstream, downstream]
  | @reject k v rest now e hv hbad =>
    refine .settle (k, .rejected e) ?_ rfl rfl rfl rfl ?_ ?_
    · simp [live, hv, Validator.msgs, upstream, downstream]
    · simp only [settled]
      omega
    · simp only [counted]
      omega
  | accept now hv hgood =>
    refine .move (List.perm_iff_count.2 fun a => ?_) rfl rfl rfl rfl rfl rfl
    simp only [live, hv, Validator.msgs, upstream, downstream, serials_append, serials_cons_some,
      serials_nil, List.count_append, List.count_cons, List.count_nil]
    omega
  | writerPop hw | «open» hw | unshift hw | collected hw | skip hw | finish hw | again hw =>
    refine .move ?_ ?_ rfl rfl rfl rfl rfl
    · simp [live, hw, PipelineWriter.newEvents, upstream, downstream]
    · simp [hw, PipelineWriter.batch]
  | writerEnd hw hroom =>
    obtain ⟨rfl, hin⟩ := h.downstream_end hw
    refine .move ?_ ?_ rfl rfl rfl rfl rfl
    · simp [live, hw, hin, PipelineWriter.newEvents, upstream, downstream]
    · simp [hw, PipelineWriter.batch]
  | @duplicate snapshot k ev rest proc hw hroom hdup =>
    refine .settle (k, .duplicate ev) (List.perm_iff_count.2 fun a => ?_) ?_ rfl rfl rfl ?_ ?_
    · simp only [live, hw, PipelineWriter.newEvents, upstream, downstream, serials_append,
        serials_cons_some, List.count_append, List.count_cons]
      omega
    · simp [hw, PipelineWriter.batch]
    · simp only [settled]
      omega
    · simp only [counted]
      omega
  | @collect snapshot k ev rest proc hw hroom hnew =>
    refine .collect (k, ev) (List.perm_iff_count.2 fun a => ?_) ?_ rfl rfl rfl rfl ?_
    · simp only [live, hw, PipelineWriter.newEvents, upstream, downstream, serials_append,
        serials_cons_some, List.count_append, List.count_cons]
      omega
    · simp [hw, PipelineWriter.batch]
    · simp only [counted]
      omega
  | @write proc cache db' evs' hw hne hok =>
    -- `writeEvents` hands back the whole batch, so that what is not counted as written is a duplicate
    have hlen := length_writeEvents (congrArg Prod.snd hok)
    have hle : numWritten evs' ≤ evs'.length := List.countP_le_length
    rw [List.length_map] at hlen
    refine .write ?_ rfl ?_ rfl rfl ?_ rfl
    · simp [live, hw, PipelineWriter.newEvents, upstream, downstream]
    · simp [hw, PipelineWriter.batch]
    · simp only [settled, hw, PipelineWriter.batch]
      omega
  | other henv => exact .move (.refl _) rfl rfl rfl rfl rfl rfl

/-! ## The invariants -/

theorem Effect.once (heff : Effect s s') (h : Inv s) (k : Nat) :
    s'.live.count k + (s'.writer.batch.map Prod.fst).count k + (s'.outcomes.map Prod.fst).count k =
      if k < s'.submitted.length then 1 else 0 := by
  have hk := h.once k
  cases heff with
  | move hlive hbatch hout hsub => rw [hlive.count_eq, hbatch, hout, hsub, hk]
  | submit input hlive hbatch hout hsub =>
    rw [hlive.count_eq, hbatch, hout, hsub, List.count_cons, List.length_append,
      List.length_singleton]
    simp only [beq_iff_eq]
    split_ifs at hk ⊢ <;> omega
  | collect p hlive hbatch hout hsub =>
    rw [hlive.count_eq, List.count_cons] at hk
    rw [hbatch, hout, hsub, List.map_append, List.count_append, ← hk, List.map_singleton,
      List.count_singleton]
    omega
  | settle p hlive hbatch hout hsub =>
    rw [hlive.count_eq, List.count_cons] at hk
    rw [hbatch, hout, hsub, List.map_append, List.count_append, ← hk, List.map_singleton,
      List.count_singleton]
    omega
  | write hlive hbatch hout hsub =>
    have hpassed : (s.writer.batch.map fun p => (p.1, PipelineOutcome.passed p.2)).map Prod.fst =
        s.writer.batch.map Prod.fst := by
      rw [List.map_map]
      rfl
    rw [hlive.count_eq, hbatch, hout, hsub, List.map_append, hpassed, List.count_append, ← hk,
      List.map_nil, List.count_nil]
    omega

theorem Effect.processed (heff : Effect s s')
    (h : s.totalProcessed = s.settled + s.live.length + s.writer.batch.length) :
    s'.totalProcessed = s'.settled + s'.live.length + s'.writer.batch.length := by
  cases heff with
  | move hlive hbatch _ _ hproc hset => rw [hproc, hset, hlive.length_eq, hbatch, h]
  | submit input hlive hbatch _ _ hproc hset =>
    rw [hproc, hset, hlive.length_eq, hbatch, h, List.length_cons]
    omega
  | collect p hlive hbatch _ _ hproc hset =>
    rw [hproc, hset, h, hlive.length_eq, hbatch, List.length_cons, List.length_append,
      List.length_singleton]
    omega
  | settle p hlive hbatch _ _ hproc hset =>
    rw [hproc, hset, h, hlive.length_eq, hbatch, List.length_cons]
    omega
  | write hlive hbatch _ _ hproc hset =>
    rw [hproc, hset, h, hlive.length_eq, hbatch, List.length_nil]
    omega

theorem Effect.numLive (heff : Effect s s') (h : s.counted = s.live.length) :
    s'.counted = s'.live.length := by
  cases heff with
  | move hlive _ _ _ _ _ hcount => rw [hcount, h, hlive.length_eq]
  | submit input hlive _ _ _ _ _ hcount =>
    rw [hcount, h, hlive.length_eq, List.length_cons, Nat.cast_succ]
  | collect p hlive _ _ _ _ _ hcount =>
    rw [hcount, h, hlive.length_eq, List.length_cons, Nat.cast_succ, add_sub_cancel_right]
  | settle p hlive _ _ _ _ _ hcount =>
    rw [hcount, h, hlive.length_eq, List.length_cons, Nat.cast_succ, add_sub_cancel_right]
  | write hlive _ _ _ _ _ hcount => rw [hcount, h, hlive.length_eq]

/-- A stage depends on the queues and the marks only. -/
theorem Stage.congr (h : Stage s) (hp : s'.producer.ended = s.producer.ended)
    (hu : s'.upstream = s.upstream) (hv : s'.validator = .returned ↔ s.validator = .returned)
    (hd : s'.downstream = s.downstream) (hend : s'.shutdownComplete = s.shutdownComplete) :
    Stage s' := by
  cases h with
  | accepting h₁ h₂ h₃ h₄ h₅ =>
    exact .accepting (hp.trans h₁) (hu ▸ h₂) (fun h => h₃ (hv.1 h)) (hd ▸ h₄) (hend.trans h₅)
  | draining h₁ h₂ h₃ h₄ h₅ h₆ =>
    exact .draining (hp.trans h₁) (hu.trans h₂) h₃ (fun h => h₄ (hv.1 h)) (hd ▸ h₅) (hend.trans h₆)
  | ending h₁ h₂ h₃ h₄ h₅ h₆ =>
    exact .ending (hp.trans h₁) (hu.trans h₂) (hv.2 h₃) (hd.trans h₄) h₅ (hend.trans h₆)
  | ended h₁ h₂ h₃ h₄ h₅ =>
    exact .ended (hp.trans h₁) (hu.trans h₂) (hv.2 h₃) (hd.trans h₄) (hend.trans h₅)

/-- What is left of a marked queue when a message has been taken from its front. -/
theorem marked_tail {α : Type} {p : Nat × α} {msgs us : List (Message α)}
    (h : some p :: msgs = us ++ [none]) (hus : none ∉ us) : ∃ us', msgs = us' ++ [none] ∧ none ∉ us' := by
  cases us with
  | nil => cases h
  | cons u us =>
    rw [List.cons_append, List.cons.injEq] at h
    exact ⟨us, h.2, fun hmem => hus (List.mem_cons_of_mem _ hmem)⟩

theorem not_mem_append_some {α : Type} {msgs : List (Message α)} {p : Nat × α} (h : none ∉ msgs) :
    none ∉ msgs ++ [some p] := by
  simpa using h

/-- The validator takes a message, which may leave something for the writer. -/
theorem Stage.validated (h : Stage s) {k : Nat} {v : Json} {rest : List (Message Json)}
    (hv : s.validator = .working (some (k, v) :: rest)) (hp : s'.producer = s.producer)
    (hin : s'.validatorInbox = s.validatorInbox) (hv' : s'.validator = .working rest)
    (hd : none ∉ s.downstream → none ∉ s'.downstream)
    (hend : s'.shutdownComplete = s.shutdownComplete) : Stage s' := by
  have hne : s'.validator ≠ .returned := by
    rw [hv']
    nofun
  have hu : s.upstream = some (k, v) :: s'.upstream := by
    rw [upstream, upstream, hv, hv', hin]
    rfl
  cases h with
  | accepting h₁ h₂ _ h₄ h₅ =>
    refine .accepting (hp ▸ h₁) (fun hmem => h₂ ?_) hne (hd h₄) (hend.trans h₅)
    rw [hu]
    exact List.mem_cons_of_mem _ hmem
  | draining h₁ h₂ h₃ _ h₅ h₆ =>
    obtain ⟨us', hus', hno⟩ := marked_tail (hu.symm.trans h₂) h₃
    exact .draining (hp ▸ h₁) hus' hno hne (hd h₅) (hend.trans h₆)
  | ending _ _ h₃ => exact absurd (hv.symm.trans h₃) nofun
  | ended _ _ h₃ => exact absurd (hv.symm.trans h₃) nofun

/-- The writer takes an event. -/
theorem Stage.collected (h : Stage s) {k : Nat} {ev : EventToWrite} (hp : s'.producer = s.producer)
    (hu : s'.upstream = s.upstream) (hv : s'.validator = s.validator)
    (hd : s.downstream = some (k, ev) :: s'.downstream)
    (hend : s'.shutdownComplete = s.shutdownComplete) : Stage s' := by
  have hno : none ∉ s.downstream → none ∉ s'.downstream := by
    intro hnot hmem
    exact hnot (hd ▸ List.mem_cons_of_mem _ hmem)
  cases h with
  | accepting h₁ h₂ h₃ h₄ h₅ => exact .accepting (hp ▸ h₁) (hu ▸ h₂) (hv ▸ h₃) (hno h₄) (hend.trans h₅)
  | draining h₁ h₂ h₃ h₄ h₅ h₆ =>
    exact .draining (hp ▸ h₁) (hu.trans h₂) h₃ (hv ▸ h₄) (hno h₅) (hend.trans h₆)
  | ending h₁ h₂ h₃ h₄ h₅ h₆ =>
    obtain ⟨ds', hds', hno'⟩ := marked_tail (hd.symm.trans h₄) h₅
    exact .ending (hp ▸ h₁) (hu.trans h₂) (hv.trans h₃) hds' hno' (hend.trans h₆)
  | ended _ _ _ h₄ => exact absurd (hd.symm.trans h₄) (List.cons_ne_nil _ _)

/-- The producer pushes a message before it calls `flush`. -/
theorem Stage.pushed (h : Stage s) (hp : s.producer.ended = false) (hp' : s'.producer.ended = false)
    (hv : s'.validator = s.validator) (hu : none ∉ s.upstream → none ∉ s'.upstream)
    (hd : none ∉ s.downstream → none ∉ s'.downstream)
    (hend : s'.shutdownComplete = s.shutdownComplete) : Stage s' := by
  cases h with
  | accepting _ h₂ h₃ h₄ h₅ => exact .accepting hp' (hu h₂) (hv ▸ h₃) (hd h₄) (hend.trans h₅)
  | draining h₁ | ending h₁ | ended h₁ =>
    rw [hp] at h₁
    cases h₁

theorem Step.stage (hstep : Step cfg env s s') (h : Stage s) : Stage s' := by
  cases hstep with
  | process hnull hp => exact h.congr (by rw [hp]; rfl) rfl .rfl rfl rfl
  | count hp => exact h.congr (by rw [hp]; rfl) rfl .rfl rfl rfl
  | pushJson hp =>
    refine h.pushed (by rw [hp]; rfl) rfl rfl ?_ id rfl
    rw [upstream, upstream, ← List.append_assoc]
    exact not_mem_append_some
  | pushEvent hp =>
    refine h.pushed (by rw [hp]; rfl) rfl rfl id ?_ rfl
    rw [downstream, downstream, ← List.append_assoc]
    exact not_mem_append_some
  -- the mark comes last in the inbox of the validator
  | flush hp =>
    have hidle : s.producer.ended = false := by rw [hp]; rfl
    cases h with
    | accepting _ h₂ h₃ h₄ h₅ =>
      refine .draining rfl ?_ h₂ h₃ h₄ h₅
      rw [upstream, upstream, List.append_assoc]
    | draining h₁ | ending h₁ | ended h₁ =>
      rw [hidle] at h₁
      cases h₁
  | flushed hp hin => exact h.congr (by rw [hp]; rfl) rfl .rfl rfl rfl
  | validatorPop hv hin =>
    refine h.congr rfl ?_ ?_ rfl rfl
    · rw [upstream, upstream, hv]
      exact List.append_nil _
    · rw [hv]
      exact ⟨nofun, nofun⟩
  | validatorNext hv =>
    refine h.congr rfl ?_ ?_ rfl rfl
    · rw [upstream, upstream, hv]
      rfl
    · rw [hv]
      exact ⟨nofun, nofun⟩
  | validatorEnd hv =>
    -- the mark goes on to the writer, and nothing is left behind it
    obtain ⟨rfl, hin⟩ := h.upstream_end hv
    have hu : none ∈ s.upstream := by
      rw [upstream, hv]
      exact List.mem_cons_self
    cases h with
    | accepting _ h₂ => exact absurd hu h₂
    | draining h₁ _ _ _ h₅ h₆ =>
      refine .ending h₁ ?_ rfl ?_ h₅ h₆
      · exact hin
      · rw [downstream, downstream, List.append_assoc]
    | ending _ h₂ | ended _ h₂ =>
      rw [h₂] at hu
      cases hu
  | reject now hv hbad => exact h.validated hv rfl rfl rfl id rfl
  | accept now hv hgood =>
    refine h.validated hv rfl rfl rfl ?_ rfl
    rw [downstream, downstream, ← List.append_assoc]
    exact not_mem_append_some
  | writerPop hw hin =>
    refine h.congr rfl rfl .rfl ?_ rfl
    rw [downstream, downstream, hw]
    exact List.append_nil _
  | «open» hw =>
    refine h.congr rfl rfl .rfl ?_ rfl
    rw [downstream, downstream, hw]
    rfl
  | unshift hw hfull =>
    refine h.congr rfl rfl .rfl ?_ rfl
    rw [downstream, downstream, hw]
    rfl
  | writerEnd hw hroom =>
    obtain ⟨rfl, hin⟩ := h.downstream_end hw
    have hd : none ∈ s.downstream := by
      rw [downstream, hw]
      exact List.mem_cons_self
    cases h with
    | accepting _ _ _ h₄ => exact absurd hd h₄
    | draining _ _ _ _ h₅ => exact absurd hd h₅
    | ending h₁ h₂ h₃ => exact .ended h₁ h₂ h₃ hin rfl
    | ended _ _ _ h₄ =>
      rw [h₄] at hd
      cases hd
  | @duplicate snapshot k ev rest proc hw hroom hdup =>
    have hd : s.downstream = some (k, ev) :: (rest ++ s.writerInbox) := by
      rw [downstream, hw]
      rfl
    exact h.collected rfl rfl rfl hd rfl
  | @collect snapshot k ev rest proc hw hroom hnew =>
    have hd : s.downstream = some (k, ev) :: (rest ++ s.writerInbox) := by
      rw [downstream, hw]
      rfl
    exact h.collected rfl rfl rfl hd rfl
  | collected hw | skip hw | write hw | finish hw | again hw =>
    refine h.congr rfl rfl .rfl ?_ rfl
    rw [downstream, downstream, hw]
    rfl
  | other henv => exact h.congr rfl rfl .rfl rfl rfl

/-- The writer pushes to `flushInbox` as the last thing that it does. -/
theorem Step.flushInbox (hstep : Step cfg env s s')
    (h : s.flushInbox ≠ [] → s.writer = .returned ∧ s.shutdownComplete = true)
    (hin : s'.flushInbox ≠ []) : s'.writer = .returned ∧ s'.shutdownComplete = true := by
  cases hstep with
  | finish hw hend => exact ⟨rfl, hend⟩
  | writerPop hw | «open» hw | unshift hw | writerEnd hw | duplicate hw | collect hw | collected hw
  | skip hw | write hw | again hw => exact absurd (hw.symm.trans (h hin).1) nofun
  | _ => exact h hin

theorem Step.flushed_of (hstep : Step cfg env s s') (h : s.producer = .flushed → s.flushInbox ≠ [])
    (hp : s'.producer = .flushed) : s'.flushInbox ≠ [] := by
  cases hstep with
  | flushed _ hin => exact hin
  | finish => exact List.append_ne_nil_of_right_ne_nil _ (List.cons_ne_nil _ _)
  | process | count | pushJson | pushEvent | flush => cases hp
  | _ => exact h hp

/-- The step lemma. -/
theorem Step.inv (hstep : Step cfg env s s') (h : Inv s) : Inv s' :=
  have heff := hstep.effect h.stage
  ⟨heff.once h, heff.processed h.processed, heff.numLive h.numLive, hstep.stage h.stage,
    hstep.flushInbox h.flushInbox, hstep.flushed_of h.flushed⟩

theorem inv_init (db : Db) : Inv { db := db } := by
  refine ⟨fun k => ?_, rfl, rfl, .accepting rfl nofun nofun nofun rfl, fun h => absurd rfl h, nofun⟩
  simp [live, upstream, downstream, Producer.held, Validator.msgs, PipelineWriter.newEvents,
    PipelineWriter.batch]

/-! ## Every message belongs to its submission -/

/-- A later submission does not change the earlier ones. -/
theorem submitted_append {subs : List PipelineInput} {k : Nat} {x input : PipelineInput}
    (h : subs[k]? = some x) : (subs ++ [input])[k]? = some x := by
  obtain ⟨hk, -⟩ := List.getElem?_eq_some_iff.1 h
  rw [List.getElem?_append_left hk, h]

/-- The producer holds nothing that it did not hold. -/
theorem Traced.hold (h : Traced cfg s) {p : Producer} (hp : p.held ⊆ s.producer.held) :
    Traced cfg { s with producer := p } :=
  { h with held := fun q hq => h.held q (hp hq) }

/-- The validator has nothing to take that it did not have. -/
theorem Traced.validate (h : Traced cfg s) {v : Validator} {inbox : List (Message Json)}
    (hv : v.msgs ++ inbox ⊆ s.upstream) :
    Traced cfg { s with validator := v, validatorInbox := inbox } :=
  { h with upstream := fun k v hmem => h.upstream k v (hv hmem) }

/-- The writer has nothing to take that it did not have, and its batch has not grown. -/
theorem Traced.advance (h : Traced cfg s) {w : PipelineWriter} {inbox : List (Message EventToWrite)}
    (hw : w.newEvents ++ inbox ⊆ s.downstream) (hbatch : w.batch ⊆ s.writer.batch)
    (hdb : ∀ db newEvents proc, w = .collecting db newEvents proc → db ∈ s.snapshots) :
    Traced cfg { s with writer := w, writerInbox := inbox } :=
  { h with
    downstream := fun k ev hmem => h.downstream k ev (hw hmem)
    batch := fun p hp => h.batch p (hbatch hp)
    snapshot := hdb }

/-- A message for the validator. -/
theorem Traced.toValidator (h : Traced cfg s) {m : Message Json}
    (hm : ∀ k v, m = some (k, v) → s.submitted[k]? = some (.json v)) :
    Traced cfg { s with validatorInbox := s.validatorInbox ++ [m] } := by
  refine { h with upstream := ?_ }
  intro k v hmem
  rw [WriterPipeline.upstream, ← List.append_assoc] at hmem
  rcases List.mem_append.1 hmem with hmem | hmem
  · exact h.upstream k v hmem
  · exact hm k v (List.mem_singleton.1 hmem).symm

/-- A message for the writer. -/
theorem Traced.toWriter (h : Traced cfg s) {m : Message EventToWrite}
    (hm : ∀ k ev, m = some (k, ev) → ∃ input, s.submitted[k]? = some input ∧ Carries cfg input ev) :
    Traced cfg { s with writerInbox := s.writerInbox ++ [m] } := by
  refine { h with downstream := ?_ }
  intro k ev hmem
  rw [WriterPipeline.downstream, ← List.append_assoc] at hmem
  rcases List.mem_append.1 hmem with hmem | hmem
  · exact h.downstream k ev hmem
  · exact hm k ev (List.mem_singleton.1 hmem).symm

/-- Outcomes that explain what has happened. -/
theorem Traced.settle (h : Traced cfg s) {os : List (Nat × PipelineOutcome)}
    (hos : ∀ p ∈ os, ∃ input, s.submitted[p.1]? = some input ∧ Explains cfg s.snapshots input p.2) :
    Traced cfg { s with outcomes := s.outcomes ++ os } := by
  refine { h with outcomes := ?_ }
  intro p hmem
  rcases List.mem_append.1 hmem with hmem | hmem
  · exact h.outcomes p hmem
  · exact hos p hmem

/-- A new submission leaves what is known about the earlier ones as it is. -/
theorem Traced.process (h : Traced cfg s) (input : PipelineInput) : Traced cfg { s with
    producer := .processed s.submitted.length input
    submitted := s.submitted ++ [input] } := by
  refine ⟨?_, ?_, ?_, ?_, ?_, h.snapshot⟩
  · intro p hmem
    rw [List.mem_singleton.1 hmem]
    exact List.getElem?_concat_length
  · exact fun k v hmem => submitted_append (h.upstream k v hmem)
  · intro k ev hmem
    obtain ⟨x, hx, hc⟩ := h.downstream k ev hmem
    exact ⟨x, submitted_append hx, hc⟩
  · intro p hmem
    obtain ⟨x, hx, hc⟩ := h.batch p hmem
    exact ⟨x, submitted_append hx, hc⟩
  · intro p hmem
    obtain ⟨x, hx, hc⟩ := h.outcomes p hmem
    exact ⟨x, submitted_append hx, hc⟩

theorem Traced.pushJson (h : Traced cfg s) {k : Nat} {v : Json} (hp : s.producer = .counted k (.json v)) :
    Traced cfg { s with
      validatorInbox := s.validatorInbox ++ [some (k, v)]
      producer := .idle } := by
  have hsub : s.submitted[k]? = some (.json v) := by
    apply h.held (k, .json v)
    rw [hp]
    exact List.mem_singleton_self _
  refine (h.toValidator (m := some (k, v)) ?_).hold (List.nil_subset _)
  rintro k' v' ⟨⟩
  exact hsub

theorem Traced.pushEvent (h : Traced cfg s) {k : Nat} {ev : EventToWrite}
    (hp : s.producer = .counted k (.event ev)) : Traced cfg { s with
      writerInbox := s.writerInbox ++ [some (k, ev)]
      producer := .idle } := by
  have hsub : s.submitted[k]? = some (.event ev) := by
    apply h.held (k, .event ev)
    rw [hp]
    exact List.mem_singleton_self _
  refine (h.toWriter (m := some (k, ev)) ?_).hold (List.nil_subset _)
  rintro k' ev' ⟨⟩
  exact ⟨_, hsub, .event ev⟩

/-- The mark of the end belongs to no submission. -/
theorem Traced.flush (h : Traced cfg s) : Traced cfg { s with
    validatorInbox := s.validatorInbox ++ [none]
    producer := .flushing } := by
  refine (h.toValidator (m := none) ?_).hold (List.nil_subset _)
  intro k v heq
  cases heq

theorem Traced.validatorEnd (h : Traced cfg s) : Traced cfg { s with
    writerInbox := s.writerInbox ++ [none]
    validator := .returned } := by
  refine (h.toWriter (m := none) ?_).validate (List.subset_append_right _ _)
  intro k ev heq
  cases heq

/-- The message that the validator is about to take is of its submission. -/
theorem Traced.validating (h : Traced cfg s) {k : Nat} {v : Json} {rest : List (Message Json)}
    (hv : s.validator = .working (some (k, v) :: rest)) : s.submitted[k]? = some (.json v) ∧
      Traced cfg { s with validator := .working rest } := by
  have hu : s.upstream = some (k, v) :: (rest ++ s.validatorInbox) := by
    rw [WriterPipeline.upstream, hv]
    rfl
  refine ⟨h.upstream k v (hu ▸ List.mem_cons_self), h.validate ?_⟩
  rw [hu]
  exact List.subset_cons_self _ _

theorem Traced.reject (h : Traced cfg s) {k now : Nat} {v : Json} {rest : List (Message Json)} {e : Err}
    (hv : s.validator = .working (some (k, v) :: rest)) (hbad : verify cfg now v = .error e) :
    Traced cfg { s with
      validator := .working rest
      outcomes := s.outcomes ++ [(k, .rejected e)] } := by
  obtain ⟨hsub, hrest⟩ := h.validating hv
  apply hrest.settle
  intro p hp
  rw [List.mem_singleton.1 hp]
  exact ⟨.json v, hsub, .rejected hbad⟩

theorem Traced.accept (h : Traced cfg s) {k now : Nat} {v : Json} {rest : List (Message Json)}
    {packed : PackedEvent} {jsonStr : Bytes} (hv : s.validator = .working (some (k, v) :: rest))
    (hgood : verify cfg now v = .ok (packed, jsonStr)) : Traced cfg { s with
      writerInbox := s.writerInbox ++ [some (k, { packed := packed, jsonStr := jsonStr })]
      validator := .working rest } := by
  obtain ⟨hsub, hrest⟩ := h.validating hv
  apply hrest.toWriter
  rintro k' ev ⟨⟩
  exact ⟨.json v, hsub, .json hgood⟩

/-- The writer takes a snapshot, which the later outcomes may refer to. -/
theorem Traced.open (h : Traced cfg s) {newEvents : List (Message EventToWrite)}
    (hw : s.writer = .popped newEvents) : Traced cfg { s with
      writer := .collecting s.db newEvents []
      snapshots := s.snapshots ++ [s.db] } := by
  refine { h with downstream := ?_, batch := ?_, outcomes := ?_, snapshot := ?_ }
  · intro k ev hmem
    apply h.downstream k ev
    rw [WriterPipeline.downstream, hw]
    exact hmem
  · intro p hp
    cases hp
  · intro p hmem
    obtain ⟨input, hinput, hexp⟩ := h.outcomes p hmem
    exact ⟨input, hinput, hexp.append s.db⟩
  · rintro db newEvents' proc ⟨⟩
    exact List.mem_append_right _ (List.mem_singleton_self _)

/-- The event that the writer is about to take is of its submission. -/
theorem Traced.collecting (h : Traced cfg s) {snapshot : Db} {k : Nat} {ev : EventToWrite}
    {rest : List (Message EventToWrite)} {proc : List (Nat × EventToWrite)}
    (hw : s.writer = .collecting snapshot (some (k, ev) :: rest) proc) :
    (∃ input, s.submitted[k]? = some input ∧ Carries cfg input ev) ∧ snapshot ∈ s.snapshots ∧
      Traced cfg { s with writer := .collecting snapshot rest proc } := by
  have hd : s.downstream = some (k, ev) :: (rest ++ s.writerInbox) := by
    rw [WriterPipeline.downstream, hw]
    rfl
  have hdb : snapshot ∈ s.snapshots := h.snapshot _ _ _ hw
  refine ⟨h.downstream k ev (hd ▸ List.mem_cons_self), hdb, h.advance ?_ ?_ ?_⟩
  · rw [hd]
    exact List.subset_cons_self _ _
  · rw [hw]
    exact List.Subset.refl _
  · rintro db newEvents proc' ⟨⟩
    exact hdb

theorem Traced.duplicate (h : Traced cfg s) {snapshot : Db} {k : Nat} {ev : EventToWrite}
    {rest : List (Message EventToWrite)} {proc : List (Nat × EventToWrite)}
    (hw : s.writer = .collecting snapshot (some (k, ev) :: rest) proc)
    (hdup : (snapshot.lookupEventById cfg.ord ev.packed.id).isSome = true) : Traced cfg { s with
      writer := .collecting snapshot rest proc
      outcomes := s.outcomes ++ [(k, .duplicate ev)] } := by
  obtain ⟨⟨input, hinput, hc⟩, hdb, hrest⟩ := h.collecting hw
  apply hrest.settle
  intro p hp
  rw [List.mem_singleton.1 hp]
  exact ⟨input, hinput, .duplicate hc hdb hdup⟩

theorem Traced.collect (h : Traced cfg s) {snapshot : Db} {k : Nat} {ev : EventToWrite}
    {rest : List (Message EventToWrite)} {proc : List (Nat × EventToWrite)}
    (hw : s.writer = .collecting snapshot (some (k, ev) :: rest) proc) :
    Traced cfg { s with writer := .collecting snapshot rest (proc ++ [(k, ev)]) } := by
  obtain ⟨hev, hdb, hrest⟩ := h.collecting hw
  refine { hrest with batch := ?_, snapshot := ?_ }
  · intro p hmem
    rcases List.mem_append.1 hmem with hmem | hmem
    · exact hrest.batch p hmem
    · rw [List.mem_singleton.1 hmem]
      exact hev
  · rintro db newEvents proc' ⟨⟩
    exact hdb

/-- The writer has no batch. -/
theorem Traced.idle (h : Traced cfg s) {w : PipelineWriter} {inbox : List (Message EventToWrite)}
    (hw : w.newEvents ++ inbox ⊆ s.downstream) (hbatch : w.batch = [])
    (hno : ∀ db newEvents proc, w ≠ .collecting db newEvents proc) :
    Traced cfg { s with writer := w, writerInbox := inbox } :=
  h.advance hw (hbatch ▸ List.nil_subset _) fun db newEvents proc heq => absurd heq (hno db newEvents proc)

/-- The writer passes its batch to `writeEvents`. -/
theorem Traced.write (h : Traced cfg s) {proc : List (Nat × EventToWrite)} (hw : s.writer = .writing proc) :
    Traced cfg { s with
      writer := .finishing
      outcomes := s.outcomes ++ proc.map fun p => (p.1, .passed p.2) } := by
  have hfinish : Traced cfg { s with writer := .finishing } :=
    h.idle (List.subset_append_right _ _) rfl (fun _ _ _ heq => by cases heq)
  apply hfinish.settle
  intro p hp
  obtain ⟨q, hq, rfl⟩ := List.mem_map.1 hp
  obtain ⟨input, hinput, hc⟩ := h.batch q (by rw [hw]; exact hq)
  exact ⟨input, hinput, .passed hc⟩

/-- The writer leaves the inner loop, with the batch that it has. -/
theorem Traced.stopCollecting (h : Traced cfg s) {snapshot : Db} {newEvents : List (Message EventToWrite)}
    {proc : List (Nat × EventToWrite)} {inbox : List (Message EventToWrite)}
    (hw : s.writer = .collecting snapshot newEvents proc) (hin : inbox ⊆ s.downstream) :
    Traced cfg { s with writer := .writing proc, writerInbox := inbox } := by
  refine h.advance hin ?_ ?_
  · rw [hw]
    exact List.Subset.refl _
  · intro db newEvents proc heq
    cases heq

theorem Step.traced (hstep : Step cfg env s s') (h : Traced cfg s) : Traced cfg s' := by
  have hinbox : s.writerInbox ⊆ s.downstream := List.subset_append_right _ _
  cases hstep with
  | @process input => exact { h.process input with }
  | @count k input hp =>
    have hheld : (Producer.counted k input).held ⊆ s.producer.held := by
      rw [hp]
      exact List.Subset.refl _
    exact { h.hold hheld with }
  | pushJson hp => exact h.pushJson hp
  | pushEvent hp => exact h.pushEvent hp
  | flush => exact h.flush
  | flushed => exact h.hold (List.nil_subset _)
  | validatorPop =>
    apply h.validate
    rw [List.append_nil]
    exact List.subset_append_right _ _
  | validatorNext => exact h.validate (List.subset_append_right _ _)
  | validatorEnd => exact { h.validatorEnd with }
  | reject now hv hbad => exact { h.reject hv hbad with }
  | accept now hv hgood => exact h.accept hv hgood
  | writerPop =>
    refine h.idle ?_ rfl (fun _ _ _ heq => by cases heq)
    rw [List.append_nil]
    exact hinbox
  | «open» hw => exact h.open hw
  | unshift hw =>
    apply h.stopCollecting hw
    rw [downstream, hw]
    exact List.Subset.refl _
  | writerEnd hw => exact { h.stopCollecting hw hinbox with }
  | duplicate hw hroom hdup => exact { h.duplicate hw hdup with }
  | collect hw => exact { h.collect hw with }
  | collected hw => exact h.stopCollecting hw hinbox
  | write hw => exact { h.write hw with }
  | skip | again => exact h.idle hinbox rfl (fun _ _ _ heq => by cases heq)
  | finish =>
    have hreturned : Traced cfg { s with writer := .returned } :=
      h.idle hinbox rfl (fun _ _ _ heq => by cases heq)
    exact { hreturned with }
  | other => exact { h with }

theorem traced_init (cfg : PipelineConfig) (db : Db) : Traced cfg { db := db } :=
  ⟨nofun, nofun, nofun, nofun, nofun, nofun⟩

/-! ## Whole runs -/

variable {db : Db}

theorem Reachable.inv (h : Reachable cfg env db s) : Inv s := by
  induction h with
  | refl => exact inv_init db
  | tail _ hstep ih => exact hstep.inv ih

theorem Reachable.traced (h : Reachable cfg env db s) : Traced cfg s := by
  induction h with
  | refl => exact traced_init cfg db
  | tail _ hstep ih => exact hstep.traced ih

/-- The writer has pushed to `flushInbox`: nothing is on its way any more, and the batch is settled. -/
theorem Inv.drained (h : Inv s) (hp : s.producer = .flushed) : s.live = [] ∧ s.writer.batch = [] := by
  obtain ⟨hw, hend⟩ := h.flushInbox (h.flushed hp)
  have hbatch : s.writer.batch = [] := by
    rw [hw]
    rfl
  cases h.stage with
  | accepting _ _ _ _ hno | draining _ _ _ _ _ hno | ending _ _ _ _ _ hno =>
    rw [hend] at hno
    cases hno
  | ended _ hu _ hd =>
    refine ⟨?_, hbatch⟩
    rw [live, hu, hd, hp]
    rfl

/-- When `flush` returns, the counters add up, no submission is live, and every submission has exactly
one outcome, which is what has happened to it. -/
theorem flush_accounts_for_every_event (h : Reachable cfg env db s) (hp : s.producer = .flushed) :
    s.totalProcessed = s.totalWritten + s.totalRejected + s.totalDups ∧ s.numLive = 0 ∧
      ∀ k input, s.submitted[k]? = some input →
        (s.outcomes.map Prod.fst).count k = 1 ∧
          ∃ o, (k, o) ∈ s.outcomes ∧ Explains cfg s.snapshots input o := by
  have hinv := h.inv
  obtain ⟨hlive, hbatch⟩ := hinv.drained hp
  have hproc := hinv.processed
  have hnum := hinv.numLive
  rw [hlive, hbatch] at hproc
  rw [counted, hlive, hp] at hnum
  refine ⟨hproc, by simpa [Producer.uncounted] using hnum, ?_⟩
  intro k input hk
  have honce := hinv.once k
  have hlt : k < s.submitted.length := (List.getElem?_eq_some_iff.1 hk).1
  rw [hlive, hbatch, if_pos hlt, List.count_nil, List.map_nil, List.count_nil, zero_add, zero_add]
    at honce
  refine ⟨honce, ?_⟩
  have hmem : k ∈ s.outcomes.map Prod.fst := List.count_pos_iff.1 (by omega)
  obtain ⟨⟨k', o⟩, ho, rfl⟩ := List.mem_map.1 hmem
  obtain ⟨input', hinput, hexp⟩ := h.traced.outcomes _ ho
  cases hk.symm.trans hinput
  exact ⟨o, ho, hexp⟩

/-- The pipeline of `import --no-verify`, with batches of one event. -/
def importConfig : PipelineConfig where
  S := .insertion
  ord := byteOrder
  verifier := ⟨⟨fun _ => [], fun _ => false, fun _ _ _ => false⟩, hexCodec, emptyObjectText, .default, 0⟩
  writeBatchSize := 1
  verifyMsg := false
  verifyTime := false

/-- A note and a value that is no event: the note is written, the value rejected. -/
theorem flush_accounts_for_every_event_note :
    ∃ s, Reachable importConfig (fun _ _ => False) Db.init s ∧ s.producer = .flushed ∧
      s.submitted.length = 2 ∧ s.totalWritten = 1 ∧ s.totalRejected = 1 ∧
      s.totalProcessed = s.totalWritten + s.totalRejected + s.totalDups ∧ s.numLive = 0 ∧
      ∀ k input, s.submitted[k]? = some input →
        (s.outcomes.map Prod.fst).count k = 1 ∧
          ∃ o, (k, o) ∈ s.outcomes ∧ Explains importConfig s.snapshots input o := by
  have heval : ((writeEvents .insertion byteOrder hexCodec emptyObjectText {} Db.init [note]).2.map
      fun r => numWritten r.2) = .ok 1 := by
    decide +kernel
  obtain ⟨⟨db', evs'⟩, hok, hwritten⟩ := map_eq_ok.1 heval
  have hwrite : writeEvents .insertion byteOrder hexCodec emptyObjectText {} Db.init [note] =
      ((writeEvents .insertion byteOrder hexCodec emptyObjectText {} Db.init [note]).1,
        .ok (db', evs')) := by
    rw [← hok]
  have hstart : Reachable importConfig (fun _ _ => False) Db.init { db := Db.init } := .refl
  have hnote := ((hstart.tail (@Step.process _ _ _ (.event note) nofun rfl)).tail (.count rfl)).tail
    (.pushEvent rfl)
  have hboth := ((hnote.tail (@Step.process _ _ _ (.json (.boolean true)) nofun rfl)).tail
    (.count rfl)).tail (.pushJson rfl)
  have hchecked := (((hboth.tail (.flush rfl)).tail (.validatorPop rfl nofun)).tail
    (.reject 0 rfl rfl)).tail (.validatorEnd rfl)
  have hpopped := (hchecked.tail (.writerPop rfl nofun)).tail (.open rfl)
  have hbatch := (hpopped.tail (.collect rfl Nat.one_pos (by decide +kernel))).tail
    (.unshift rfl le_rfl)
  have hwritten' := (hbatch.tail (.write rfl nofun hwrite)).tail (.again rfl rfl)
  have hend := (((((hwritten'.tail (.writerPop rfl nofun)).tail (.open rfl)).tail
    (.writerEnd rfl Nat.one_pos)).tail (.skip rfl)).tail (.finish rfl rfl)).tail
    (.flushed rfl nofun)
  refine ⟨_, hend, rfl, rfl, ?_, rfl, flush_accounts_for_every_event hend rfl⟩
  exact (Nat.zero_add _).trans hwritten

end WriterPipeline

end Strfry
