import Strfry.FriedRestore

/-!
# Two ways into the pipeline

An event comes to the writer packed, straight from the producer, or as JSON by way of the validator. For JSON
that passes the check at any time the second way is the first one with a detour: whatever the interleaving, the
events arrive in the order in which they were submitted, with the same serials. So the two ways lead to the same
databases and the same totals (`json_submissions_equivalent`).

`Ahead` relates a pipeline that gets JSON to one that gets the packed events. The second one submits an event
when the validator of the first one accepts it, and calls `flush` when that validator comes to the mark of the end.
-/

set_option autoImplicit false

namespace Strfry

open Lib

namespace WriterPipeline

/-- The event that the validator makes of a value. -/
def passedEvent (c : PackedEvent × Bytes) : EventToWrite := { packed := c.1, jsonStr := c.2 }

/-- The value passes the check, whenever it is made. -/
structure Passes (cfg : PipelineConfig) (v : Json) (c : PackedEvent × Bytes) : Prop where
  value : v ≠ .null
  verified : ∀ now, verify cfg now v = .ok c

/-- Without the check of the time it does not matter when the check is made. -/
theorem verify_eq_of_no_time {cfg : PipelineConfig} (h : cfg.verifyTime = false) (now now' : Nat) (v : Json) :
    verify cfg now v = verify cfg now' v := by
  have hskip : ∀ check, checkIf false check = .ok () := fun _ => rfl
  simp only [verify, parseAndVerifyEvent, h, hskip]

/-- What the two pipelines may differ in: the producer, the validator, and what they count. -/
structure Front where
  totalProcessed : Nat
  numLive : Int
  validatorInbox : List (Message Json)
  shutdownRequested : Bool
  producer : Producer
  validator : Validator
  submitted : List PipelineInput

/-- A pipeline with another front. -/
def Front.put (f : Front) (s : WriterPipeline) : WriterPipeline :=
  { s with
    totalProcessed := f.totalProcessed
    numLive := f.numLive
    validatorInbox := f.validatorInbox
    shutdownRequested := f.shutdownRequested
    producer := f.producer
    validator := f.validator
    submitted := f.submitted }

/-- The submissions with their serials. -/
def numbered (inputs : List PipelineInput) : List (Nat × PipelineInput) := inputs.zipIdx.map Prod.swap

/-- The submissions that the validator has still to check, in their order. -/
def backlog (s : WriterPipeline) : List (Nat × PipelineInput) :=
  s.upstream.reduceOption.map (fun m => (m.1, .json m.2)) ++ s.producer.held

/-- The events of the values are submitted up to the `n`-th. -/
def submittedEvents (cs : List (PackedEvent × Bytes)) (n : Nat) : List PipelineInput :=
  (cs.take n).map fun c => .event (passedEvent c)

/-- The front is that of a pipeline that gets the events when the validator of `s` has accepted them. -/
inductive Ahead (cs : List (PackedEvent × Bytes)) (f : Front) (s : WriterPipeline) : Prop
  | «open» (n : Nat) (hv : s.validator ≠ .returned) (hle : n ≤ s.submitted.length)
      (hbacklog : s.backlog = (numbered s.submitted).drop n) (hsub : f.submitted = submittedEvents cs n)
      (hp : f.producer = .idle) (hfv : f.validator = .waiting) (hin : f.validatorInbox = [])
  | closed (hv : s.validator = .returned) (hsub : f.submitted = submittedEvents cs s.submitted.length)
      (hp : f.producer = s.producer) (hfv : f.validator = .returned)

variable {cfg : PipelineConfig} {env : Db → Db → Prop} {db : Db} {s s' : WriterPipeline} {f : Front}
  {vs : List Json} {cs : List (PackedEvent × Bytes)}

/-! ## Serials -/

theorem numbered_concat (inputs : List PipelineInput) (x : PipelineInput) :
    numbered (inputs ++ [x]) = numbered inputs ++ [(inputs.length, x)] := by
  rw [numbered, List.zipIdx_append, List.map_append]
  simp [numbered]

theorem length_numbered (inputs : List PipelineInput) : (numbered inputs).length = inputs.length := by
  simp [numbered]

/-- The first of the submissions from `n` on has the serial `n`. -/
theorem numbered_drop_eq_cons {inputs : List PipelineInput} {n k : Nat} {x : PipelineInput}
    {rest : List (Nat × PipelineInput)} (h : (numbered inputs).drop n = (k, x) :: rest) :
    k = n ∧ inputs[n]? = some x ∧ rest = (numbered inputs).drop (n + 1) := by
  have hlt : n < (numbered inputs).length := by
    by_contra hge
    rw [List.drop_eq_nil_of_le (not_lt.mp hge)] at h
    cases h
  rw [List.drop_eq_getElem_cons hlt] at h
  obtain ⟨hhead, hrest⟩ := List.cons.inj h
  have hlt' : n < inputs.length := by rwa [length_numbered] at hlt
  have hget : (numbered inputs)[n] = (n, inputs[n]) := by simp [numbered]
  rw [hget] at hhead
  obtain ⟨rfl, rfl⟩ := Prod.mk.inj hhead
  exact ⟨rfl, List.getElem?_eq_getElem hlt', hrest.symm⟩

theorem length_submittedEvents {n : Nat} (h : n ≤ cs.length) : (submittedEvents cs n).length = n := by
  rw [submittedEvents, List.length_map, List.length_take, min_eq_left h]

theorem submittedEvents_succ {n : Nat} {c : PackedEvent × Bytes} (h : cs[n]? = some c) :
    submittedEvents cs (n + 1) = submittedEvents cs n ++ [.event (passedEvent c)] := by
  obtain ⟨hlt, rfl⟩ := List.getElem?_eq_some_iff.mp h
  rw [submittedEvents, List.take_succ_eq_append_getElem hlt, List.map_append]
  rfl

/-- The `n`-th submission is the `n`-th value. -/
theorem passes_of_submitted (hpass : List.Forall₂ (Passes cfg) vs cs) (hpre : s.submitted <+: vs.map .json)
    {n : Nat} {input : PipelineInput} (hn : s.submitted[n]? = some input) :
    ∃ v c, input = .json v ∧ cs[n]? = some c ∧ Passes cfg v c := by
  obtain ⟨hlt, -⟩ := List.getElem?_eq_some_iff.mp hn
  have hget : (vs.map PipelineInput.json)[n]? = some input := by
    rw [← hn]
    exact (List.prefix_iff_getElem?.mp hpre n hlt).trans (List.getElem?_eq_getElem hlt).symm
  rw [List.getElem?_map, Option.map_eq_some_iff] at hget
  obtain ⟨v, hv, rfl⟩ := hget
  obtain ⟨hvlt, rfl⟩ := List.getElem?_eq_some_iff.mp hv
  have hclt : n < cs.length := hpass.length_eq ▸ hvlt
  exact ⟨vs[n], cs[n], rfl, List.getElem?_eq_getElem hclt, hpass.get hvlt hclt⟩

/-! ## The pipeline that gets the events -/

/-- What concerns neither the producer nor the validator. -/
theorem Ahead.congr {f' : Front} (h : Ahead cs f s) (hproducer : s'.producer = s.producer)
    (hvalidator : s'.validator = s.validator) (hinbox : s'.validatorInbox = s.validatorInbox)
    (hsubmitted : s'.submitted = s.submitted) (hf : f' = { f with numLive := f'.numLive }) : Ahead cs f' s' := by
  rw [hf]
  have hbacklog : s'.backlog = s.backlog := by
    rw [backlog, backlog, upstream, upstream, hproducer, hvalidator, hinbox]
  cases h with
  | «open» n hv hle hb hsub hp hfv hin =>
    exact .open n (hvalidator ▸ hv) (hsubmitted ▸ hle) (by rw [hbacklog, hb, hsubmitted]) hsub hp hfv hin
  | closed hv hsub hp hfv =>
    exact .closed (hvalidator.trans hv) (hsubmitted ▸ hsub) (hp.trans hproducer.symm) hfv

/-- The front of a pipeline whose validator has not returned. -/
theorem Ahead.opened (h : Ahead cs f s) (hv : s.validator ≠ .returned) : ∃ n, n ≤ s.submitted.length ∧
    s.backlog = (numbered s.submitted).drop n ∧ f.submitted = submittedEvents cs n ∧ f.producer = .idle ∧
    f.validator = .waiting ∧ f.validatorInbox = [] := by
  cases h with
  | «open» n _ hle hb hsub hp hfv hin => exact ⟨n, hle, hb, hsub, hp, hfv, hin⟩
  | closed hret => exact absurd hret hv

theorem Inv.validator_ne_returned (h : Inv s) (hp : s.producer.ended = false) : s.validator ≠ .returned := by
  cases h.stage with
  | accepting _ _ hv => exact hv
  | draining hp' | ending hp' | ended hp' =>
    rw [hp] at hp'
    cases hp'

/-- `flush` returns when all threads have. -/
theorem Inv.validator_eq_returned (h : Inv s) (hin : s.flushInbox ≠ []) : s.validator = .returned := by
  have hend := (h.flushInbox hin).2
  cases h.stage with
  | accepting _ _ _ _ hend' | draining _ _ _ _ _ hend' | ending _ _ _ _ _ hend' =>
    rw [hend] at hend'
    cases hend'
  | ended _ _ hv => exact hv

/-- An accepted value is the next one, and the event is submitted now. -/
theorem Ahead.accept (h : Ahead cs f s) (hpass : List.Forall₂ (Passes cfg) vs cs)
    (hpre : s.submitted <+: vs.map .json) {k : Nat} {v : Json} {rest : List (Message Json)} {now : Nat}
    {c : PackedEvent × Bytes} (hv : s.validator = .working (some (k, v) :: rest)) (hgood : verify cfg now v = .ok c) :
    ∃ f' : Front, Relation.ReflTransGen (Step cfg env) (f.put s) (f'.put { s with
        writerInbox := s.writerInbox ++ [some (k, passedEvent c)]
        validator := .working rest }) ∧
      Ahead cs f' { s with
        writerInbox := s.writerInbox ++ [some (k, passedEvent c)]
        validator := .working rest } := by
  obtain ⟨n, hle, hb, hsub, hp, hfv, hin⟩ := h.opened (by rw [hv]; rintro ⟨⟩)
  have hfirst : (numbered s.submitted).drop n = (k, .json v) ::
      ((rest ++ s.validatorInbox).reduceOption.map (fun m => (m.1, .json m.2)) ++ s.producer.held) := by
    rw [← hb, backlog, upstream, hv]
    rfl
  obtain ⟨rfl, hget, hrest⟩ := numbered_drop_eq_cons hfirst
  obtain ⟨v', c', heq, hc, hpasses⟩ := passes_of_submitted hpass hpre hget
  cases heq
  cases hgood.symm.trans (hpasses.verified now)
  have hlen : f.submitted.length = k := by
    rw [hsub, length_submittedEvents (List.getElem?_eq_some_iff.mp hc).1.le]
  have hk : k < s.submitted.length := (List.getElem?_eq_some_iff.mp hget).1
  subst hlen
  have hstart : Relation.ReflTransGen (Step cfg env) (f.put s) (f.put s) := .refl
  have hrun := ((hstart.tail (@Step.process _ _ _ (.event (passedEvent c)) (by rintro ⟨⟩) hp)).tail
    (.count rfl)).tail (.pushEvent rfl)
  exact ⟨{ f with
    totalProcessed := f.totalProcessed + 1
    numLive := f.numLive + 1
    producer := .idle
    submitted := f.submitted ++ [.event (passedEvent c)] }, hrun,
    .open (f.submitted.length + 1) (by rintro ⟨⟩) hk hrest (by rw [submittedEvents_succ hc, ← hsub]) rfl hfv
      hin⟩

/-- The mark of the end comes when all values are accepted, and `flush` is called now. -/
theorem Ahead.flush (h : Ahead cs f s) (hinv : Inv s) {rest : List (Message Json)}
    (hv : s.validator = .working (none :: rest)) :
    ∃ f' : Front, Relation.ReflTransGen (Step cfg env) (f.put s) (f'.put { s with
        shutdownRequested := true
        writerInbox := s.writerInbox ++ [none]
        validator := .returned }) ∧
      Ahead cs f' { s with
        shutdownRequested := true
        writerInbox := s.writerInbox ++ [none]
        validator := .returned } := by
  have hne : s.validator ≠ .returned := by
    rw [hv]
    rintro ⟨⟩
  obtain ⟨n, hle, hb, hsub, hp, hfv, hin⟩ := h.opened hne
  obtain ⟨rfl, hinbox⟩ := hinv.stage.upstream_end hv
  have hended : s.producer.ended = true := by
    cases hinv.stage with
    | accepting _ hu =>
      refine absurd ?_ hu
      rw [upstream, hv]
      exact List.mem_cons_self
    | draining hp' | ending hp' | ended hp' => exact hp'
  have hflushing : s.producer = .flushing := by
    cases hproducer : s.producer with
    | flushing => rfl
    | flushed => exact absurd (hinv.validator_eq_returned (hinv.flushed hproducer)) hne
    | idle | processed | counted =>
      rw [hproducer] at hended
      cases hended
  -- nothing is left to be checked
  have hall : n = s.submitted.length := by
    have hempty : s.backlog = [] := by
      rw [backlog, upstream, hv, hinbox, hflushing]
      rfl
    rw [hempty] at hb
    have hlen := congrArg List.length hb.symm
    rw [List.length_drop, length_numbered, List.length_nil] at hlen
    omega
  have hpopped : Step cfg env { f.put s with
      validatorInbox := f.validatorInbox ++ [none]
      producer := .flushing } _ := .validatorPop hfv (by simp)
  have hstart : Relation.ReflTransGen (Step cfg env) (f.put s) (f.put s) := .refl
  have hrun := ((hstart.tail (.flush hp)).tail hpopped).tail (.validatorEnd (by rw [hin]; rfl))
  exact ⟨{ f with
    validatorInbox := []
    shutdownRequested := true
    producer := .flushing
    validator := .returned }, hrun, .closed rfl (by rw [hsub, hall]) hflushing.symm rfl⟩

/-- The step lemma. -/
theorem Step.ahead (hstep : Step cfg env s s') (hinv : Inv s) (htr : Traced cfg s)
    (hpass : List.Forall₂ (Passes cfg) vs cs) (hpre : s'.submitted <+: vs.map .json) (h : Ahead cs f s) :
    ∃ f' : Front, Relation.ReflTransGen (Step cfg env) (f.put s) (f'.put s') ∧ Ahead cs f' s' := by
  have hpre' : s.submitted <+: vs.map .json := hstep.submitted_prefix.trans hpre
  cases hstep with
  -- the value waits for the validator, and the other pipeline stands still
  | @process input hnull hp =>
    have hv := hinv.validator_ne_returned (by rw [hp]; rfl)
    obtain ⟨n, hle, hb, hsub, hfp, hfv, hin⟩ := h.opened hv
    refine ⟨f, .refl, .open n hv ?_ ?_ hsub hfp hfv hin⟩
    · rw [List.length_append]
      exact hle.trans (Nat.le_add_right _ _)
    · rw [numbered_concat, List.drop_append_of_le_length (by rwa [length_numbered]), ← hb]
      simp [backlog, upstream, hp, Producer.held]
  | @count k input hp =>
    have hv := hinv.validator_ne_returned (by rw [hp]; rfl)
    obtain ⟨n, hle, hb, hsub, hfp, hfv, hin⟩ := h.opened hv
    refine ⟨f, .refl, .open n hv hle ?_ hsub hfp hfv hin⟩
    rw [← hb, backlog, backlog, hp]
    rfl
  | @pushJson k v hp =>
    have hv := hinv.validator_ne_returned (by rw [hp]; rfl)
    obtain ⟨n, hle, hb, hsub, hfp, hfv, hin⟩ := h.opened hv
    refine ⟨f, .refl, .open n hv hle ?_ hsub hfp hfv hin⟩
    rw [← hb]
    simp [backlog, upstream, hp, Producer.held, List.reduceOption_append, List.reduceOption_singleton]
  | @pushEvent k ev hp =>
    have hheld : (k, PipelineInput.event ev) ∈ s.producer.held := by
      rw [hp]
      exact List.mem_singleton_self _
    obtain ⟨v, c, heq, -⟩ := passes_of_submitted hpass hpre' (htr.held _ hheld)
    cases heq
  | flush hp =>
    have hv := hinv.validator_ne_returned (by rw [hp]; rfl)
    obtain ⟨n, hle, hb, hsub, hfp, hfv, hin⟩ := h.opened hv
    refine ⟨f, .refl, .open n hv hle ?_ hsub hfp hfv hin⟩
    rw [← hb]
    simp [backlog, upstream, hp, Producer.held, List.reduceOption_append]
  | flushed hp hin =>
    cases h with
    | «open» n hv => exact absurd (hinv.validator_eq_returned hin) hv
    | closed hv hsub hfp hfv =>
      exact ⟨{ f with producer := .flushed }, .single (.flushed (hfp.trans hp) hin), .closed hv hsub rfl hfv⟩
  | validatorPop hv hin =>
    obtain ⟨n, hle, hb, hsub, hfp, hfv, hfin⟩ := h.opened (by rw [hv]; rintro ⟨⟩)
    refine ⟨f, .refl, .open n (by rintro ⟨⟩) hle ?_ hsub hfp hfv hfin⟩
    rw [← hb]
    simp [backlog, upstream, hv, Validator.msgs]
  | validatorNext hv =>
    obtain ⟨n, hle, hb, hsub, hfp, hfv, hfin⟩ := h.opened (by rw [hv]; rintro ⟨⟩)
    refine ⟨f, .refl, .open n (by rintro ⟨⟩) hle ?_ hsub hfp hfv hfin⟩
    rw [← hb]
    simp [backlog, upstream, hv, Validator.msgs]
  | validatorEnd hv => exact h.flush hinv hv
  | @reject k v rest now e hv hbad =>
    have hmem : some (k, v) ∈ s.upstream := by
      rw [upstream, hv]
      exact List.mem_cons_self
    obtain ⟨v', c, heq, -, hpasses⟩ := passes_of_submitted hpass hpre' (htr.upstream k v hmem)
    cases heq
    cases hbad.symm.trans (hpasses.verified now)
  | @accept k v rest now packed jsonStr hv hgood => exact h.accept hpass hpre' hv hgood
  -- the writer takes the same step in both
  | writerPop hw hin => exact ⟨f, .single (.writerPop hw hin), h.congr rfl rfl rfl rfl rfl⟩
  | «open» hw => exact ⟨f, .single (.open hw), h.congr rfl rfl rfl rfl rfl⟩
  | unshift hw hfull => exact ⟨f, .single (.unshift hw hfull), h.congr rfl rfl rfl rfl rfl⟩
  | writerEnd hw hroom => exact ⟨f, .single (.writerEnd hw hroom), h.congr rfl rfl rfl rfl rfl⟩
  | duplicate hw hroom hdup =>
    exact ⟨{ f with numLive := f.numLive - 1 }, .single (.duplicate hw hroom hdup), h.congr rfl rfl rfl rfl rfl⟩
  | collect hw hroom hnew =>
    exact ⟨{ f with numLive := f.numLive - 1 }, .single (.collect hw hroom hnew), h.congr rfl rfl rfl rfl rfl⟩
  | collected hw => exact ⟨f, .single (.collected hw), h.congr rfl rfl rfl rfl rfl⟩
  | skip hw => exact ⟨f, .single (.skip hw), h.congr rfl rfl rfl rfl rfl⟩
  | write hw hne hok => exact ⟨f, .single (.write hw hne hok), h.congr rfl rfl rfl rfl rfl⟩
  | finish hw hend => exact ⟨f, .single (.finish hw hend), h.congr rfl rfl rfl rfl rfl⟩
  | again hw hend => exact ⟨f, .single (.again hw hend), h.congr rfl rfl rfl rfl rfl⟩
  | other henv => exact ⟨f, .single (.other henv), h.congr rfl rfl rfl rfl rfl⟩

/-- The run lemma. -/
theorem Reachable.ahead (h : Reachable cfg env db s) (hpass : List.Forall₂ (Passes cfg) vs cs)
    (hpre : s.submitted <+: vs.map .json) : ∃ f : Front, Reachable cfg env db (f.put s) ∧ Ahead cs f s := by
  induction h with
  | refl =>
    refine ⟨⟨0, 0, [], false, .idle, .waiting, []⟩, .refl, .open 0 ?_ le_rfl rfl rfl rfl rfl rfl⟩
    rintro ⟨⟩
  | @tail s s' hreach hstep ih =>
    have hreach : Reachable cfg env db s := hreach
    obtain ⟨f, hrun, hahead⟩ := ih (hstep.submitted_prefix.trans hpre)
    obtain ⟨f', hsteps, hahead'⟩ := hstep.ahead hreach.inv hreach.traced hpass hpre hahead
    exact ⟨f', hrun.trans hsteps, hahead'⟩

/-! ## The pipeline that gets the values -/

/-- The producer submits the value where the other one submits its event. -/
inductive SubmitsFor (vs : List Json) : Producer → Producer → Prop
  | idle : SubmitsFor vs .idle .idle
  | processed {k : Nat} {v : Json} (ev : EventToWrite) (hv : vs[k]? = some v) :
      SubmitsFor vs (.processed k (.event ev)) (.processed k (.json v))
  | counted {k : Nat} {v : Json} (ev : EventToWrite) (hv : vs[k]? = some v) :
      SubmitsFor vs (.counted k (.event ev)) (.counted k (.json v))
  | flushing : SubmitsFor vs .flushing .flushing
  | flushed : SubmitsFor vs .flushed .flushed

/-- A pipeline with another producer. -/
def withProducer (s : WriterPipeline) (p : Producer) (inputs : List PipelineInput) : WriterPipeline :=
  { s with producer := p, submitted := inputs }

/-- The values are submitted when the events are, and accepted at once. -/
structure InStep (vs : List Json) (s : WriterPipeline) (p : Producer) (inputs : List PipelineInput) : Prop where
  producer : SubmitsFor vs s.producer p
  submitted : inputs = (vs.take s.submitted.length).map .json
  idle : s.producer.ended = false → s.validator = .waiting ∧ s.validatorInbox = []

/-- The `n`-th submission is the `n`-th event. -/
theorem event_of_prefix (hpre : s.submitted <+: cs.map fun c => .event (passedEvent c)) {n : Nat}
    {input : PipelineInput} (hn : s.submitted[n]? = some input) :
    ∃ c, cs[n]? = some c ∧ input = .event (passedEvent c) := by
  obtain ⟨hlt, -⟩ := List.getElem?_eq_some_iff.mp hn
  have hget : (cs.map fun c => PipelineInput.event (passedEvent c))[n]? = some input := by
    rw [← hn]
    exact (List.prefix_iff_getElem?.mp hpre n hlt).trans (List.getElem?_eq_getElem hlt).symm
  rw [List.getElem?_map, Option.map_eq_some_iff] at hget
  obtain ⟨c, hc, rfl⟩ := hget
  exact ⟨c, hc, rfl⟩

theorem passes_at (hpass : List.Forall₂ (Passes cfg) vs cs) {n : Nat} {c : PackedEvent × Bytes}
    (hc : cs[n]? = some c) : ∃ v, vs[n]? = some v ∧ Passes cfg v c := by
  obtain ⟨hlt, rfl⟩ := List.getElem?_eq_some_iff.mp hc
  have hvlt : n < vs.length := hpass.length_eq ▸ hlt
  exact ⟨vs[n], List.getElem?_eq_getElem hvlt, hpass.get hvlt hlt⟩

/-- An event is passed on, and its value is checked. -/
theorem InStep.pushEvent (htr : Traced cfg s) (hpass : List.Forall₂ (Passes cfg) vs cs)
    (hpre : s.submitted <+: cs.map fun c => .event (passedEvent c)) {k : Nat} {ev : EventToWrite}
    (hp : s.producer = .counted k (.event ev)) {p : Producer} {inputs : List PipelineInput}
    (h : InStep vs s p inputs) :
    Relation.ReflTransGen (Step cfg env) (s.withProducer p inputs) (withProducer { s with
        writerInbox := s.writerInbox ++ [some (k, ev)]
        producer := .idle } .idle inputs) ∧
      InStep vs { s with
        writerInbox := s.writerInbox ++ [some (k, ev)]
        producer := .idle } .idle inputs := by
  have hheld : (k, PipelineInput.event ev) ∈ s.producer.held := by
    rw [hp]
    exact List.mem_singleton_self _
  obtain ⟨c, hc, heq⟩ := event_of_prefix hpre (htr.held _ hheld)
  cases heq
  obtain ⟨v, hv, hpasses⟩ := passes_at hpass hc
  obtain ⟨hvalidator, hinbox⟩ := h.idle (by rw [hp]; rfl)
  have hproducer := h.producer
  rw [hp] at hproducer
  cases hproducer with
  | @counted _ v' _ hv' =>
    cases hv'.symm.trans hv
    refine ⟨?_, .idle, h.submitted, fun _ => ⟨hvalidator, hinbox⟩⟩
    have hstart : Relation.ReflTransGen (Step cfg env) (s.withProducer (.counted k (.json v)) inputs)
        (s.withProducer (.counted k (.json v)) inputs) := .refl
    -- the validator takes the value out of its inbox, accepts it, and waits again
    have hpushed := hstart.tail (.pushJson rfl)
    have hpopped := hpushed.tail (.validatorPop hvalidator (by simp))
    have haccepted := hpopped.tail (.accept 0 (by rw [withProducer]; simp only [hinbox]; rfl) (hpasses.verified 0))
    have hwaiting := haccepted.tail (.validatorNext rfl)
    have hsame : withProducer { s with
        writerInbox := s.writerInbox ++ [some (k, passedEvent c)]
        producer := .idle } .idle inputs = { s.withProducer .idle inputs with
        writerInbox := s.writerInbox ++ [some (k, passedEvent c)]
        validatorInbox := []
        validator := .waiting } := by
      rw [withProducer, withProducer]
      simp only [hinbox, hvalidator]
    rw [hsame]
    exact hwaiting

/-- The step lemma. -/
theorem Step.inStep (hstep : Step cfg env s s') (htr : Traced cfg s)
    (hpass : List.Forall₂ (Passes cfg) vs cs) (hpre : s'.submitted <+: cs.map fun c => .event (passedEvent c))
    {p : Producer} {inputs : List PipelineInput} (h : InStep vs s p inputs) :
    ∃ p' inputs', Relation.ReflTransGen (Step cfg env) (s.withProducer p inputs) (s'.withProducer p' inputs') ∧
      InStep vs s' p' inputs' := by
  have hpre' : s.submitted <+: cs.map fun c => .event (passedEvent c) := hstep.submitted_prefix.trans hpre
  -- events only have been submitted, so that the validator has none to check
  have hevent : ∀ {k : Nat} {v : Json}, some (k, v) ∉ s.upstream := by
    intro k v hmem
    obtain ⟨c, -, heq⟩ := event_of_prefix hpre' (htr.upstream k v hmem)
    cases heq
  have hproducer := h.producer
  cases hstep with
  | @process input hnull hp =>
    obtain ⟨c, hc, rfl⟩ := event_of_prefix hpre (List.getElem?_concat_length (l := s.submitted))
    obtain ⟨v, hv, hpasses⟩ := passes_at hpass hc
    have hlen : inputs.length = s.submitted.length := by
      rw [h.submitted, List.length_map, List.length_take,
        min_eq_left (List.getElem?_eq_some_iff.mp hv).1.le]
    rw [hp] at hproducer
    cases hproducer
    -- the other producer submits the value at the same place
    have hrun : Step cfg env (s.withProducer .idle inputs) _ :=
      @Step.process _ _ _ (.json v) (fun heq => hpasses.value (PipelineInput.json.inj heq)) rfl
    refine ⟨.processed s.submitted.length (.json v), inputs ++ [.json v], .single ?_, .processed _ hv, ?_, ?_⟩
    · rw [← hlen]
      exact hrun
    · rw [List.length_append, List.length_singleton, List.take_add_one, hv, List.map_append, h.submitted]
      rfl
    · exact fun _ => h.idle (by rw [hp]; rfl)
  | @count k input hp =>
    rw [hp] at hproducer
    cases hproducer with
    | processed ev hv =>
      exact ⟨_, inputs, .single (.count rfl), .counted ev hv, h.submitted, fun _ => h.idle (by rw [hp]; rfl)⟩
  | @pushJson k v hp =>
    rw [hp] at hproducer
    cases hproducer
  | @pushEvent k ev hp => exact ⟨_, _, h.pushEvent htr hpass hpre' hp⟩
  | flush hp =>
    rw [hp] at hproducer
    cases hproducer
    exact ⟨.flushing, inputs, .single (.flush rfl), .flushing, h.submitted, by rintro ⟨⟩⟩
  | flushed hp hin =>
    rw [hp] at hproducer
    cases hproducer
    exact ⟨.flushed, inputs, .single (.flushed rfl hin), .flushed, h.submitted, by rintro ⟨⟩⟩
  | validatorPop hv hin =>
    refine ⟨p, inputs, .single (.validatorPop hv hin), h.producer, h.submitted, fun hgo => ?_⟩
    exact absurd (h.idle hgo).2 hin
  | validatorNext hv =>
    refine ⟨p, inputs, .single (.validatorNext hv), h.producer, h.submitted, fun hgo => ?_⟩
    exact absurd (hv.symm.trans (h.idle hgo).1) (by rintro ⟨⟩)
  | validatorEnd hv =>
    refine ⟨p, inputs, .single (.validatorEnd hv), h.producer, h.submitted, fun hgo => ?_⟩
    exact absurd (hv.symm.trans (h.idle hgo).1) (by rintro ⟨⟩)
  | @reject k v rest now e hv hbad =>
    refine absurd ?_ (@hevent k v)
    rw [upstream, hv]
    exact List.mem_cons_self
  | @accept k v rest now packed jsonStr hv hgood =>
    refine absurd ?_ (@hevent k v)
    rw [upstream, hv]
    exact List.mem_cons_self
  | writerPop hw hin => exact ⟨p, inputs, .single (.writerPop hw hin), ⟨h.producer, h.submitted, h.idle⟩⟩
  | «open» hw => exact ⟨p, inputs, .single (.open hw), ⟨h.producer, h.submitted, h.idle⟩⟩
  | unshift hw hfull => exact ⟨p, inputs, .single (.unshift hw hfull), ⟨h.producer, h.submitted, h.idle⟩⟩
  | writerEnd hw hroom => exact ⟨p, inputs, .single (.writerEnd hw hroom), ⟨h.producer, h.submitted, h.idle⟩⟩
  | duplicate hw hroom hdup =>
    exact ⟨p, inputs, .single (.duplicate hw hroom hdup), ⟨h.producer, h.submitted, h.idle⟩⟩
  | collect hw hroom hnew =>
    exact ⟨p, inputs, .single (.collect hw hroom hnew), ⟨h.producer, h.submitted, h.idle⟩⟩
  | collected hw => exact ⟨p, inputs, .single (.collected hw), ⟨h.producer, h.submitted, h.idle⟩⟩
  | skip hw => exact ⟨p, inputs, .single (.skip hw), ⟨h.producer, h.submitted, h.idle⟩⟩
  | write hw hne hok => exact ⟨p, inputs, .single (.write hw hne hok), ⟨h.producer, h.submitted, h.idle⟩⟩
  | finish hw hend => exact ⟨p, inputs, .single (.finish hw hend), ⟨h.producer, h.submitted, h.idle⟩⟩
  | again hw hend => exact ⟨p, inputs, .single (.again hw hend), ⟨h.producer, h.submitted, h.idle⟩⟩
  | other henv => exact ⟨p, inputs, .single (.other henv), ⟨h.producer, h.submitted, h.idle⟩⟩

/-- The run lemma. -/
theorem Reachable.inStep (h : Reachable cfg env db s) (hpass : List.Forall₂ (Passes cfg) vs cs)
    (hpre : s.submitted <+: cs.map fun c => .event (passedEvent c)) :
    ∃ p inputs, Reachable cfg env db (s.withProducer p inputs) ∧ InStep vs s p inputs := by
  induction h with
  | refl => exact ⟨.idle, [], .refl, .idle, by simp, fun _ => ⟨rfl, rfl⟩⟩
  | @tail s s' hreach hstep ih =>
    have hreach : Reachable cfg env db s := hreach
    obtain ⟨p, inputs, hrun, hin⟩ := ih (hstep.submitted_prefix.trans hpre)
    obtain ⟨p', inputs', hsteps, hin'⟩ := hstep.inStep hreach.traced hpass hpre hin
    exact ⟨p', inputs', hrun.trans hsteps, hin'⟩

/-! ## The two ways -/

/-- The pipeline was given the inputs in this order, and `flush` has returned. -/
def Finishes (cfg : PipelineConfig) (env : Db → Db → Prop) (db : Db) (inputs : List PipelineInput)
    (s : WriterPipeline) : Prop :=
  Reachable cfg env db s ∧ s.producer = .flushed ∧ s.submitted = inputs

/-- The database, the totals, and what has become of each submission. -/
def results (s : WriterPipeline) : Db × Nat × Nat × Nat × List (Nat × PipelineOutcome) :=
  (s.db, s.totalWritten, s.totalRejected, s.totalDups, s.outcomes)

/-- Every end of the first way is one of the second. -/
theorem Finishes.events (hpass : List.Forall₂ (Passes cfg) vs cs) (h : Finishes cfg env db (vs.map .json) s) :
    ∃ s', Finishes cfg env db (cs.map fun c => .event (passedEvent c)) s' ∧ results s' = results s := by
  obtain ⟨hreach, hp, hsub⟩ := h
  obtain ⟨f, hrun, hahead⟩ := hreach.ahead hpass (hsub ▸ List.prefix_rfl)
  refine ⟨f.put s, ⟨hrun, ?_⟩, rfl⟩
  cases hahead with
  | «open» n hv => exact absurd (hreach.inv.validator_eq_returned (hreach.inv.flushed hp)) hv
  | closed hv hfsub hfp =>
    refine ⟨hfp.trans hp, hfsub.trans ?_⟩
    rw [hsub, List.length_map, submittedEvents, hpass.length_eq, List.take_length]

/-- Every end of the second way is one of the first. -/
theorem Finishes.values (hpass : List.Forall₂ (Passes cfg) vs cs)
    (h : Finishes cfg env db (cs.map fun c => .event (passedEvent c)) s) :
    ∃ s', Finishes cfg env db (vs.map .json) s' ∧ results s' = results s := by
  obtain ⟨hreach, hp, hsub⟩ := h
  obtain ⟨p, inputs, hrun, hin⟩ := hreach.inStep hpass (hsub ▸ List.prefix_rfl)
  refine ⟨s.withProducer p inputs, ⟨hrun, ?_⟩, rfl⟩
  have hproducer := hin.producer
  rw [hp] at hproducer
  cases hproducer
  refine ⟨rfl, hin.submitted.trans ?_⟩
  rw [hsub, List.length_map, ← hpass.length_eq, List.take_length]

/-- Values that pass the check at any time end in the same results as their events: in whatever order the threads
run and other processes write, what the one way can end in, the other one can. -/
theorem json_submissions_equivalent (hpass : List.Forall₂ (Passes cfg) vs cs) (db : Db) :
    results '' {s | Finishes cfg env db (vs.map .json) s} =
      results '' {s | Finishes cfg env db (cs.map fun c => .event (passedEvent c)) s} := by
  apply Set.Subset.antisymm
  · rintro _ ⟨s, hs, rfl⟩
    exact hs.events hpass
  · rintro _ ⟨s, hs, rfl⟩
    exact hs.values hpass

/-- The signed events come either way, and are written in two batches. -/
theorem json_submissions_equivalent_sample : ∃ c c' : PackedEvent × Bytes, c.1.id ≠ c'.1.id ∧
    results '' {s | Finishes samplePipeline alone Db.init [.json sampleEvent, .json laterEvent] s} =
      results '' {s | Finishes samplePipeline alone Db.init
        [.event (passedEvent c), .event (passedEvent c')] s} := by
  have heval : (sampleRun.map fun r => decide (r.1.1.id ≠ r.2.1.1.id)) = .ok true := by decide +kernel
  obtain ⟨⟨c, c', db⟩, hrun, hne⟩ := map_eq_ok.1 heval
  obtain ⟨c, hverify, hrun⟩ := bind_eq_ok.1 hrun
  obtain ⟨c', hverify', hrun⟩ := bind_eq_ok.1 hrun
  obtain ⟨⟨db, evs⟩, hwrite, hrun⟩ := bind_eq_ok.1 hrun
  cases hrun
  have hpasses : ∀ {v : Json} {c : PackedEvent × Bytes}, v.isObject = true →
      parseAndVerifyEvent samplePipeline.verifier true false v = .ok c → Passes samplePipeline v c := by
    intro v c hobject hverify
    refine ⟨?_, fun now => (verify_eq_of_no_time rfl now 1700000000 v).trans hverify⟩
    rintro rfl
    cases hobject
  exact ⟨c, c', of_decide_eq_true hne,
    json_submissions_equivalent (.cons (hpasses rfl hverify) (.cons (hpasses rfl hverify') .nil)) Db.init⟩

end WriterPipeline

end Strfry
