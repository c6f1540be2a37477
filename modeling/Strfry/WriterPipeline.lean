import Strfry.StoreInvariants
import Strfry.EventVerify

/-!
# The import pipeline

`WriterPipeline` has three threads. The producer calls `write` and in the end `flush`; the validator takes
JSON values from `validatorInbox`, verifies them and passes the events on to `writerInbox`; the writer
takes the events from there in batches. A null value in the first inbox and an event without a packed
string in the second mark the end: both are `none` here. A batch that is full puts the rest of what was
popped back to the front of the inbox.

A step is what a thread does between two accesses to state that another thread can see. The debounce of
the writer only delays it, so it may pop as soon as the inbox has a message. The inboxes are FIFO. Other
processes change the database between the steps as `env` allows.

Every submission has a serial, its position among the calls of `write`, which the messages carry along.
`submitted`, `outcomes` and `snapshots` are history: the calls so far, what has become of them, and what
the read-only transactions of the writer have seen.
-/

set_option autoImplicit false

namespace Strfry

open Lib

/-- What `write` is called with. -/
inductive PipelineInput
  | json (eventJson : Json)
  | event (ev : EventToWrite)

/-- What has become of a submission. -/
inductive PipelineOutcome
  | rejected (e : Err)
  | duplicate (ev : EventToWrite)
  | passed (ev : EventToWrite)

/-- The libraries and the parameters. -/
structure PipelineConfig where
  S : StdSort
  ord : IndexOrder
  verifier : Verifier
  writeBatchSize : Nat
  verifyMsg : Bool
  verifyTime : Bool

/-- A message, or the mark of the end. -/
abbrev Message (α : Type) := Option (Nat × α)

/-- Where the producer is: between two calls, in `write` after the first or the second increment, in
`flush`, or returned from it. -/
inductive Producer
  | idle
  | processed (serial : Nat) (input : PipelineInput)
  | counted (serial : Nat) (input : PipelineInput)
  | flushing
  | flushed

/-- Where the validator is. -/
inductive Validator
  | waiting
  | working (msgs : List (Message Json))
  | returned

/-- Where the writer is: before `pop_all`, before the read-only transaction, in the loop that collects
a batch, before the write transaction, and after it. -/
inductive PipelineWriter
  | waiting
  | popped (newEvents : List (Message EventToWrite))
  | collecting (snapshot : Db) (newEvents : List (Message EventToWrite))
      (newEventsToProc : List (Nat × EventToWrite))
  | writing (newEventsToProc : List (Nat × EventToWrite))
  | finishing
  | returned

/-- `WriterPipeline`, with the cache of its writer thread and the database. -/
structure WriterPipeline where
  db : Db
  totalProcessed : Nat := 0
  totalWritten : Nat := 0
  totalRejected : Nat := 0
  totalDups : Nat := 0
  numLive : Int := 0
  validatorInbox : List (Message Json) := []
  writerInbox : List (Message EventToWrite) := []
  flushInbox : List Bool := []
  shutdownRequested : Bool := false
  shutdownComplete : Bool := false
  neFilterCache : NegentropyFilterCache := {}
  producer : Producer := .idle
  validator : Validator := .waiting
  writer : PipelineWriter := .waiting
  submitted : List PipelineInput := []
  outcomes : List (Nat × PipelineOutcome) := []
  snapshots : List Db := []

namespace WriterPipeline

/-- The check of the validator, made at the time `now`. -/
def verify (cfg : PipelineConfig) (now : Nat) (v : Json) : Except Err (PackedEvent × Bytes) :=
  parseAndVerifyEvent { cfg.verifier with now := now } cfg.verifyMsg cfg.verifyTime v

/-- The number of events that a batch has written. -/
def numWritten (evs : List EventToWrite) : Nat := evs.countP fun ev => ev.status == .written

/-- One step of a thread, or of another process. -/
inductive Step (cfg : PipelineConfig) (env : Db → Db → Prop) : WriterPipeline → WriterPipeline → Prop
  -- the producer; `write` of a null value does nothing
  | process {s : WriterPipeline} {input : PipelineInput} (hnull : input ≠ .json .null)
      (hp : s.producer = .idle) : Step cfg env s { s with
        totalProcessed := s.totalProcessed + 1
        producer := .processed s.submitted.length input
        submitted := s.submitted ++ [input] }
  | count {s : WriterPipeline} {k : Nat} {input : PipelineInput}
      (hp : s.producer = .processed k input) : Step cfg env s { s with
        numLive := s.numLive + 1
        producer := .counted k input }
  | pushJson {s : WriterPipeline} {k : Nat} {v : Json} (hp : s.producer = .counted k (.json v)) :
      Step cfg env s { s with
        validatorInbox := s.validatorInbox ++ [some (k, v)]
        producer := .idle }
  | pushEvent {s : WriterPipeline} {k : Nat} {ev : EventToWrite}
      (hp : s.producer = .counted k (.event ev)) : Step cfg env s { s with
        writerInbox := s.writerInbox ++ [some (k, ev)]
        producer := .idle }
  | flush {s : WriterPipeline} (hp : s.producer = .idle) : Step cfg env s { s with
        validatorInbox := s.validatorInbox ++ [none]
        producer := .flushing }
  | flushed {s : WriterPipeline} (hp : s.producer = .flushing) (hin : s.flushInbox ≠ []) :
      Step cfg env s { s with producer := .flushed }
  -- the validator
  | validatorPop {s : WriterPipeline} (hv : s.validator = .waiting) (hin : s.validatorInbox ≠ []) :
      Step cfg env s { s with
        validatorInbox := []
        validator := .working s.validatorInbox }
  | validatorNext {s : WriterPipeline} (hv : s.validator = .working []) :
      Step cfg env s { s with validator := .waiting }
  | validatorEnd {s : WriterPipeline} {rest : List (Message Json)}
      (hv : s.validator = .working (none :: rest)) : Step cfg env s { s with
        shutdownRequested := true
        writerInbox := s.writerInbox ++ [none]
        validator := .returned }
  | reject {s : WriterPipeline} {k : Nat} {v : Json} {rest : List (Message Json)} (now : Nat) {e : Err}
      (hv : s.validator = .working (some (k, v) :: rest)) (hbad : verify cfg now v = .error e) :
      Step cfg env s { s with
        numLive := s.numLive - 1
        totalRejected := s.totalRejected + 1
        validator := .working rest
        outcomes := s.outcomes ++ [(k, .rejected e)] }
  | accept {s : WriterPipeline} {k : Nat} {v : Json} {rest : List (Message Json)} (now : Nat)
      {packed : PackedEvent} {jsonStr : Bytes} (hv : s.validator = .working (some (k, v) :: rest))
      (hgood : verify cfg now v = .ok (packed, jsonStr)) : Step cfg env s { s with
        writerInbox := s.writerInbox ++ [some (k, { packed := packed, jsonStr := jsonStr })]
        validator := .working rest }
  -- the writer
  | writerPop {s : WriterPipeline} (hw : s.writer = .waiting) (hin : s.writerInbox ≠ []) :
      Step cfg env s { s with
        writerInbox := []
        writer := .popped s.writerInbox }
  | open {s : WriterPipeline} {newEvents : List (Message EventToWrite)}
      (hw : s.writer = .popped newEvents) :
      Step cfg env s { s with
        writer := .collecting s.db newEvents []
        snapshots := s.snapshots ++ [s.db] }
  | unshift {s : WriterPipeline} {snapshot : Db} {m : Message EventToWrite}
      {rest : List (Message EventToWrite)} {proc : List (Nat × EventToWrite)}
      (hw : s.writer = .collecting snapshot (m :: rest) proc)
      (hfull : cfg.writeBatchSize ≤ proc.length) : Step cfg env s { s with
        writerInbox := (m :: rest) ++ s.writerInbox
        writer := .writing proc }
  | writerEnd {s : WriterPipeline} {snapshot : Db} {rest : List (Message EventToWrite)}
      {proc : List (Nat × EventToWrite)} (hw : s.writer = .collecting snapshot (none :: rest) proc)
      (hroom : proc.length < cfg.writeBatchSize) : Step cfg env s { s with
        shutdownComplete := true
        writer := .writing proc }
  | duplicate {s : WriterPipeline} {snapshot : Db} {k : Nat} {ev : EventToWrite}
      {rest : List (Message EventToWrite)} {proc : List (Nat × EventToWrite)}
      (hw : s.writer = .collecting snapshot (some (k, ev) :: rest) proc)
      (hroom : proc.length < cfg.writeBatchSize)
      (hdup : (snapshot.lookupEventById cfg.ord ev.packed.id).isSome = true) : Step cfg env s { s with
        numLive := s.numLive - 1
        totalDups := s.totalDups + 1
        writer := .collecting snapshot rest proc
        outcomes := s.outcomes ++ [(k, .duplicate ev)] }
  | collect {s : WriterPipeline} {snapshot : Db} {k : Nat} {ev : EventToWrite}
      {rest : List (Message EventToWrite)} {proc : List (Nat × EventToWrite)}
      (hw : s.writer = .collecting snapshot (some (k, ev) :: rest) proc)
      (hroom : proc.length < cfg.writeBatchSize)
      (hnew : (snapshot.lookupEventById cfg.ord ev.packed.id).isSome = false) : Step cfg env s { s with
        numLive := s.numLive - 1
        writer := .collecting snapshot rest (proc ++ [(k, ev)]) }
  | collected {s : WriterPipeline} {snapshot : Db} {proc : List (Nat × EventToWrite)}
      (hw : s.writer = .collecting snapshot [] proc) : Step cfg env s { s with writer := .writing proc }
  | skip {s : WriterPipeline} (hw : s.writer = .writing []) :
      Step cfg env s { s with writer := .finishing }
  | write {s : WriterPipeline} {proc : List (Nat × EventToWrite)} {cache : NegentropyFilterCache}
      {db' : Db} {evs' : List EventToWrite} (hw : s.writer = .writing proc) (hne : proc ≠ [])
      (hok : writeEvents cfg.S cfg.ord cfg.verifier.hex cfg.verifier.text s.neFilterCache s.db
        (proc.map Prod.snd) = (cache, .ok (db', evs'))) : Step cfg env s { s with
        db := db'
        neFilterCache := cache
        totalWritten := s.totalWritten + numWritten evs'
        totalDups := s.totalDups + (evs'.length - numWritten evs')
        writer := .finishing
        outcomes := s.outcomes ++ proc.map fun p => (p.1, .passed p.2) }
  | finish {s : WriterPipeline} (hw : s.writer = .finishing) (hend : s.shutdownComplete = true) :
      Step cfg env s { s with
        flushInbox := s.flushInbox ++ [true]
        writer := .returned }
  | again {s : WriterPipeline} (hw : s.writer = .finishing) (hend : s.shutdownComplete = false) :
      Step cfg env s { s with writer := .waiting }
  -- another process
  | other {s : WriterPipeline} {db' : Db} (henv : env s.db db') : Step cfg env s { s with db := db' }

/-- What any interleaving reaches from a new pipeline on the database `db`. -/
def Reachable (cfg : PipelineConfig) (env : Db → Db → Prop) (db : Db) : WriterPipeline → Prop :=
  Relation.ReflTransGen (Step cfg env) { db := db }

end WriterPipeline

end Strfry
