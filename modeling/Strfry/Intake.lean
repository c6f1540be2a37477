import Strfry.HttpServer
import Strfry.Verdicts

/-!
# One verdict for each submitted event

The way of an EVENT message through the relay: from the inbox of an ingester thread to a reply, or
on to the inbox of the writer and to a reply there. `Intake` is the state of the threads, with the
log of their replies; its steps interleave the threads in any order. The invariant counts where a
message is: the places in which it waits and the verdicts on it add up to one.
-/

set_option autoImplicit false

namespace Strfry

open Lib

/-! ## Threads -/

/-- An ingester thread: its inbox, what is left of the messages it has taken from it, the lookup in
its transaction, and the messages it has collected for the writer. -/
structure IngesterThread where
  inbox : List MsgIngester := []
  newMsgs : List MsgIngester := []
  existing : Bytes → Except Err Bool := fun _ => .ok false
  writerMsgs : List AddEvent := []

/-- The ingester threads and the writer. `log`, `dropped` (the events that the writer has filtered
out, each with its batch) and `submitted` are history variables. -/
structure Intake where
  ingesters : Nat → IngesterThread := fun _ => {}
  writerInbox : List MsgWriter := []
  newMsgs : List MsgWriter := []
  log : List LogEntry := []
  dropped : List (AddEvent × List MsgWriter) := []
  submitted : List ClientMessage := []

namespace Intake

/-- The state after a step of the thread `i`. -/
def setThread (i : Nat) (th : IngesterThread) (s : Intake) : Intake :=
  { s with ingesters := Function.update s.ingesters i th }

/-- `tpIngester.dispatch`. -/
def dispatch (numThreads key : Nat) (msg : MsgIngester) (s : Intake) : Intake :=
  let th := s.ingesters (key % numThreads)
  s.setThread (key % numThreads) { th with inbox := th.inbox ++ [msg] }

/-- The events of a batch from closed connections. -/
def closedEvents (msgs : List MsgWriter) : List AddEvent :=
  msgs.filterMap fun
    | .addEvent msg => if (closedConns msgs).contains msg.connId then some msg else none
    | .closeConn _ => none

/-- A step of one thread. The writer takes the messages of its inbox, and handles them, in two
steps. The database and the settings may change at any time. -/
inductive Step (numThreads : Nat) (text : JsonText) (S : StdSort) (ord : IndexOrder)
    (hex : HexCodec) : Intake → Intake → Prop
  | submit {s : Intake} {msg : ClientMessage} (sourced : msg.Sourced)
      (fresh : ∀ m ∈ s.submitted, m.token ≠ msg.token) :
      Step numThreads text S ord hex s
        { s.dispatch numThreads msg.connId (.clientMessage msg) with
          submitted := s.submitted ++ [msg] }
  | disconnect {s : Intake} {connId : Nat} (ne : connId ≠ 0) :
      Step numThreads text S ord hex s (s.dispatch numThreads connId (.closeConn connId))
  | pop {s : Intake} {i : Nat} (existing : Bytes → Except Err Bool) (lt : i < numThreads)
      (idle : (s.ingesters i).newMsgs = []) (flushed : (s.ingesters i).writerMsgs = []) :
      Step numThreads text S ord hex s (s.setThread i ⟨[], (s.ingesters i).inbox, existing, []⟩)
  | clientMessage {s : Intake} {i : Nat} {msg : ClientMessage} {rest : List MsgIngester}
      {V : Verifier} (cfg : IngesterConfig) (lt : i < numThreads) (reads : V.text = text)
      (next : (s.ingesters i).newMsgs = .clientMessage msg :: rest) :
      Step numThreads text S ord hex s
        { s.setThread i { s.ingesters i with
            newMsgs := rest
            writerMsgs := (s.ingesters i).writerMsgs ++
              (ingesterClientMessage V cfg (s.ingesters i).existing msg).2 } with
          log := s.log ++
            (ingesterClientMessage V cfg (s.ingesters i).existing msg).1.map (.sent msg.token) }
  | closeConn {s : Intake} {i connId : Nat} {rest : List MsgIngester} (lt : i < numThreads)
      (next : (s.ingesters i).newMsgs = .closeConn connId :: rest) :
      Step numThreads text S ord hex s
        { s.setThread i { s.ingesters i with newMsgs := rest } with
          writerInbox := s.writerInbox ++ [.closeConn connId] }
  | dispatchMulti {s : Intake} {i : Nat} (lt : i < numThreads)
      (done : (s.ingesters i).newMsgs = []) :
      Step numThreads text S ord hex s
        { s.setThread i { s.ingesters i with writerMsgs := [] } with
          writerInbox := s.writerInbox ++ (s.ingesters i).writerMsgs.map .addEvent }
  | writerPop {s : Intake} (idle : s.newMsgs = []) :
      Step numThreads text S ord hex s { s with writerInbox := [], newMsgs := s.writerInbox }
  | writerRound {s : Intake} (P : WritePolicy) (txnFails : Option Err) (w : Writer) :
      Step numThreads text S ord hex s
        { s with
          newMsgs := []
          log := s.log ++ (runWriter S ord hex text P txnFails w s.newMsgs).2
          dropped := s.dropped ++ (closedEvents s.newMsgs).map fun a => (a, s.newMsgs) }

/-- The states that the threads reach. -/
def Reachable (numThreads : Nat) (text : JsonText) (S : StdSort) (ord : IndexOrder)
    (hex : HexCodec) (s : Intake) : Prop :=
  Relation.ReflTransGen (Step numThreads text S ord hex) {} s

/-! ## Where a message is -/

/-- The number of messages with the token in an inbox. -/
def countMsgs (token : Nat) (msgs : List MsgIngester) : Nat :=
  msgs.countP fun
    | .clientMessage msg => msg.token == token
    | .closeConn _ => false

/-- The number of events with the token in the inbox of the writer. -/
def countWriter (token : Nat) (msgs : List MsgWriter) : Nat :=
  msgs.countP fun
    | .addEvent a => a.token == token
    | .closeConn _ => false

/-- The number of places in a thread in which the message waits. -/
def held (token : Nat) (th : IngesterThread) : Nat :=
  countMsgs token th.inbox + countMsgs token th.newMsgs + countAdds token th.writerMsgs

/-- The number of places in the ingester threads. -/
def heldByAll (numThreads token : Nat) (ingesters : Nat → IngesterThread) : Nat :=
  ∑ i ∈ Finset.range numThreads, held token (ingesters i)

/-- The number of places in which the message waits. -/
def waiting (numThreads token : Nat) (s : Intake) : Nat :=
  heldByAll numThreads token s.ingesters + countWriter token s.writerInbox +
    countWriter token s.newMsgs

/-- The number of times that the message was filtered out. -/
def timesDropped (token : Nat) (s : Intake) : Nat := countAdds token (s.dropped.map Prod.fst)

/-- What the counts rest on: every message and event in flight is a submitted one. -/
structure Traced (s : Intake) : Prop where
  tokens : (s.submitted.map ClientMessage.token).Nodup
  sourced : ∀ m ∈ s.submitted, m.Sourced
  messages : ∀ i m, .clientMessage m ∈ (s.ingesters i).inbox ∨
    .clientMessage m ∈ (s.ingesters i).newMsgs → m ∈ s.submitted
  collected : ∀ i, ∀ a ∈ (s.ingesters i).writerMsgs, ∃ m ∈ s.submitted, a.From m
  events : ∀ a, .addEvent a ∈ s.writerInbox ∨ .addEvent a ∈ s.newMsgs → ∃ m ∈ s.submitted, a.From m
  closing : ∀ i connId, .closeConn connId ∈ (s.ingesters i).inbox ∨
    .closeConn connId ∈ (s.ingesters i).newMsgs → connId ≠ 0
  closed : ∀ connId, .closeConn connId ∈ s.writerInbox ∨ .closeConn connId ∈ s.newMsgs → connId ≠ 0
  logged : ∀ token reply, .sent token reply ∈ s.log → ∃ m ∈ s.submitted, m.token = token
  /-- Only an event of a WebSocket is filtered out, with the close of its connection. -/
  dropped : ∀ p ∈ s.dropped, (∃ m ∈ s.submitted, p.1.From m) ∧ .addEvent p.1 ∈ p.2 ∧
    .closeConn p.1.connId ∈ p.2 ∧ p.1.resultPromise = false

/-- Every EVENT message is in one place, or it has been filtered out, or it has one verdict. -/
structure Accounted (numThreads : Nat) (text : JsonText) (s : Intake) : Prop extends Traced s where
  total : ∀ m ∈ s.submitted, ∀ event, IsEvent text m event →
    waiting numThreads m.token s + timesDropped m.token s +
      verdicts m.resultPromise m.token s.log = 1

/-! ## Every step keeps the trace -/

section Steps

variable {numThreads : Nat} {text : JsonText} {S : StdSort} {ord : IndexOrder} {hex : HexCodec}
  {s s' : Intake}

theorem setThread_ingesters (s : Intake) (i j : Nat) (th : IngesterThread) :
    (s.setThread i th).ingesters j = if j = i then th else s.ingesters j :=
  Function.update_apply _ _ _ _

/-- A thread may hold submitted messages and their events. -/
structure TracedThread (s : Intake) (th : IngesterThread) : Prop where
  messages : ∀ m, .clientMessage m ∈ th.inbox ∨ .clientMessage m ∈ th.newMsgs → m ∈ s.submitted
  collected : ∀ a ∈ th.writerMsgs, ∃ m ∈ s.submitted, a.From m
  closing : ∀ connId, .closeConn connId ∈ th.inbox ∨ .closeConn connId ∈ th.newMsgs → connId ≠ 0

theorem Traced.thread (h : Traced s) (i : Nat) : TracedThread s (s.ingesters i) :=
  ⟨h.messages i, h.collected i, h.closing i⟩

theorem Traced.setThread (h : Traced s) {th : IngesterThread} (hth : TracedThread s th) (i : Nat) :
    Traced (s.setThread i th) := by
  have hall : ∀ j, TracedThread s ((s.setThread i th).ingesters j) := by
    intro j
    rw [setThread_ingesters]
    split
    · exact hth
    · exact h.thread j
  exact { h with
    messages := fun j => (hall j).messages
    collected := fun j => (hall j).collected
    closing := fun j => (hall j).closing }

theorem Traced.submit (h : Traced s) {msg : ClientMessage} (hsrc : msg.Sourced)
    (hfresh : ∀ m ∈ s.submitted, m.token ≠ msg.token) :
    Traced { s with submitted := s.submitted ++ [msg] } where
  tokens := by
    rw [List.map_append, List.nodup_append]
    refine ⟨h.tokens, by simp, ?_⟩
    intro t ht t' ht' heq
    obtain ⟨m, hm, rfl⟩ := List.mem_map.1 ht
    simp only [List.map_cons, List.map_nil, List.mem_singleton] at ht'
    exact hfresh m hm (heq.trans ht')
  sourced := by
    intro m hm
    rcases List.mem_append.1 hm with hm | hm
    · exact h.sourced m hm
    · rw [List.mem_singleton] at hm
      exact hm ▸ hsrc
  messages i m hm := List.mem_append_left _ (h.messages i m hm)
  collected i a ha := by
    obtain ⟨m, hm, hfrom⟩ := h.collected i a ha
    exact ⟨m, List.mem_append_left _ hm, hfrom⟩
  events a ha := by
    obtain ⟨m, hm, hfrom⟩ := h.events a ha
    exact ⟨m, List.mem_append_left _ hm, hfrom⟩
  closing := h.closing
  closed := h.closed
  logged t r hr := by
    obtain ⟨m, hm, heq⟩ := h.logged t r hr
    exact ⟨m, List.mem_append_left _ hm, heq⟩
  dropped p hp := by
    obtain ⟨⟨m, hm, hfrom⟩, hrest⟩ := h.dropped p hp
    exact ⟨⟨m, List.mem_append_left _ hm, hfrom⟩, hrest⟩

theorem Traced.dispatch (h : Traced s) {msg : MsgIngester}
    (hmsg : ∀ m, msg = .clientMessage m → m ∈ s.submitted)
    (hclose : ∀ connId, msg = .closeConn connId → connId ≠ 0) (key : Nat) :
    Traced (s.dispatch numThreads key msg) := by
  have hth := h.thread (key % numThreads)
  apply h.setThread
  refine ⟨fun m hm => ?_, hth.collected, fun connId hc => ?_⟩
  · rw [List.mem_append, List.mem_singleton] at hm
    rcases hm with (hm | hm) | hm
    · exact hth.messages m (Or.inl hm)
    · exact hmsg m hm.symm
    · exact hth.messages m (Or.inr hm)
  · rw [List.mem_append, List.mem_singleton] at hc
    rcases hc with (hc | hc) | hc
    · exact hth.closing connId (Or.inl hc)
    · exact hclose connId hc.symm
    · exact hth.closing connId (Or.inr hc)

theorem mem_closedEvents {msgs : List MsgWriter} {a : AddEvent} :
    a ∈ closedEvents msgs ↔ .addEvent a ∈ msgs ∧ .closeConn a.connId ∈ msgs := by
  have hclosed : ∀ connId, connId ∈ closedConns msgs ↔ .closeConn connId ∈ msgs := by
    intro connId
    rw [closedConns, List.mem_filterMap]
    constructor
    · rintro ⟨msg, hmsg, heq⟩
      cases msg with
      | addEvent b => cases heq
      | closeConn c =>
        cases heq
        exact hmsg
    · intro hmsg
      exact ⟨_, hmsg, rfl⟩
  rw [closedEvents, List.mem_filterMap]
  constructor
  · rintro ⟨msg, hmsg, heq⟩
    cases msg with
    | closeConn c => cases heq
    | addEvent b =>
      simp only [Option.ite_none_right_eq_some, Option.some.injEq, List.contains_iff_mem] at heq
      obtain ⟨hc, rfl⟩ := heq
      exact ⟨hmsg, (hclosed _).1 hc⟩
  · rintro ⟨hmsg, hc⟩
    refine ⟨_, hmsg, ?_⟩
    simp only [List.contains_iff_mem, (hclosed _).2 hc, if_true]

theorem mem_openEvents {msgs : List MsgWriter} {a : AddEvent} (h : a ∈ openEvents msgs) :
    .addEvent a ∈ msgs := by
  obtain ⟨msg, hmsg, heq⟩ := List.mem_filterMap.1 h
  cases msg with
  | closeConn c => cases heq
  | addEvent b =>
    simp only [Option.ite_none_left_eq_some, Option.some.injEq] at heq
    exact heq.2 ▸ hmsg

/-- An event of the HTTP server is not filtered out. -/
theorem Traced.not_promise (h : Traced s) {a : AddEvent} (ha : a ∈ closedEvents s.newMsgs) :
    a.resultPromise = false := by
  obtain ⟨hadd, hclose⟩ := mem_closedEvents.1 ha
  obtain ⟨m, hm, hfrom⟩ := h.events a (Or.inr hadd)
  have hne := h.closed _ (Or.inr hclose)
  rw [hfrom.promise]
  rcases h.sourced m hm with ⟨-, hp⟩ | ⟨hconn, -⟩
  · exact hp
  · exact absurd (hfrom.connId.trans hconn) hne

/-- What a thread holds after it has taken the next message. -/
theorem TracedThread.rest {th : IngesterThread} (h : TracedThread s th) {msg : MsgIngester}
    {rest : List MsgIngester} (next : th.newMsgs = msg :: rest) :
    TracedThread s { th with newMsgs := rest } := by
  have htail : ∀ msg', msg' ∈ rest → msg' ∈ th.newMsgs := by
    intro msg' hmem
    rw [next]
    exact List.mem_cons_of_mem _ hmem
  exact ⟨fun m hm => h.messages m (hm.imp_right (htail _)), h.collected,
    fun c hc => h.closing c (hc.imp_right (htail _))⟩

/-- A thread takes its messages. -/
theorem Traced.pop (h : Traced s) (i : Nat) (existing : Bytes → Except Err Bool) :
    Traced (s.setThread i ⟨[], (s.ingesters i).inbox, existing, []⟩) := by
  have hth := h.thread i
  apply h.setThread
  refine ⟨fun m hm => hth.messages m (.inl ?_), fun a ha => ?_, fun c hc => hth.closing c (.inl ?_)⟩
  · exact hm.resolve_left List.not_mem_nil
  · cases ha
  · exact hc.resolve_left List.not_mem_nil

/-- A thread handles a message of a client. -/
theorem Traced.clientMessage (h : Traced s) {i : Nat} {msg : ClientMessage} {rest : List MsgIngester}
    (V : Verifier) (cfg : IngesterConfig) (next : (s.ingesters i).newMsgs = .clientMessage msg :: rest) :
    Traced { s.setThread i { s.ingesters i with
          newMsgs := rest
          writerMsgs := (s.ingesters i).writerMsgs ++
            (ingesterClientMessage V cfg (s.ingesters i).existing msg).2 } with
        log := s.log ++
          (ingesterClientMessage V cfg (s.ingesters i).existing msg).1.map (.sent msg.token) } := by
  have hth := (h.thread i).rest next
  have hmem : msg ∈ s.submitted := by
    apply (h.thread i).messages msg (.inr ?_)
    rw [next]
    exact List.mem_cons_self
  have hset : Traced (s.setThread i { s.ingesters i with
      newMsgs := rest
      writerMsgs := (s.ingesters i).writerMsgs ++
        (ingesterClientMessage V cfg (s.ingesters i).existing msg).2 }) := by
    apply h.setThread
    refine ⟨hth.messages, fun a ha => ?_, hth.closing⟩
    rcases List.mem_append.1 ha with ha | ha
    · exact hth.collected a ha
    · exact ⟨msg, hmem, from_ingesterClientMessage V cfg _ (h.sourced msg hmem) ha⟩
  refine { hset with logged := ?_ }
  intro t r hr
  rcases List.mem_append.1 hr with hr | hr
  · exact h.logged t r hr
  · obtain ⟨r', -, heq⟩ := List.mem_map.1 hr
    cases heq
    exact ⟨msg, hmem, rfl⟩

/-- A thread passes on that a connection is closed. -/
theorem Traced.closeConn (h : Traced s) {i connId : Nat} {rest : List MsgIngester}
    (next : (s.ingesters i).newMsgs = .closeConn connId :: rest) :
    Traced { s.setThread i { s.ingesters i with newMsgs := rest } with
      writerInbox := s.writerInbox ++ [.closeConn connId] } := by
  have hne : connId ≠ 0 := by
    apply (h.thread i).closing connId (.inr ?_)
    rw [next]
    exact List.mem_cons_self
  have hset := h.setThread ((h.thread i).rest next) i
  refine { hset with events := ?_, closed := ?_ }
  · rintro a (ha | ha)
    · rw [List.mem_append, List.mem_singleton] at ha
      rcases ha with ha | ha
      · exact h.events a (Or.inl ha)
      · cases ha
    · exact h.events a (Or.inr ha)
  · rintro c (hc | hc)
    · rw [List.mem_append, List.mem_singleton] at hc
      rcases hc with hc | hc
      · exact h.closed c (Or.inl hc)
      · cases hc
        exact hne
    · exact h.closed c (Or.inr hc)

/-- A thread passes on the events that it has collected. -/
theorem Traced.dispatchMulti (h : Traced s) (i : Nat) :
    Traced { s.setThread i { s.ingesters i with writerMsgs := [] } with
      writerInbox := s.writerInbox ++ (s.ingesters i).writerMsgs.map .addEvent } := by
  have hth := h.thread i
  have hset : Traced (s.setThread i { s.ingesters i with writerMsgs := [] }) := by
    apply h.setThread
    refine ⟨hth.messages, fun a ha => ?_, hth.closing⟩
    cases ha
  refine { hset with events := ?_, closed := ?_ }
  · rintro a (ha | ha)
    · rcases List.mem_append.1 ha with ha | ha
      · exact h.events a (Or.inl ha)
      · obtain ⟨b, hb, heq⟩ := List.mem_map.1 ha
        cases heq
        exact hth.collected a hb
    · exact h.events a (Or.inr ha)
  · rintro c (hc | hc)
    · rcases List.mem_append.1 hc with hc | hc
      · exact h.closed c (Or.inl hc)
      · obtain ⟨b, -, heq⟩ := List.mem_map.1 hc
        cases heq
    · exact h.closed c (Or.inr hc)

/-- The writer takes its messages. -/
theorem Traced.writerPop (h : Traced s) : Traced { s with writerInbox := [], newMsgs := s.writerInbox } := by
  refine { h with events := ?_, closed := ?_ }
  · rintro a (ha | ha)
    · cases ha
    · exact h.events a (Or.inl ha)
  · rintro c (hc | hc)
    · cases hc
    · exact h.closed c (Or.inl hc)

/-- The writer handles a batch. -/
theorem Traced.writerRound (h : Traced s) (S : StdSort) (ord : IndexOrder) (hex : HexCodec) (text : JsonText)
    (P : WritePolicy) (txnFails : Option Err) (w : Writer) :
    Traced { s with
      newMsgs := []
      log := s.log ++ (runWriter S ord hex text P txnFails w s.newMsgs).2
      dropped := s.dropped ++ (closedEvents s.newMsgs).map fun a => (a, s.newMsgs) } := by
  refine { h with events := ?_, closed := ?_, logged := ?_, dropped := ?_ }
  · rintro a (ha | ha)
    · exact h.events a (Or.inl ha)
    · cases ha
  · rintro c (hc | hc)
    · exact h.closed c (Or.inl hc)
    · cases hc
  · intro t r hr
    rcases List.mem_append.1 hr with hr | hr
    · exact h.logged t r hr
    · obtain ⟨a, ha, rfl⟩ := token_runWriter _ _ _ _ hr
      obtain ⟨m, hm, hfrom⟩ := h.events a (Or.inr (mem_openEvents ha))
      exact ⟨m, hm, hfrom.token.symm⟩
  · intro p hp
    rcases List.mem_append.1 hp with hp | hp
    · exact h.dropped p hp
    · obtain ⟨a, ha, rfl⟩ := List.mem_map.1 hp
      obtain ⟨hadd, hclose⟩ := mem_closedEvents.1 ha
      exact ⟨h.events a (Or.inr hadd), hadd, hclose, h.not_promise ha⟩

/-- The step lemma. -/
theorem Step.traced (hs : Step numThreads text S ord hex s s') (h : Traced s) : Traced s' := by
  cases hs with
  | submit sourced fresh =>
    apply (h.submit sourced fresh).dispatch
    · rintro m heq
      cases heq
      exact List.mem_append_right _ (List.mem_singleton.2 rfl)
    · exact nofun
  | disconnect ne =>
    apply h.dispatch
    · exact nofun
    · rintro connId heq
      cases heq
      exact ne
  | @pop i existing lt idle flushed => exact h.pop i existing
  | @clientMessage i msg rest V cfg lt reads next => exact h.clientMessage V cfg next
  | closeConn lt next => exact h.closeConn next
  | @dispatchMulti i lt done => exact h.dispatchMulti i
  | writerPop idle => exact h.writerPop
  | writerRound P txnFails w => exact h.writerRound S ord hex text P txnFails w

/-! ## Every step keeps the count -/

theorem heldByAll_update (token : Nat) (f : Nat → IngesterThread) {i : Nat} (hi : i < numThreads)
    (th : IngesterThread) :
    heldByAll numThreads token (Function.update f i th) + held token (f i) =
      heldByAll numThreads token f + held token th := by
  have hmem : i ∈ Finset.range numThreads := Finset.mem_range.2 hi
  have hsum : ∀ g : Nat → IngesterThread, heldByAll numThreads token g =
      held token (g i) + ∑ j ∈ (Finset.range numThreads).erase i, held token (g j) :=
    fun g => (Finset.add_sum_erase _ _ hmem).symm
  have hsame : ∑ j ∈ (Finset.range numThreads).erase i, held token (Function.update f i th j) =
      ∑ j ∈ (Finset.range numThreads).erase i, held token (f j) := by
    apply Finset.sum_congr rfl
    intro j hj
    rw [Function.update_of_ne (Finset.ne_of_mem_erase hj)]
  rw [hsum, hsum f, hsame, Function.update_self]
  omega

theorem countWriter_append (token : Nat) (msgs msgs' : List MsgWriter) :
    countWriter token (msgs ++ msgs') = countWriter token msgs + countWriter token msgs' :=
  List.countP_append

theorem countWriter_map (token : Nat) (adds : List AddEvent) :
    countWriter token (adds.map .addEvent) = countAdds token adds := by
  rw [countWriter, List.countP_map]
  rfl

/-- The events of a batch are filtered out or not. -/
theorem countWriter_eq (token : Nat) (msgs : List MsgWriter) :
    countWriter token msgs = countAdds token (openEvents msgs) +
      countAdds token (closedEvents msgs) := by
  have hgen : ∀ (closed : List Nat) (l : List MsgWriter), countWriter token l =
      countAdds token (l.filterMap fun
        | .addEvent msg => if closed.contains msg.connId then none else some msg
        | .closeConn _ => none) +
      countAdds token (l.filterMap fun
        | .addEvent msg => if closed.contains msg.connId then some msg else none
        | .closeConn _ => none) := by
    intro closed l
    induction l with
    | nil => rfl
    | cons msg l ih =>
      rw [countWriter, List.countP_cons, ← countWriter, ih]
      cases msg with
      | closeConn c => simp
      | addEvent a =>
        cases hc : closed.contains a.connId with
        | true =>
          simp only [List.filterMap_cons, hc, if_true, countAdds, List.countP_cons]
          omega
        | false =>
          simp only [List.filterMap_cons, hc, Bool.false_eq_true, if_false, countAdds,
            List.countP_cons]
          omega
  exact hgen (closedConns msgs) msgs

theorem countMsgs_append (token : Nat) (msgs msgs' : List MsgIngester) :
    countMsgs token (msgs ++ msgs') = countMsgs token msgs + countMsgs token msgs' :=
  List.countP_append

theorem countAdds_append (token : Nat) (adds adds' : List AddEvent) :
    countAdds token (adds ++ adds') = countAdds token adds + countAdds token adds' :=
  List.countP_append

theorem waiting_dispatch (hn : 0 < numThreads) (token key : Nat) (msg : MsgIngester) (s : Intake) :
    waiting numThreads token (s.dispatch numThreads key msg) =
      waiting numThreads token s + countMsgs token [msg] := by
  have hheld := heldByAll_update token s.ingesters (Nat.mod_lt key hn)
    ⟨(s.ingesters (key % numThreads)).inbox ++ [msg], (s.ingesters (key % numThreads)).newMsgs,
      (s.ingesters (key % numThreads)).existing, (s.ingesters (key % numThreads)).writerMsgs⟩
  simp only [held, countMsgs_append] at hheld
  rw [waiting, waiting]
  simp only [dispatch, setThread]
  omega

theorem Traced.unique (h : Traced s) {m m' : ClientMessage} (hm : m ∈ s.submitted)
    (hm' : m' ∈ s.submitted) (heq : m.token = m'.token) : m = m' :=
  List.inj_on_of_nodup_map h.tokens hm hm' heq

theorem Traced.samePromise (h : Traced s) {m : ClientMessage} (hm : m ∈ s.submitted)
    {adds : List AddEvent} (hadds : ∀ a ∈ adds, ∃ m ∈ s.submitted, a.From m) :
    SamePromise m.resultPromise m.token adds := by
  intro a ha heq
  obtain ⟨m', hm', hfrom⟩ := hadds a ha
  rw [hfrom.promise, h.unique hm' hm (hfrom.token.symm.trans heq)]

/-- A token that has not been submitted is nowhere. -/
theorem Traced.count_fresh (h : Traced s) (numThreads : Nat) (promise : Bool) {token : Nat}
    (hfresh : ∀ m ∈ s.submitted, m.token ≠ token) :
    waiting numThreads token s + timesDropped token s + verdicts promise token s.log = 0 := by
  -- the token is nowhere: not in a queue of a thread, not among its events, not at the writer, not in the log
  have hmsgs : ∀ i (msgs : List MsgIngester), (∀ m, .clientMessage m ∈ msgs →
      .clientMessage m ∈ (s.ingesters i).inbox ∨ .clientMessage m ∈ (s.ingesters i).newMsgs) →
      countMsgs token msgs = 0 := by
    intro i msgs hin
    rw [countMsgs, List.countP_eq_zero]
    intro msg hmsg
    cases msg with
    | closeConn c => simp
    | clientMessage m =>
      rw [beq_iff_eq]
      exact hfresh m (h.messages i m (hin m hmsg))
  have hadds : ∀ adds : List AddEvent, (∀ a ∈ adds, ∃ m ∈ s.submitted, a.From m) →
      countAdds token adds = 0 := by
    intro adds hin
    rw [countAdds, List.countP_eq_zero]
    intro a ha
    obtain ⟨m, hm, hfrom⟩ := hin a ha
    rw [beq_iff_eq, hfrom.token]
    exact hfresh m hm
  have hwriter : ∀ msgs : List MsgWriter, (∀ a, .addEvent a ∈ msgs → ∃ m ∈ s.submitted, a.From m) →
      countWriter token msgs = 0 := by
    intro msgs hin
    rw [countWriter_eq, hadds _ fun a ha => hin a (mem_openEvents ha),
      hadds _ fun a ha => hin a (mem_closedEvents.1 ha).1]
  have hheld : ∀ i, held token (s.ingesters i) = 0 := by
    intro i
    rw [held, hmsgs i _ fun m hm => Or.inl hm, hmsgs i _ fun m hm => Or.inr hm,
      hadds _ (h.collected i)]
  have hlog : verdicts promise token s.log = 0 := by
    apply verdicts_eq_zero
    intro reply hmem
    obtain ⟨m, hm, heq⟩ := h.logged token reply hmem
    exact hfresh m hm heq
  -- what was dropped with its connection has come from a message too
  have hdropped : timesDropped token s = 0 := by
    apply hadds
    intro a ha
    obtain ⟨p, hp, rfl⟩ := List.mem_map.1 ha
    exact (h.dropped p hp).1
  rw [waiting, hlog, hdropped, hwriter _ fun a ha => h.events a (Or.inl ha),
    hwriter _ fun a ha => h.events a (Or.inr ha), heldByAll,
    Finset.sum_eq_zero fun i _ => hheld i]

/-- The replies to a message count for its token only. -/
theorem verdicts_replies (promise : Bool) (token token' : Nat) (replies : List Reply) :
    verdicts promise token (replies.map (.sent token')) =
      if token' = token then replies.countP (Reply.isVerdict promise) else 0 := by
  rw [verdicts, List.countP_map]
  split
  · rename_i heq
    apply List.countP_congr
    intro reply _
    simp [heq]
  · rename_i hne
    rw [List.countP_eq_zero]
    intro reply _
    simp [hne]

/-- A message that the ingester handles is settled or collected for the writer. -/
theorem ingesterClientMessage_count (h : Traced s) {m msg : ClientMessage} (hm : m ∈ s.submitted)
    (hmsg : msg ∈ s.submitted) {V : Verifier} {event : Json} (hevent : IsEvent V.text m event)
    (cfg : IngesterConfig) (existing : Bytes → Except Err Bool) :
    countAdds m.token (ingesterClientMessage V cfg existing msg).2 +
      verdicts m.resultPromise m.token
        ((ingesterClientMessage V cfg existing msg).1.map (.sent msg.token)) =
      countMsgs m.token [.clientMessage msg] := by
  have hfrom : ∀ a ∈ (ingesterClientMessage V cfg existing msg).2, a.From msg :=
    fun a ha => from_ingesterClientMessage V cfg existing (h.sourced msg hmsg) ha
  rw [verdicts_replies, countMsgs, List.countP_singleton]
  by_cases heq : msg.token = m.token
  · obtain rfl := h.unique hmsg hm heq
    obtain ⟨hcount, -⟩ := ingesterEvent_settles (h.sourced msg hmsg) V cfg existing event
    have hlen : countAdds msg.token (ingesterClientMessage V cfg existing msg).2 =
        (ingesterClientMessage V cfg existing msg).2.length := by
      rw [countAdds, List.countP_eq_length]
      intro a ha
      exact beq_iff_eq.2 (hfrom a ha).token
    rw [hlen, ingesterClientMessage_event hevent, if_pos rfl, if_pos (beq_self_eq_true _)]
    omega
  · have hzero : countAdds m.token (ingesterClientMessage V cfg existing msg).2 = 0 := by
      rw [countAdds, List.countP_eq_zero]
      intro a ha
      rw [beq_iff_eq, (hfrom a ha).token]
      exact heq
    rw [hzero, if_neg heq, if_neg (by simpa using heq)]

theorem countMsgs_cons (token : Nat) (msg : MsgIngester) (rest : List MsgIngester) :
    countMsgs token (msg :: rest) = countMsgs token [msg] + countMsgs token rest :=
  countMsgs_append token [msg] rest

/-- The count of one message: the places in which it waits, drops and verdicts. -/
def Settled (numThreads : Nat) (m : ClientMessage) (s : Intake) : Prop :=
  waiting numThreads m.token s + timesDropped m.token s +
    verdicts m.resultPromise m.token s.log = 1

theorem Settled.thread {m : ClientMessage} (h : Settled numThreads m s) {i : Nat}
    (hi : i < numThreads) {th : IngesterThread} {writerInbox : List MsgWriter}
    {log : List LogEntry}
    (heq : held m.token th + countWriter m.token writerInbox + verdicts m.resultPromise m.token log =
      held m.token (s.ingesters i) + countWriter m.token s.writerInbox +
        verdicts m.resultPromise m.token s.log) :
    Settled numThreads m { s.setThread i th with writerInbox := writerInbox, log := log } := by
  have hheld := heldByAll_update m.token s.ingesters hi th
  rw [Settled, waiting] at h
  show heldByAll numThreads m.token (Function.update s.ingesters i th) +
    countWriter m.token writerInbox + countWriter m.token s.newMsgs + timesDropped m.token s +
      verdicts m.resultPromise m.token log = 1
  omega

theorem Step.accounted (hn : 0 < numThreads) (hs : Step numThreads text S ord hex s s')
    (h : Accounted numThreads text s) : Accounted numThreads text s' := by
  refine ⟨hs.traced h.toTraced, ?_⟩
  cases hs with
  | @submit msg sourced fresh =>
    intro m hm event hevent
    have hwait := waiting_dispatch hn m.token msg.connId (.clientMessage msg)
      { s with submitted := s.submitted ++ [msg] }
    change waiting numThreads m.token _ = waiting numThreads m.token s + _ at hwait
    show waiting numThreads m.token (dispatch numThreads msg.connId (.clientMessage msg)
      { s with submitted := s.submitted ++ [msg] }) + timesDropped m.token s +
        verdicts m.resultPromise m.token s.log = 1
    rw [hwait, countMsgs, List.countP_singleton]
    rcases List.mem_append.1 hm with hm | hm
    · have hold := h.total m hm event hevent
      rw [if_neg (by simpa using (fresh m hm).symm)]
      omega
    · rw [List.mem_singleton] at hm
      subst hm
      -- a message that comes in has a new token, and waits from now on
      have hnew := h.toTraced.count_fresh numThreads m.resultPromise fresh
      rw [if_pos (by simp)]
      omega
  | @disconnect connId ne =>
    intro m hm event hevent
    have hold := h.total m hm event hevent
    have hwait := waiting_dispatch hn m.token connId (.closeConn connId) s
    rw [show countMsgs m.token [.closeConn connId] = 0 from rfl] at hwait
    rw [hwait]
    exact hold
  | @pop i existing lt idle flushed =>
    intro m hm event hevent
    apply Settled.thread (h.total m hm event hevent) lt
    simp only [held, idle, flushed]
    omega
  | @clientMessage i msg rest V cfg lt reads next =>
    intro m hm event hevent
    have hmsg : msg ∈ s.submitted := h.messages i msg (Or.inr (by rw [next]; simp))
    have hcount := ingesterClientMessage_count h.toTraced hm hmsg (reads ▸ hevent) cfg
      (s.ingesters i).existing
    apply Settled.thread (h.total m hm event hevent) lt
    simp only [held, setThread, next, countAdds_append, verdicts_append]
    rw [countMsgs_cons]
    omega
  | @closeConn i connId rest lt next =>
    intro m hm event hevent
    apply Settled.thread (h.total m hm event hevent) lt
    simp only [held, setThread, next, countWriter_append]
    rw [countMsgs_cons, show countMsgs m.token [.closeConn connId] = 0 from rfl,
      show countWriter m.token [.closeConn connId] = 0 from rfl]
    omega
  | @dispatchMulti i lt done =>
    intro m hm event hevent
    apply Settled.thread (h.total m hm event hevent) lt
    simp only [held, setThread, countWriter_append, countWriter_map]
    rw [show countAdds m.token [] = 0 from rfl]
    omega
  | writerPop idle =>
    intro m hm event hevent
    have hold := h.total m hm event hevent
    rw [waiting, idle] at hold
    show heldByAll numThreads m.token s.ingesters + countWriter m.token [] +
      countWriter m.token s.writerInbox + timesDropped m.token s +
        verdicts m.resultPromise m.token s.log = 1
    omega
  | writerRound P txnFails w =>
    intro m hm event hevent
    have hold := h.total m hm event hevent
    -- every event that is not dropped gets its verdict in this round
    have hsame := h.toTraced.samePromise hm fun a ha => h.events a (Or.inr (mem_openEvents ha))
    have hround := verdicts_runWriter S ord hex text P txnFails w hsame
    have hsplit := countWriter_eq m.token s.newMsgs
    have hdropped : timesDropped m.token { s with
        dropped := s.dropped ++ (closedEvents s.newMsgs).map fun a => (a, s.newMsgs) } =
        timesDropped m.token s + countAdds m.token (closedEvents s.newMsgs) := by
      rw [timesDropped, List.map_append, countAdds_append, List.map_map]
      simp [timesDropped, Function.comp_def]
    rw [waiting] at hold
    rw [verdicts_append]
    show heldByAll numThreads m.token s.ingesters + countWriter m.token s.writerInbox +
      countWriter m.token [] + timesDropped m.token { s with
        dropped := s.dropped ++ (closedEvents s.newMsgs).map fun a => (a, s.newMsgs) } +
      (verdicts m.resultPromise m.token s.log + _) = 1
    rw [hdropped, hround, show countWriter m.token [] = 0 from rfl]
    omega

theorem Reachable.accounted (hn : 0 < numThreads) (h : Reachable numThreads text S ord hex s) :
    Accounted numThreads text s := by
  induction h with
  | refl =>
    refine ⟨⟨List.nodup_nil, nofun, ?_, nofun, ?_, ?_, ?_, nofun, nofun⟩, nofun⟩
    · rintro i m (hm | hm) <;> cases hm
    · rintro a (ha | ha) <;> cases ha
    · rintro i c (hc | hc) <;> cases hc
    · rintro c (hc | hc) <;> cases hc
  | tail _ hs ih => exact hs.accounted hn ih

/-- An event that was filtered out was in one batch with the close of its connection. -/
theorem Traced.closed_of_dropped (h : Traced s) {m : ClientMessage} (hm : m ∈ s.submitted)
    (hpos : timesDropped m.token s ≠ 0) :
    m.resultPromise = false ∧ ∃ batch a, (a, batch) ∈ s.dropped ∧ a.From m ∧
      .addEvent a ∈ batch ∧ .closeConn m.connId ∈ batch := by
  rw [timesDropped, countAdds, ← Nat.pos_iff_ne_zero, List.countP_pos_iff] at hpos
  obtain ⟨a, ha, heq⟩ := hpos
  obtain ⟨⟨b, batch⟩, hp, rfl⟩ := List.mem_map.1 ha
  obtain ⟨⟨m', hm', hfrom⟩, hadd, hclose, hpromise⟩ := h.dropped _ hp
  obtain rfl := h.unique hm' hm (hfrom.token.symm.trans (beq_iff_eq.1 heq))
  rw [hfrom.promise] at hpromise
  rw [hfrom.connId] at hclose
  exact ⟨hpromise, batch, b, hp, hfrom, hadd, hclose⟩

/-- In every interleaving an EVENT message has at most one verdict, and, when it is in no thread any
more, exactly one, unless it was filtered out with the close of its connection. In a round of the
writer a positive reply comes after the commit, unless it pretends that the event of a WebSocket is
written. -/
theorem every_event_has_one_verdict (hn : 0 < numThreads)
    (h : Reachable numThreads text S ord hex s) :
    (∀ m ∈ s.submitted, ∀ event, IsEvent text m event →
      verdicts m.resultPromise m.token s.log ≤ 1 ∧
      (waiting numThreads m.token s = 0 → verdicts m.resultPromise m.token s.log = 1 ∨
        (verdicts m.resultPromise m.token s.log = 0 ∧ m.resultPromise = false ∧
          ∃ batch a, (a, batch) ∈ s.dropped ∧ a.From m ∧ .addEvent a ∈ batch ∧
            .closeConn m.connId ∈ batch))) ∧
    ∀ P txnFails w before token reply after,
      (runWriter S ord hex text P txnFails w s.newMsgs).2 = before ++ .sent token reply :: after →
      reply.positive = true → .commit ∈ before ∨ (reply.isVerdict true = false ∧
        ∃ (k : Nat) (a : AddEvent), (openEvents s.newMsgs)[k]? = some a ∧ a.token = token ∧
          (P.acceptEvent k a.jsonStr a.ipAddr).result = .shadowReject) := by
  have hacc := h.accounted hn
  constructor
  · intro m hm event hevent
    have htotal := hacc.total m hm event hevent
    refine ⟨by omega, fun hwait => ?_⟩
    by_cases hdrop : timesDropped m.token s = 0
    · left
      omega
    · right
      exact ⟨by omega, hacc.toTraced.closed_of_dropped hm hdrop⟩
  · intro P txnFails w before token reply after heq hpos
    exact positive_runWriter S ord hex text P txnFails w heq hpos

end Steps

/-! ## A note -/

/-- The note is submitted, taken by the only ingester thread, verified and collected, and written. -/
theorem every_event_has_one_verdict_sampleEvent :
    ∃ s, Reachable 1 sampleText .insertion byteOrder hexCodec s ∧ sampleMessage ∈ s.submitted ∧
      IsEvent sampleText sampleMessage sampleEvent ∧ waiting 1 0 s = 0 ∧
      s.log = [.commit, .sent 0 (.okResponse 1 sampleId true "")] ∧ verdicts false 0 s.log = 1 := by
  have hsourced : sampleMessage.Sourced := Or.inl ⟨Nat.one_ne_zero, rfl⟩
  have hevent : IsEvent sampleText sampleMessage sampleEvent :=
    ⟨bracket_sampleMessageText, [], fromString_sampleMessageText⟩
  have hrun : ∃ s, Reachable 1 sampleText .insertion byteOrder hexCodec s ∧ sampleMessage ∈ s.submitted ∧
      waiting 1 0 s = 0 ∧ s.dropped.length = 0 ∧
      s.log = [.commit, .sent 0 (.okResponse 1 sampleId true "")] := by
    have hhandled : Reachable 1 sampleText .insertion byteOrder hexCodec _ :=
      ((Relation.ReflTransGen.single (.submit hsourced nofun)).tail
        (.pop (fun _ => .ok false) Nat.zero_lt_one rfl rfl)).tail
        (.clientMessage (V := (sampleRelay none).V) {} Nat.zero_lt_one rfl rfl)
    have hwritten := ((hhandled.tail (.dispatchMulti Nat.zero_lt_one rfl)).tail (.writerPop rfl)).tail
      (.writerRound (sampleRelay none).policy none ⟨{}, Db.init⟩)
    exact ⟨_, hwritten, List.mem_singleton.2 rfl, by decide +kernel, by decide +kernel, by decide +kernel⟩
  obtain ⟨s, hreach, hmem, hwait, hdropped, hlog⟩ := hrun
  refine ⟨s, hreach, hmem, hevent, hwait, hlog, ?_⟩
  obtain ⟨-, hone⟩ := (every_event_has_one_verdict Nat.zero_lt_one hreach).1 _ hmem _ hevent
  rcases hone hwait with hone | ⟨-, -, batch, a, hdrop, -⟩
  · exact hone
  · rw [List.length_eq_zero_iff.1 hdropped] at hdrop
    cases hdrop

/-- A plugin that shadow-rejects everything. -/
def shadowRejectAll : WritePolicy where
  inetNtop ip := ip
  plugin := some fun _ _ => .ok ⟨.shadowReject, ""⟩

/-- The note, which the ingester passes on and the plugin shadow-rejects, is acknowledged with OK true, without a
commit. -/
theorem shadowReject_acknowledged_without_commit :
    ∃ a, (ingesterClientMessage (sampleRelay none).V {} (fun _ => .ok false) sampleMessage).2 = [a] ∧
      a.jsonStr = sampleEventText ∧
      (runWriter .insertion byteOrder hexCodec sampleText shadowRejectAll none ⟨{}, Db.init⟩ [.addEvent a]).2 =
        [.sent 0 (.okResponse 1 sampleId true "")] := by
  have heval : (ingesterClientMessage (sampleRelay none).V {} (fun _ => .ok false) sampleMessage).2.map
      (fun a => (a.jsonStr, (runWriter .insertion byteOrder hexCodec sampleText shadowRejectAll none
        ⟨{}, Db.init⟩ [.addEvent a]).2)) =
      [(sampleEventText, [.sent 0 (.okResponse 1 sampleId true "")])] := by decide +kernel
  obtain ⟨a, ha, hfacts⟩ := List.map_eq_singleton_iff.mp heval
  rw [Prod.mk.injEq] at hfacts
  exact ⟨a, ha, hfacts.1, hfacts.2⟩

end Intake

end Strfry
