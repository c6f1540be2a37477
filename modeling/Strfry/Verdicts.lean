import Strfry.Acknowledgement

/-!
# Verdicts

A message of a WebSocket is settled by an OK reply, one of the HTTP server by `set_value` on its
promise. The ingester settles an event or hands it to the writer; a round of the writer settles
every event in it that is not from a closed connection, and is positive only after the commit.
-/

set_option autoImplicit false

namespace Strfry

open Lib

/-! ## Counting verdicts -/

/-- The reply settles a message, with or without a promise. -/
def Reply.isVerdict (promise : Bool) : Reply → Bool
  | .setValue _ => promise
  | .okResponse _ _ _ _ => !promise
  | .noticeError _ _ => false

/-- The number of verdicts on a message. -/
def verdicts (promise : Bool) (token : Nat) (log : List LogEntry) : Nat :=
  log.countP fun
    | .sent t reply => t == token && reply.isVerdict promise
    | .commit => false

section Counting

variable {promise : Bool} {token : Nat}

@[simp] theorem verdicts_nil : verdicts promise token [] = 0 := rfl

@[simp] theorem verdicts_append (log log' : List LogEntry) :
    verdicts promise token (log ++ log') = verdicts promise token log + verdicts promise token log' :=
  List.countP_append

@[simp] theorem verdicts_commit (log : List LogEntry) :
    verdicts promise token (.commit :: log) = verdicts promise token log :=
  List.countP_cons_of_neg (by simp)

theorem verdicts_eq_zero {log : List LogEntry} (h : ∀ reply, .sent token reply ∉ log) :
    verdicts promise token log = 0 := by
  rw [verdicts, List.countP_eq_zero]
  intro entry hentry
  cases entry with
  | commit => simp
  | sent t reply =>
    rw [Bool.and_eq_true, beq_iff_eq, not_and]
    rintro rfl
    exact absurd hentry (h reply)

/-- The number of events of a message. -/
def countAdds (token : Nat) (adds : List AddEvent) : Nat :=
  adds.countP fun a => a.token == token

/-- Events that all have the promise of the message or all have none. -/
def SamePromise (promise : Bool) (token : Nat) (adds : List AddEvent) : Prop :=
  ∀ a ∈ adds, a.token = token → a.resultPromise = promise

theorem verdicts_report {msg : AddEvent} (h : msg.token = token → msg.resultPromise = promise)
    (success : Bool) (promiseMsg : String) (written : Bool) (message : String) :
    verdicts promise token (msg.report success promiseMsg written message) =
      if msg.token = token then 1 else 0 := by
  rw [AddEvent.report]
  by_cases ht : msg.token = token
  · rw [if_pos ht, h ht]
    cases promise <;> simp [verdicts, Reply.isVerdict, ht]
  · rw [if_neg ht]
    cases msg.resultPromise <;> simp [verdicts, ht]

/-- The events to write that lead to the message. -/
def leadTo (adds : List AddEvent) (token : Nat) (evs : List EventToWrite) : Nat :=
  evs.countP fun ev => (adds[ev.userData]?).map AddEvent.token == some token

/-- A message of a batch is refused with one verdict, or it is handed to `writeEvents`. -/
theorem verdicts_prepare (P : WritePolicy) (pre adds : List AddEvent)
    (h : SamePromise promise token adds) :
    verdicts promise token (prepare P pre.length adds).2 +
      leadTo (pre ++ adds) token (prepare P pre.length adds).1 = countAdds token adds := by
  induction adds generalizing pre with
  | nil => rfl
  | cons msg rest ih =>
    have hrest := ih (pre ++ [msg]) (fun a ha => h a (List.mem_cons_of_mem _ ha))
    rw [List.append_assoc, List.singleton_append, List.length_append, List.length_singleton] at hrest
    have hmsg := h msg List.mem_cons_self
    rw [prepare, countAdds, List.countP_cons, ← countAdds]
    split
    · rw [leadTo, List.countP_cons, ← leadTo]
      have hget : (pre ++ msg :: rest)[pre.length]? = some msg := by simp
      simp only [hget, Option.map_some, Option.some_beq_some, beq_iff_eq]
      omega
    · rw [verdicts_append, AddEvent.refusal, verdicts_report hmsg]
      simp only [beq_iff_eq]
      omega

/-- Each event that is reported on has one verdict. -/
theorem verdicts_reportAll {adds : List AddEvent} (h : SamePromise promise token adds)
    (verdict : EventToWrite → Bool × Bool × String) (evs : List EventToWrite) :
    verdicts promise token (reportAll adds verdict evs) = leadTo adds token evs := by
  induction evs with
  | nil => rfl
  | cons ev evs ih =>
    rw [reportAll, List.flatMap_cons, verdicts_append, leadTo, List.countP_cons, ← leadTo, ← reportAll,
      ih, Nat.add_comm]
    congr 1
    split
    · rename_i hnone
      simp [hnone]
    · rename_i msg hmsg
      rw [verdicts_report (h msg (List.mem_of_getElem? hmsg)), hmsg]
      simp

end Counting

/-! ## A round of the writer -/

section Round

variable (S : StdSort) (ord : IndexOrder) (hex : HexCodec) (text : JsonText)

/-- An iteration keeps the message that an event leads to. -/
theorem writeOne_userData {ord : IndexOrder} {filters : List FilterInfo} {prevId : Option Bytes} {db db' : Db}
    {toDelete toDelete' : List Nat} {ev ev' : EventToWrite}
    (h : writeOne ord filters prevId db toDelete ev = .ok (db', toDelete', ev')) :
    ev'.userData = ev.userData := by
  rw [writeOne] at h
  split at h
  · cases h
    rfl
  split at h
  · cases h
    rfl
  obtain ⟨⟨replacedIds, isReplaced⟩, -, h⟩ := bind_eq_ok.1 h
  dsimp only at h
  generalize (if isReplaced = true then EventWriteStatus.replaced else ev.status) = status at h
  split at h
  · cases h
    rfl
  split at h
  · cases h
  · cases h
    rfl

theorem writeLoop_userData {ord : IndexOrder} {filters : List FilterInfo} {prevId : Option Bytes} {db db' : Db}
    {toDelete : List Nat} {evs evs' : List EventToWrite}
    (h : writeLoop ord filters prevId db toDelete evs = .ok (db', evs')) :
    evs'.map EventToWrite.userData = evs.map EventToWrite.userData := by
  induction evs generalizing prevId db toDelete evs' with
  | nil =>
    cases h
    rfl
  | cons ev evs ih =>
    rw [writeLoop] at h
    obtain ⟨⟨db₁, toDelete₁, ev₁⟩, hone, h⟩ := bind_eq_ok.1 h
    obtain ⟨⟨db₂, evs₂⟩, hrec, heq⟩ := bind_eq_ok.1 h
    cases heq
    rw [List.map_cons, List.map_cons, ih hrec, writeOne_userData hone]

theorem leadTo_congr {adds : List AddEvent} {token : Nat} {evs evs' : List EventToWrite}
    (h : (evs'.map EventToWrite.userData).Perm (evs.map EventToWrite.userData)) :
    leadTo adds token evs' = leadTo adds token evs := by
  have hmap : ∀ l : List EventToWrite, leadTo adds token l = (l.map EventToWrite.userData).countP
      fun k => (adds[k]?).map AddEvent.token == some token := by
    intro l
    rw [List.countP_map]
    rfl
  rw [hmap, hmap]
  exact h.countP_eq _

/-- Every event of a batch that is not from a closed connection has one verdict. -/
theorem verdicts_runWriter {promise : Bool} {token : Nat} (P : WritePolicy) (txnFails : Option Err)
    (w : Writer) {msgs : List MsgWriter} (h : SamePromise promise token (openEvents msgs)) :
    verdicts promise token (runWriter S ord hex text P txnFails w msgs).2 =
      countAdds token (openEvents msgs) := by
  have hprep := verdicts_prepare P [] (openEvents msgs) h
  rw [List.nil_append, List.length_nil] at hprep
  rw [← hprep, runWriter]
  split
  · rename_i log hlog
    rw [hlog]
    rfl
  · rename_i evs log _ hlog
    rw [hlog]
    split
    · rw [verdicts_append, writeErrors, verdicts_reportAll h]
      congr 1
      exact leadTo_congr ((S.perm _ _).map _)
    · rename_i cache db evs' htxn
      rw [verdicts_append, verdicts_commit, writeResults, verdicts_reportAll h]
      congr 1
      apply leadTo_congr
      have hok : (writeEvents S ord hex text w.cache w.db evs).2 = .ok (db, evs') := by
        rw [(writeTxn_eq_ok S ord hex text htxn).2]
      rw [writeLoop_userData (writeEvents_eq_ok hok)]
      exact (S.perm _ _).map _

theorem token_report {msg : AddEvent} {success written : Bool} {promiseMsg message : String}
    {token : Nat} {reply : Reply}
    (h : .sent token reply ∈ msg.report success promiseMsg written message) :
    msg.token = token := by
  simp only [AddEvent.report, List.mem_append, List.mem_ite_nil_right, List.mem_singleton,
    LogEntry.sent.injEq] at h
  rcases h with ⟨-, rfl, -⟩ | ⟨rfl, -⟩ <;> rfl

theorem token_prepare {P : WritePolicy} {k : Nat} {adds : List AddEvent} {token : Nat}
    {reply : Reply} (h : .sent token reply ∈ (prepare P k adds).2) :
    ∃ a ∈ adds, a.token = token := by
  induction adds generalizing k with
  | nil => cases h
  | cons msg rest ih =>
    have hrest : .sent token reply ∈ (prepare P (k + 1) rest).2 →
        ∃ a ∈ msg :: rest, a.token = token := by
      intro h
      obtain ⟨a, ha, heq⟩ := ih h
      exact ⟨a, List.mem_cons_of_mem _ ha, heq⟩
    rw [prepare] at h
    split at h
    · exact hrest h
    · rcases List.mem_append.1 h with h | h
      · exact ⟨msg, List.mem_cons_self, token_report h⟩
      · exact hrest h

theorem token_reportAll {adds : List AddEvent} {verdict : EventToWrite → Bool × Bool × String}
    {evs : List EventToWrite} {token : Nat} {reply : Reply}
    (h : .sent token reply ∈ reportAll adds verdict evs) : ∃ a ∈ adds, a.token = token := by
  obtain ⟨ev, -, hmem⟩ := List.mem_flatMap.1 h
  split at hmem
  · cases hmem
  · rename_i msg hmsg
    exact ⟨msg, List.mem_of_getElem? hmsg, token_report hmem⟩

/-- The replies of a round of the writer are to events of the round. -/
theorem token_runWriter {P : WritePolicy} {txnFails : Option Err} {w : Writer}
    {msgs : List MsgWriter} {token : Nat} {reply : Reply}
    (h : .sent token reply ∈ (runWriter S ord hex text P txnFails w msgs).2) :
    ∃ a ∈ openEvents msgs, a.token = token := by
  have hprep : ∀ evs log, prepare P 0 (openEvents msgs) = (evs, log) → .sent token reply ∈ log →
      ∃ a ∈ openEvents msgs, a.token = token := by
    intro evs log hlog hmem
    have hmem' : .sent token reply ∈ (prepare P 0 (openEvents msgs)).2 := by
      rw [hlog]
      exact hmem
    exact token_prepare hmem'
  rw [runWriter] at h
  split at h
  · rename_i log hlog
    exact hprep _ _ hlog h
  · rename_i evs log _ hlog
    split at h
    · rcases List.mem_append.1 h with h | h
      · exact hprep _ _ hlog h
      · exact token_reportAll h
    · rcases List.mem_append.1 h with h | h
      · exact hprep _ _ hlog h
      · rcases List.mem_cons.1 h with h | h
        · cases h
        · exact token_reportAll h

/-- A positive reply before the transaction is the OK reply to an event that the plugin
shadow-rejects. -/
theorem positive_prepare (P : WritePolicy) (pre adds : List AddEvent) {token : Nat} {reply : Reply}
    (h : .sent token reply ∈ (prepare P pre.length adds).2) (hpos : reply.positive = true) :
    reply.isVerdict true = false ∧ ∃ (k : Nat) (a : AddEvent), (pre ++ adds)[k]? = some a ∧
      a.token = token ∧ (P.acceptEvent k a.jsonStr a.ipAddr).result = .shadowReject := by
  induction adds generalizing pre with
  | nil => cases h
  | cons msg rest ih =>
    have hrest := ih (pre ++ [msg])
    rw [List.append_assoc, List.singleton_append, List.length_append, List.length_singleton] at hrest
    rw [prepare] at h
    split at h
    · exact hrest h
    · rcases List.mem_append.1 h with h | h
      · simp only [AddEvent.refusal, AddEvent.report, List.mem_append, List.mem_ite_nil_right,
          List.mem_singleton, LogEntry.sent.injEq] at h
        rcases h with ⟨-, -, rfl⟩ | ⟨rfl, rfl⟩
        · cases hpos
        · refine ⟨rfl, pre.length, msg, by simp, rfl, ?_⟩
          exact beq_iff_eq.1 hpos
      · exact hrest h

/-- The answers after an exception are all negative. -/
theorem positive_writeErrors {adds : List AddEvent} {e : Err} {evs : List EventToWrite}
    {token : Nat} {reply : Reply} (h : .sent token reply ∈ writeErrors adds e evs) :
    reply.positive = false := by
  obtain ⟨ev, -, hmem⟩ := List.mem_flatMap.1 h
  split at hmem
  · cases hmem
  · simp only [AddEvent.report, List.mem_append, List.mem_ite_nil_right, List.mem_singleton,
      LogEntry.sent.injEq] at hmem
    rcases hmem with ⟨-, -, rfl⟩ | ⟨-, rfl⟩ <;> rfl

/-- In a round of the writer, a positive reply comes after the commit, unless the plugin has
shadow-rejected the event of a WebSocket. -/
theorem positive_runWriter (P : WritePolicy) (txnFails : Option Err) (w : Writer)
    {msgs : List MsgWriter} {before after : List LogEntry} {token : Nat} {reply : Reply}
    (h : (runWriter S ord hex text P txnFails w msgs).2 = before ++ .sent token reply :: after)
    (hpos : reply.positive = true) :
    .commit ∈ before ∨ (reply.isVerdict true = false ∧
      ∃ (k : Nat) (a : AddEvent), (openEvents msgs)[k]? = some a ∧ a.token = token ∧
        (P.acceptEvent k a.jsonStr a.ipAddr).result = .shadowReject) := by
  have hprep : ∀ log, (prepare P 0 (openEvents msgs)).2 = log → .sent token reply ∈ log →
      reply.isVerdict true = false ∧ ∃ (k : Nat) (a : AddEvent), (openEvents msgs)[k]? = some a ∧
        a.token = token ∧ (P.acceptEvent k a.jsonStr a.ipAddr).result = .shadowReject := by
    rintro log rfl hmem
    exact positive_prepare P [] (openEvents msgs) hmem hpos
  rw [runWriter] at h
  split at h
  · rename_i log hlog
    right
    exact hprep _ (by rw [hlog]) (by rw [h]; simp)
  · rename_i evs log _ hlog
    split at h
    · right
      apply hprep log (by rw [hlog])
      -- the reply is not one of the error replies
      have hmem := List.mem_append_right before (List.mem_cons_self (a := LogEntry.sent token reply)
        (l := after))
      rw [← h] at hmem
      rcases List.mem_append.1 hmem with hmem | hmem
      · exact hmem
      · rw [positive_writeErrors hmem] at hpos
        cases hpos
    · rcases List.append_eq_append_iff.1 h with ⟨pre, rfl, hrest⟩ | ⟨post, rfl, hrest⟩
      · left
        cases pre with
        | nil => cases hrest
        | cons entry pre =>
          obtain ⟨rfl, -⟩ := List.cons.inj hrest
          simp
      · right
        apply hprep _ (by rw [hlog])
        cases post with
        | nil => cases hrest
        | cons entry post =>
          obtain ⟨rfl, -⟩ := List.cons.inj hrest
          simp

end Round

/-! ## The ingester -/

/-- The event comes from the message. -/
structure AddEvent.From (a : AddEvent) (msg : ClientMessage) : Prop where
  token : a.token = msg.token
  promise : a.resultPromise = msg.resultPromise
  connId : a.connId = msg.connId

/-- A message comes from a WebSocket, or with a promise from the HTTP server. -/
def ClientMessage.Sourced (msg : ClientMessage) : Prop :=
  (msg.connId ≠ 0 ∧ msg.resultPromise = false) ∨ (msg.connId = 0 ∧ msg.resultPromise = true)

theorem countP_answer {msg : ClientMessage} (h : msg.Sourced) (result : ProcessResult)
    (eventIdHex : Bytes) :
    (replyTo msg result eventIdHex).countP (Reply.isVerdict msg.resultPromise) = 1 := by
  rw [replyTo]
  rcases h with ⟨hconn, hp⟩ | ⟨-, hp⟩
  · simp [hp, hconn, Reply.isVerdict]
  · simp [hp, Reply.isVerdict]

theorem countP_eventError {msg : ClientMessage} (h : msg.Sourced) (e : Err) :
    (eventError msg e).countP (Reply.isVerdict msg.resultPromise) = 1 := by
  rw [eventError]
  rcases h with ⟨hconn, hp⟩ | ⟨-, hp⟩
  · simp [hp, hconn, Reply.isVerdict]
  · simp [hp, Reply.isVerdict]

/-- The ingester settles an event, or hands it to the writer. -/
theorem ingesterEvent_settles {msg : ClientMessage} (h : msg.Sourced) (V : Verifier)
    (cfg : IngesterConfig) (existing : Bytes → Except Err Bool) (event : Json) :
    (ingesterEvent V cfg existing msg event).1.countP (Reply.isVerdict msg.resultPromise) +
        (ingesterEvent V cfg existing msg event).2.length = 1 ∧
      ∀ a ∈ (ingesterEvent V cfg existing msg event).2, a.From msg := by
  rw [ingesterEvent]
  split
  · rename_i e _
    exact ⟨countP_eventError h e, nofun⟩
  · rename_i handled hok
    rw [ingesterProcessEvent] at hok
    split at hok
    · cases hok
      exact ⟨countP_answer h _ _, nofun⟩
    · simp only at hok
      split at hok
      · cases hok
        exact ⟨countP_answer h _ _, nofun⟩
      · split at hok
        · cases hok
        · cases hok
          exact ⟨countP_answer h _ _, nofun⟩
        · cases hok
          refine ⟨rfl, ?_⟩
          intro a ha
          rw [List.mem_singleton] at ha
          subst ha
          exact ⟨rfl, rfl, rfl⟩

/-- Whatever the command, what is handed to the writer comes from the message. -/
theorem from_ingesterClientMessage (V : Verifier) (cfg : IngesterConfig)
    (existing : Bytes → Except Err Bool) {msg : ClientMessage} (h : msg.Sourced) {a : AddEvent}
    (ha : a ∈ (ingesterClientMessage V cfg existing msg).2) : a.From msg := by
  rw [ingesterClientMessage] at ha
  split at ha
  · rename_i handled hok
    rw [ingesterPayload] at hok
    split at hok
    · obtain ⟨payload, -, hok⟩ := bind_eq_ok.1 hok
      obtain ⟨arr, -, hok⟩ := bind_eq_ok.1 hok
      unfold ingesterCommand at hok
      split at hok
      · obtain ⟨cmd, -, hok⟩ := bind_eq_ok.1 hok
        split at hok
        · cases hok
          exact (ingesterEvent_settles h V cfg existing _).2 a ha
        split at hok
        · cases hok
          cases ha
        split at hok
        · split at hok
          · cases hok
            cases ha
          · cases hok
        · cases hok
      · cases hok
    split at hok
    · cases hok
      cases ha
    · cases hok
  · split at ha <;> cases ha

end Strfry
