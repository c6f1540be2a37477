import Strfry.Verdicts

/-!
# One submission

A single event on its way through the ingester and the writer of a relay that is busy with nothing
else, whether it comes from a WebSocket or from the HTTP server. `SubmissionOutcome` lists the ways
in which it can end, each with its reason, the answer and the database afterwards.
-/

set_option autoImplicit false

namespace Strfry

open Lib

/-- The libraries and settings of a relay, and an exception of the database in its next
transaction. -/
structure RelayEnv where
  V : Verifier
  ingester : IngesterConfig := {}
  S : StdSort
  ord : IndexOrder
  policy : WritePolicy
  txnFails : Option Err := none

/-- A message through the ingester, and what it leads to through the writer. -/
def submit (E : RelayEnv) (w : Writer) (msg : ClientMessage) : Writer × List LogEntry :=
  let handled := ingesterClientMessage E.V E.ingester
    (fun id => .ok (w.db.lookupEventById E.ord id).isSome) msg
  let r := runWriter E.S E.ord E.V.hex E.V.text E.policy E.txnFails w (handled.2.map .addEvent)
  (r.1, handled.1.map (.sent msg.token) ++ r.2)

/-- The first result that is set on the promise. -/
def promiseResult (log : List LogEntry) : Option ProcessResult :=
  log.findSome? fun
    | .sent _ (.setValue result) => some result
    | _ => none

/-- The boolean of the first OK reply. -/
def okResult (log : List LogEntry) : Option Bool :=
  log.findSome? fun
    | .sent _ (.okResponse _ _ written _) => some written
    | _ => none

/-- The boolean that the client gets. -/
def answered (promise : Bool) (log : List LogEntry) : Option Bool :=
  if promise then (promiseResult log).map ProcessResult.success else okResult log

/-- What can become of an event: the answer, and the database afterwards. -/
inductive SubmissionOutcome (E : RelayEnv) (w : Writer) (msg : ClientMessage) (event : Json) :
    Bool → Db → Prop
  /-- It is not valid, or its author is not on the whitelist. -/
  | invalid
      (why : ∀ packed jsonStr, parseAndVerifyEvent E.V true true event = .ok (packed, jsonStr) →
        whitelistRefusal E.ingester packed ≠ none) :
      SubmissionOutcome E w msg event false w.db
  /-- It is stored already. -/
  | duplicate {packed : PackedEvent} {jsonStr : Bytes}
      (valid : parseAndVerifyEvent E.V true true event = .ok (packed, jsonStr))
      (listed : whitelistRefusal E.ingester packed = none) (stored : w.db.HasId packed.id) :
      SubmissionOutcome E w msg event true w.db
  /-- The plugin does not accept it. -/
  | policy {packed : PackedEvent} {jsonStr : Bytes}
      (valid : parseAndVerifyEvent E.V true true event = .ok (packed, jsonStr))
      (listed : whitelistRefusal E.ingester packed = none) (fresh : ¬ w.db.HasId packed.id)
      (refused : (E.policy.acceptEvent 0 jsonStr msg.ipAddr).result ≠ .accept) :
      SubmissionOutcome E w msg event (!msg.resultPromise &&
        (E.policy.acceptEvent 0 jsonStr msg.ipAddr).result == .shadowReject) w.db
  /-- The transaction fails. -/
  | failed {packed : PackedEvent} {jsonStr : Bytes}
      (valid : parseAndVerifyEvent E.V true true event = .ok (packed, jsonStr))
      (listed : whitelistRefusal E.ingester packed = none) (fresh : ¬ w.db.HasId packed.id)
      (accepted : (E.policy.acceptEvent 0 jsonStr msg.ipAddr).result = .accept)
      (why : E.txnFails ≠ none ∨ (w.cache.freshen E.V.hex E.V.text w.db).2 ≠ .ok ()) :
      SubmissionOutcome E w msg event false w.db
  /-- It is deleted, or replaced by a stored event. -/
  | refused {packed : PackedEvent} {jsonStr : Bytes}
      (valid : parseAndVerifyEvent E.V true true event = .ok (packed, jsonStr))
      (listed : whitelistRefusal E.ingester packed = none)
      (accepted : (E.policy.acceptEvent 0 jsonStr msg.ipAddr).result = .accept)
      (refuses : w.db.Refuses packed) : SubmissionOutcome E w msg event false w.db
  /-- It is written. -/
  | written {packed : PackedEvent} {jsonStr : Bytes} {db' : Db}
      (valid : parseAndVerifyEvent E.V true true event = .ok (packed, jsonStr))
      (listed : whitelistRefusal E.ingester packed = none) (fresh : ¬ w.db.HasId packed.id)
      (accepted : (E.policy.acceptEvent 0 jsonStr msg.ipAddr).result = .accept)
      (txn : E.txnFails = none) (freshens : (w.cache.freshen E.V.hex E.V.text w.db).2 = .ok ())
      (welcome : ¬ w.db.Refuses packed)
      (db'_eq : (writeEvents E.S E.ord E.V.hex E.V.text w.cache w.db
        [{ packed := packed, jsonStr := jsonStr }]).2.map Prod.fst = .ok db')
      (stored : db'.HasId packed.id) (inv : StoreInv db'.toStore) :
      SubmissionOutcome E w msg event true db'

section Spec

variable {E : RelayEnv} {w : Writer} {msg : ClientMessage} {event : Json}

theorem answered_answer (h : msg.Sourced) (result : ProcessResult) (eventIdHex : Bytes)
    (log : List LogEntry) :
    answered msg.resultPromise ((replyTo msg result eventIdHex).map (.sent msg.token) ++ log) =
      some result.success := by
  rw [answered, replyTo]
  rcases h with ⟨hconn, hp⟩ | ⟨-, hp⟩
  · simp [hp, hconn, okResult]
  · simp [hp, promiseResult]

theorem answered_report {a : AddEvent} (ha : a.From msg) (success : Bool) (promiseMsg : String)
    (written : Bool) (message : String) :
    answered msg.resultPromise (a.report success promiseMsg written message) =
      some (if msg.resultPromise then success else written) := by
  rw [AddEvent.report, ha.promise, answered]
  cases msg.resultPromise with
  | true => simp [promiseResult]
  | false => simp [okResult]

/-- A round of the writer with one event that the plugin refuses. -/
theorem runWriter_refused {S : StdSort} {ord : IndexOrder} {hex : HexCodec} {text : JsonText}
    {P : WritePolicy} {txnFails : Option Err} {a : AddEvent}
    (h : (P.acceptEvent 0 a.jsonStr a.ipAddr).result ≠ .accept) :
    runWriter S ord hex text P txnFails w [.addEvent a] =
      (w, a.refusal (P.acceptEvent 0 a.jsonStr a.ipAddr)) := by
  have hprep : prepare P 0 (openEvents [.addEvent a]) =
      ([], a.refusal (P.acceptEvent 0 a.jsonStr a.ipAddr)) := by
    show prepare P 0 [a] = _
    rw [prepare, if_neg h, prepare, List.append_nil]
  rw [runWriter, hprep]

/-- A round with one event that it accepts. -/
theorem runWriter_accepted {S : StdSort} {ord : IndexOrder} {hex : HexCodec} {text : JsonText}
    {P : WritePolicy} {txnFails : Option Err} {a : AddEvent}
    (h : (P.acceptEvent 0 a.jsonStr a.ipAddr).result = .accept) :
    runWriter S ord hex text P txnFails w [.addEvent a] =
      match writeTxn S ord hex text txnFails w.cache w.db
        [{ packed := a.packed, jsonStr := a.jsonStr }] with
      | (cache, .error e) =>
        ({ w with cache := cache }, writeErrors [a] e [{ packed := a.packed, jsonStr := a.jsonStr }])
      | (cache, .ok (db, evs')) => (⟨cache, db⟩, .commit :: writeResults [a] evs') := by
  have hprep : prepare P 0 (openEvents [.addEvent a]) =
      ([{ packed := a.packed, jsonStr := a.jsonStr }], []) := by
    show prepare P 0 [a] = _
    rw [prepare, if_pos h, prepare]
  have hsort : S.sort EventToWrite.before [{ packed := a.packed, jsonStr := a.jsonStr }] =
      [{ packed := a.packed, jsonStr := a.jsonStr }] :=
    List.perm_singleton.1 (S.perm _ _)
  rw [runWriter, hprep]
  rcases hres : writeTxn S ord hex text txnFails w.cache w.db
    [{ packed := a.packed, jsonStr := a.jsonStr }] with ⟨cache, res⟩
  cases res with
  | error e =>
    simp only [List.nil_append, hres, hsort]
    rfl
  | ok r =>
    simp only [List.nil_append, hres]
    rfl

/-- The transaction for one event that is not stored. -/
theorem writeEvents_singleton (S : StdSort) (ord : IndexOrder) {hex : HexCodec} {text : JsonText}
    {cache : NegentropyFilterCache} {db : Db} (hinv : StoreInv db.toStore) {packed : PackedEvent}
    (hw : WellPacked packed) (hfresh : ¬ db.HasId packed.id) (jsonStr : Bytes)
    (hok : (cache.freshen hex text db).2 = .ok ()) :
    ∃ db' ev', (writeEvents S ord hex text cache db [{ packed := packed, jsonStr := jsonStr }]).2 =
        .ok (db', [ev']) ∧ ev'.userData = 0 ∧ StoreInv db'.toStore ∧
      ((db.Refuses packed ∧ db' = db ∧ (ev'.status = .replaced ∨ ev'.status = .deleted)) ∨
        (¬ db.Refuses packed ∧ db'.HasId packed.id ∧ ev'.status = .written)) := by
  have hsort : S.sort EventToWrite.before [{ packed := packed, jsonStr := jsonStr }] =
      [{ packed := packed, jsonStr := jsonStr }] :=
    List.perm_singleton.1 (S.perm _ _)
  have hspec : ∃ db' ev', writeOne ord (cache.current hex text db) none db []
      { packed := packed, jsonStr := jsonStr } = .ok (db', [], ev') ∧
      WriteOutcome (cache.current hex text db) none db { packed := packed, jsonStr := jsonStr } db'
        ev' := writeOne_spec ord _ none hinv hw rfl
  obtain ⟨db', ev', hone, hout⟩ := hspec
  have hwrite : (writeEvents S ord hex text cache db
      [{ packed := packed, jsonStr := jsonStr }]).2 = .ok (db', [ev']) := by
    unfold writeEvents
    split
    · rename_i cache' e heq
      rw [heq] at hok
      cases hok
    · rename_i cache' heq
      have hcur : cache.current hex text db = cache'.filters := by
        rw [NegentropyFilterCache.current, heq]
      rw [hcur] at hone
      rw [hsort]
      simp only [writeLoop, hone, bind, Except.bind]
  refine ⟨db', ev', hwrite, ?_, hout.storeInv hinv hw, ?_⟩
  · cases hout <;> rfl
  · cases hout with
    | duplicate hdup =>
      rcases hdup with hdup | hdup
      · exact absurd hdup hfresh
      · cases hdup
    | deleted hno hdel => exact Or.inl ⟨⟨hfresh, Or.inl hdel⟩, rfl, Or.inr rfl⟩
    | replaced r hno hr hsame hb =>
      exact Or.inl ⟨⟨hfresh, Or.inr ⟨r, hr, hsame, hb⟩⟩, rfl, Or.inl rfl⟩
    | written toDelete hno hnodel hbeats htargets =>
      have hout : WriteOutcome (cache.current hex text db) none db _ _ _ :=
        .written toDelete hno hnodel hbeats htargets
      refine Or.inr ⟨?_, ?_, rfl⟩
      · rintro ⟨-, ⟨r, hr, hdel⟩ | ⟨r, hr, hsame, hb⟩⟩
        · exact hnodel r hr hdel
        · rw [hbeats r hr hsame] at hb
          cases hb
      · have hprev : (none : Option Bytes) = some packed.id → db.HasId packed.id := by rintro ⟨⟩
        rcases hout.hasId_or_refuses hprev with hid | ⟨href, -⟩
        · exact hid
        · obtain ⟨-, ⟨r, hr, hdel⟩ | ⟨r, hr, hsame, hb⟩⟩ := href
          · exact absurd hdel (hnodel r hr)
          · rw [hbeats r hr hsame] at hb
            cases hb

/-- The writer's part of a submission. -/
theorem runWriter_spec (hinv : StoreInv w.db.toStore) {a : AddEvent} (ha : a.From msg)
    (hip : a.ipAddr = msg.ipAddr)
    (hvalid : parseAndVerifyEvent E.V true true event = .ok (a.packed, a.jsonStr))
    (hlisted : whitelistRefusal E.ingester a.packed = none) (hfresh : ¬ w.db.HasId a.packed.id) :
    ∃ b, answered msg.resultPromise (runWriter E.S E.ord E.V.hex E.V.text E.policy E.txnFails w
        [.addEvent a]).2 = some b ∧
      SubmissionOutcome E w msg event b (runWriter E.S E.ord E.V.hex E.V.text E.policy E.txnFails w
        [.addEvent a]).1.db := by
  have hw : WellPacked a.packed := wellPacked_of_fromJson (fromJson_of_parseAndVerifyEvent hvalid)
  by_cases hacc : (E.policy.acceptEvent 0 a.jsonStr a.ipAddr).result = .accept
  · rw [runWriter_accepted hacc]
    rw [hip] at hacc
    split
    · -- the transaction has thrown
      rename_i cache e htxn
      refine ⟨false, ?_, .failed hvalid hlisted hfresh hacc ?_⟩
      · show answered _ (a.report false _ false _ ++ []) = _
        rw [List.append_nil, answered_report ha, ite_self]
      · by_cases hfails : E.txnFails = none
        · right
          intro hok
          obtain ⟨db', ev', hwrite, -⟩ := writeEvents_singleton E.S E.ord hinv hw hfresh a.jsonStr hok
          rw [hfails, writeTxn_none] at htxn
          rw [htxn] at hwrite
          cases hwrite
        · exact Or.inl hfails
    · -- it has been committed
      rename_i cache db evs' htxn
      obtain ⟨hfails, hwrite⟩ := writeTxn_eq_ok _ _ _ _ htxn
      have hok : (w.cache.freshen E.V.hex E.V.text w.db).2 = .ok () := by
        unfold writeEvents at hwrite
        split at hwrite
        · cases hwrite
        · rename_i heq
          rw [heq]
      obtain ⟨db', ev', hwrite', huser, hinv', hcase⟩ :=
        writeEvents_singleton E.S E.ord hinv hw hfresh a.jsonStr hok
      rw [hwrite] at hwrite'
      cases hwrite'
      have hlog : answered msg.resultPromise (.commit :: writeResults [a] [ev']) =
          some (if msg.resultPromise then ev'.status.verdict.2.1 else ev'.status.verdict.1) := by
        have hres : writeResults [a] [ev'] = a.report ev'.status.verdict.2.1 ev'.status.verdict.2.2
            ev'.status.verdict.1 ev'.status.verdict.2.2 := by
          rw [writeResults, reportAll, List.flatMap_singleton, huser]
          rfl
        rw [hres]
        exact answered_report ha _ _ _ _
      rcases hcase with ⟨href, rfl, hs⟩ | ⟨hwelcome, hstored, hs⟩
      · refine ⟨false, ?_, .refused hvalid hlisted hacc href⟩
        rw [hlog]
        rcases hs with hs | hs <;> rw [hs] <;> cases msg.resultPromise <;> rfl
      · refine ⟨true, ?_, .written hvalid hlisted hfresh hacc hfails hok hwelcome ?_ hstored hinv'⟩
        · rw [hlog, hs]
          cases msg.resultPromise <;> rfl
        · rw [hwrite]
          rfl
  · rw [runWriter_refused hacc]
    refine ⟨_, ?_, .policy hvalid hlisted hfresh (hip ▸ hacc)⟩
    rw [AddEvent.refusal, answered_report ha, hip]
    cases msg.resultPromise <;> rfl

/-- A submission ends in one of the six ways. -/
theorem submit_spec (hsrc : msg.Sourced) (hinv : StoreInv w.db.toStore)
    (hevent : IsEvent E.V.text msg event) :
    ∃ b, answered msg.resultPromise (submit E w msg).2 = some b ∧
      SubmissionOutcome E w msg event b (submit E w msg).1.db := by
  have hempty : runWriter E.S E.ord E.V.hex E.V.text E.policy E.txnFails w [] = (w, []) := rfl
  rw [submit, ingesterClientMessage_event hevent, ingesterEvent]
  cases hvalid : parseAndVerifyEvent E.V true true event with
  | error e =>
    simp only [ingesterProcessEvent, hvalid, List.map_nil, hempty]
    refine ⟨false, answered_answer hsrc _ _ _, .invalid ?_⟩
    intro packed jsonStr hok
    rw [hvalid] at hok
    cases hok
  | ok v =>
    obtain ⟨packed, jsonStr⟩ := v
    cases hlisted : whitelistRefusal E.ingester packed with
    | some reason =>
      simp only [ingesterProcessEvent, hvalid, hlisted, List.map_nil, hempty]
      refine ⟨false, answered_answer hsrc _ _ _, .invalid ?_⟩
      intro packed' jsonStr' hok
      rw [hvalid] at hok
      cases hok
      rw [hlisted]
      exact Option.some_ne_none reason
    | none =>
      have hstored : (w.db.lookupEventById E.ord packed.id).isSome = true ↔
          w.db.HasId packed.id := Store.lookupEventById_isSome_iff E.ord packed.id_size
      cases hlook : (w.db.lookupEventById E.ord packed.id).isSome with
      | true =>
        simp only [ingesterProcessEvent, hvalid, hlisted, hlook, List.map_nil, hempty]
        exact ⟨true, answered_answer hsrc _ _ _, .duplicate hvalid hlisted (hstored.1 hlook)⟩
      | false =>
        have hfresh : ¬ w.db.HasId packed.id := by
          intro hid
          rw [hstored.2 hid] at hlook
          cases hlook
        simp only [ingesterProcessEvent, hvalid, hlisted, hlook, List.map_nil, List.nil_append,
          List.map_cons]
        exact runWriter_spec hinv ⟨rfl, rfl, rfl⟩ rfl hvalid hlisted hfresh

/-! ## Outcomes by their reasons -/

namespace SubmissionOutcome

variable {b : Bool} {db' : Db} {packed : PackedEvent} {jsonStr : Bytes}

end SubmissionOutcome

end Spec

end Strfry
