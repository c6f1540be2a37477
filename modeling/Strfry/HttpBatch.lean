import Strfry.HttpServer

/-!
# Batches over HTTP

`handleEventPostBatch` hands the events of a batch to the processor one after the other, each of
which is committed before the next is looked at. When one is not accepted, the handler answers with
an error, and the events before it stay.
-/

set_option autoImplicit false

namespace Strfry

open Lib

/-- The event is valid, and its id is stored. -/
def StoredEvent (V : Verifier) (db : Db) (event : Json) : Prop :=
  ∃ v packed jsonStr, V.text.fromString (V.text.toString event) = .ok v ∧
    parseAndVerifyEvent V true true v = .ok (packed, jsonStr) ∧ db.HasId packed.id

/-- The JSON library prints the event of a batch, and the message made from it, so that it reads
them back. -/
def PrintsEvent (text : JsonText) (event : Json) : Prop :=
  ∀ v, text.fromString (text.toString event) = .ok v → ReadsBack text v

section Events

variable {E : RelayEnv} {relay : Writer} {event : Json}

/-- A submission that is written raises the last key. -/
theorem lastKey_lt_of_written {db' : Db} {packed : PackedEvent} {jsonStr : Bytes} (hinv : StoreInv relay.db.toStore)
    (valid : parseAndVerifyEvent E.V true true event = .ok (packed, jsonStr))
    (fresh : ¬ relay.db.HasId packed.id)
    (hwrite : (writeEvents E.S E.ord E.V.hex E.V.text relay.cache relay.db
      [{ packed := packed, jsonStr := jsonStr }]).2.map Prod.fst = .ok db')
    (stored : db'.HasId packed.id) : relay.db.event.lastKey < db'.event.lastKey := by
  obtain ⟨⟨db₁, evs'⟩, hok, rfl⟩ := map_eq_ok.1 hwrite
  have hw : Writable [{ packed := packed, jsonStr := jsonStr }] := by
    intro ev hev
    rw [List.mem_singleton] at hev
    subst hev
    exact ⟨rfl, wellPacked_of_fromJson (fromJson_of_parseAndVerifyEvent valid)⟩
  obtain ⟨r, hr, hid⟩ := stored
  have hnew : r ∉ relay.db.event.rows := fun hmem => fresh ⟨r, hmem, hid⟩
  exact ((writeEvents_run hinv hw hok).gt_lastKey hr hnew).trans_le (Table.le_lastKey hr)

/-- The three ways in which the processor leaves a relay. -/
inductive EventEffect (E : RelayEnv) (relay : Writer) (event : Json) (accepted : Bool)
    (relay' : Writer) : Prop
  | rejected (refused : accepted = false) (same : relay'.db = relay.db)
  | duplicate (ok : accepted = true) (stored : StoredEvent E.V relay.db event)
      (same : relay'.db = relay.db)
  | written (ok : accepted = true) (fresh : ¬ StoredEvent E.V relay.db event)
      (lt : relay.db.event.lastKey < relay'.db.event.lastKey) (inv : StoreInv relay'.db.toStore)

theorem EventEffect.storeInv {accepted : Bool} {relay' : Writer}
    (h : EventEffect E relay event accepted relay') (hinv : StoreInv relay.db.toStore) :
    StoreInv relay'.db.toStore := by
  cases h with
  | rejected _ same | duplicate _ _ same => exact same ▸ hinv
  | written _ _ _ inv => exact inv

theorem eventEffect_of_outcome (hinv : StoreInv relay.db.toStore) {v : Json}
    (hread : E.V.text.fromString (E.V.text.toString event) = .ok v) {b : Bool} {relay' : Writer}
    (h : SubmissionOutcome E relay (httpMessage E.V.text v) v b relay'.db) :
    EventEffect E relay event b relay' := by
  generalize hdb : relay'.db = db' at h
  cases h with
  | invalid | failed | refused => exact .rejected rfl hdb
  | policy => exact .rejected rfl hdb
  | duplicate valid listed stored => exact .duplicate rfl ⟨v, _, _, hread, valid, stored⟩ hdb
  | written valid listed fresh accepted txn freshens welcome heq stored inv =>
    subst hdb
    refine .written rfl ?_ (lastKey_lt_of_written hinv valid fresh heq stored) inv
    rintro ⟨v', packed', jsonStr', hread', valid', stored'⟩
    rw [hread] at hread'
    cases hread'
    rw [valid] at valid'
    cases valid'
    exact fresh stored'

/-- What the processor does with an event, and that a wait that runs out of time changes the answer
only. -/
theorem eventProcessor_effect (hinv : StoreInv relay.db.toStore)
    (hprints : PrintsEvent E.V.text event) (timeout : Bool) :
    EventEffect E relay event
        (eventProcessor E false relay (E.V.text.toString event)).accepted
        (eventProcessor E timeout relay (E.V.text.toString event)).relay ∧
      (eventProcessor E timeout relay (E.V.text.toString event)).accepted =
        (!timeout && (eventProcessor E false relay (E.V.text.toString event)).accepted) := by
  cases hread : E.V.text.fromString (E.V.text.toString event) with
  | error e =>
    simp only [eventProcessor, hread, Bool.and_false]
    exact ⟨.rejected rfl rfl, trivial⟩
  | ok v =>
    by_cases hobj : v.isObject = true
    · cases hreq : requiredFields v with
      | error e =>
        simp only [eventProcessor, hread, hobj, hreq, Bool.not_true, Bool.false_eq_true, if_false,
          Bool.and_false]
        exact ⟨.rejected rfl rfl, trivial⟩
      | ok eventId =>
        obtain ⟨b, hb, hout⟩ := submit_spec (w := relay) (sourced_httpMessage E.V.text v) hinv
          (isEvent_httpMessage (hprints v hread))
        obtain ⟨hrelay, hacc⟩ := eventProcessor_eq hread hobj hreq timeout hb
        obtain ⟨-, hacc'⟩ := eventProcessor_eq hread hobj hreq false hb
        rw [hacc, hacc', hrelay]
        exact ⟨eventEffect_of_outcome hinv hread hout, rfl⟩
    · simp only [eventProcessor, hread, hobj, Bool.not_false, if_true, Bool.and_false]
      exact ⟨.rejected rfl rfl, trivial⟩

/-- For an event with the required fields the handler adds its index to the error, and nothing
else. -/
theorem batchEvent_eq (E : RelayEnv) (relay : Writer) (hobj : event.isObject = true) (hvalid : validStructure event = true)
    (timeout : Bool) (i : Nat) :
    (batchEvent E timeout relay i event).accepted =
        (eventProcessor E timeout relay (E.V.text.toString event)).accepted ∧
      (batchEvent E timeout relay i event).relay =
        (eventProcessor E timeout relay (E.V.text.toString event)).relay := by
  simp only [batchEvent, hobj, hvalid, Bool.not_true, Bool.false_eq_true, if_false]
  split
  · exact ⟨rfl, rfl⟩
  · exact ⟨rfl, rfl⟩

theorem batchEvent_effect (hinv : StoreInv relay.db.toStore)
    (hprints : PrintsEvent E.V.text event) (timeout : Bool) (i : Nat) :
    EventEffect E relay event (batchEvent E false relay i event).accepted
        (batchEvent E timeout relay i event).relay ∧
      (batchEvent E timeout relay i event).accepted =
        (!timeout && (batchEvent E false relay i event).accepted) := by
  have hspec := eventProcessor_effect hinv hprints timeout
  by_cases hobj : event.isObject = true
  · by_cases hvalid : validStructure event = true
    · obtain ⟨hacc, hrelay⟩ := batchEvent_eq E relay hobj hvalid timeout i
      obtain ⟨hacc', -⟩ := batchEvent_eq E relay hobj hvalid false i
      rw [hacc, hacc', hrelay]
      exact hspec
    · simp only [batchEvent, hobj, hvalid, Bool.not_true, Bool.not_false, Bool.false_eq_true,
        if_false, if_true, Bool.and_false]
      exact ⟨.rejected rfl rfl, trivial⟩
  · simp only [batchEvent, hobj, Bool.not_false, if_true, Bool.and_false]
    exact ⟨.rejected rfl rfl, trivial⟩

end Events

/-! ## The loop -/

section Loop

variable {env : Nat → RelayEnv × Bool}

/-- The relay after a run of events that are all accepted. -/
def acceptsAll (env : Nat → RelayEnv × Bool) : Nat → Writer → List Json → Option Writer
  | _, relay, [] => some relay
  | i, relay, event :: rest =>
    let r := batchEvent (env i).1 (env i).2 relay i event
    if r.accepted then acceptsAll env (i + 1) r.relay rest else none

/-- The events from index `i` on are all stored. -/
def AllStored (env : Nat → RelayEnv × Bool) (i : Nat) (db : Db) (events : List Json) : Prop :=
  ∀ k event, events[k]? = some event → StoredEvent (env (i + k)).1.V db event

theorem allStored_cons {i : Nat} {db : Db} {event : Json} {rest : List Json} :
    AllStored env i db (event :: rest) ↔
      StoredEvent (env i).1.V db event ∧ AllStored env (i + 1) db rest := by
  constructor
  · intro h
    refine ⟨h 0 event rfl, fun k e hk => ?_⟩
    have hk' := h (k + 1) e (by simpa using hk)
    rwa [show i + (k + 1) = i + 1 + k by omega] at hk'
  · rintro ⟨h, hrest⟩ k e hk
    cases k with
    | zero =>
      cases hk
      exact h
    | succ k =>
      rw [show i + (k + 1) = i + 1 + k by omega]
      exact hrest k e (by simpa using hk)

/-- The JSON library prints every event of the list so that it reads it back. -/
def PrintsEvents (env : Nat → RelayEnv × Bool) (i : Nat) (events : List Json) : Prop :=
  ∀ k event, events[k]? = some event → PrintsEvent (env (i + k)).1.V.text event

theorem PrintsEvents.head {i : Nat} {event : Json} {rest : List Json}
    (h : PrintsEvents env i (event :: rest)) : PrintsEvent (env i).1.V.text event :=
  h 0 event rfl

theorem PrintsEvents.tail {i : Nat} {event : Json} {rest : List Json}
    (h : PrintsEvents env i (event :: rest)) : PrintsEvents env (i + 1) rest := by
  intro k e hk
  have hk' := h (k + 1) e (by simpa using hk)
  rwa [show i + (k + 1) = i + 1 + k by omega] at hk'

theorem PrintsEvents.append {i : Nat} {pre rest : List Json} {event : Json}
    (h : PrintsEvents env i (pre ++ event :: rest)) :
    PrintsEvents env i pre ∧ PrintsEvent (env (i + pre.length)).1.V.text event := by
  refine ⟨fun k e hk => h k e ?_, h pre.length event (by simp)⟩
  rw [List.getElem?_append_left (List.getElem?_eq_some_iff.1 hk).1]
  exact hk

/-- An event that is not accepted cuts the batch short. -/
theorem acceptsAll_cut {i : Nat} {relay relay' : Writer} {pre rest : List Json} {event : Json}
    (h : acceptsAll env i relay pre = some relay')
    (hrej : (batchEvent (env (i + pre.length)).1 (env (i + pre.length)).2 relay' (i + pre.length)
      event).accepted = false) : acceptsAll env i relay (pre ++ event :: rest) = none := by
  induction pre generalizing i relay with
  | nil =>
    cases h
    rw [List.length_nil, Nat.add_zero] at hrej
    rw [List.nil_append, acceptsAll, hrej]
    rfl
  | cons e pre ih =>
    rw [List.length_cons, show i + (pre.length + 1) = i + 1 + pre.length by omega] at hrej
    rw [acceptsAll] at h
    rw [List.cons_append, acceptsAll]
    split at h
    · rw [if_pos ‹_›]
      exact ih h hrej
    · cases h

/-- A run of events that are all accepted leaves the store as it is if all of them were stored, and
raises its last key otherwise. -/
theorem acceptsAll_spec {events : List Json} {i : Nat} {relay relay' : Writer}
    (hinv : StoreInv relay.db.toStore) (hprints : PrintsEvents env i events)
    (h : acceptsAll env i relay events = some relay') :
    StoreInv relay'.db.toStore ∧
      ((AllStored env i relay.db events ∧ relay'.db = relay.db) ∨
        (¬ AllStored env i relay.db events ∧
          relay.db.event.lastKey < relay'.db.event.lastKey)) := by
  induction events generalizing i relay with
  | nil =>
    cases h
    exact ⟨hinv, Or.inl ⟨fun k e hk => by simp at hk, rfl⟩⟩
  | cons event rest ih =>
    rw [acceptsAll] at h
    obtain ⟨heff, hacc⟩ := batchEvent_effect hinv hprints.head (env i).2 i
    split at h
    · rename_i hok
      rw [hacc, Bool.and_eq_true] at hok
      obtain ⟨hinv', hcase⟩ := ih (heff.storeInv hinv) hprints.tail h
      refine ⟨hinv', ?_⟩
      rw [allStored_cons]
      cases heff with
      | rejected refused =>
        rw [hok.2] at refused
        cases refused
      | duplicate _ stored same =>
        rw [same] at hcase
        rcases hcase with ⟨hall, heq⟩ | ⟨hnot, hlt⟩
        · exact Or.inl ⟨⟨stored, hall⟩, heq⟩
        · exact Or.inr ⟨fun hall => hnot hall.2, hlt⟩
      | written _ fresh lt =>
        refine Or.inr ⟨fun hall => fresh hall.1, ?_⟩
        rcases hcase with ⟨-, heq⟩ | ⟨-, hlt⟩
        · rw [heq]
          exact lt
        · exact lt.trans hlt
    · cases h

/-- The event is written, but the wait for the result runs out of time. -/
def WrittenLate (E : RelayEnv) (timeout : Bool) (relay : Writer) (i : Nat) (event : Json) : Prop :=
  timeout = true ∧ (batchEvent E false relay i event).accepted = true ∧
    ¬ StoredEvent E.V relay.db event

/-- The loop ends with all events accepted, or at the first one that is not. -/
theorem batchLoop_cases (env : Nat → RelayEnv × Bool) (i : Nat) (relay : Writer)
    (events : List Json) :
    ((∃ relay', acceptsAll env i relay events = some relay') ∧
        (batchLoop env i relay events).2.status = 201) ∨
      ∃ pre event rest relay', events = pre ++ event :: rest ∧
        acceptsAll env i relay pre = some relay' ∧
        (batchEvent (env (i + pre.length)).1 (env (i + pre.length)).2 relay' (i + pre.length)
          event).accepted = false ∧
        (batchLoop env i relay events).2.status = 400 ∧
        (batchLoop env i relay events).1 = (batchEvent (env (i + pre.length)).1
          (env (i + pre.length)).2 relay' (i + pre.length) event).relay := by
  induction events generalizing i relay with
  | nil => exact Or.inl ⟨⟨relay, rfl⟩, rfl⟩
  | cons event rest ih =>
    simp only [batchLoop, acceptsAll]
    cases hacc : (batchEvent (env i).1 (env i).2 relay i event).accepted with
    | false => exact Or.inr ⟨[], event, rest, relay, rfl, rfl, hacc, rfl, rfl⟩
    | true =>
      simp only [if_true]
      rcases ih (i + 1) (batchEvent (env i).1 (env i).2 relay i event).relay with
        h | ⟨pre, e, rest', relay', rfl, hpre, hrej, hstatus, hrelay⟩
      · exact Or.inl h
      · refine Or.inr ⟨event :: pre, e, rest', relay', rfl, ?_, ?_, hstatus, ?_⟩
        · simp only [acceptsAll, hacc, if_true]
          exact hpre
        · rw [List.length_cons, show i + (pre.length + 1) = i + 1 + pre.length by omega]
          exact hrej
        · rw [List.length_cons, show i + (pre.length + 1) = i + 1 + pre.length by omega]
          exact hrelay

/-- The first event that is not accepted is the only one that can end the loop. -/
theorem acceptsAll_unique {i : Nat} {relay relay₁ relay₂ : Writer} {pre₁ pre₂ rest₁ rest₂ : List Json}
    {e₁ e₂ : Json} (heq : pre₁ ++ e₁ :: rest₁ = pre₂ ++ e₂ :: rest₂)
    (h₁ : acceptsAll env i relay pre₁ = some relay₁)
    (hr₁ : (batchEvent (env (i + pre₁.length)).1 (env (i + pre₁.length)).2 relay₁
      (i + pre₁.length) e₁).accepted = false)
    (h₂ : acceptsAll env i relay pre₂ = some relay₂)
    (hr₂ : (batchEvent (env (i + pre₂.length)).1 (env (i + pre₂.length)).2 relay₂
      (i + pre₂.length) e₂).accepted = false) :
    pre₁ = pre₂ ∧ e₁ = e₂ ∧ relay₁ = relay₂ := by
  induction pre₁ generalizing i relay pre₂ with
  | nil =>
    cases pre₂ with
    | nil =>
      cases h₁
      cases h₂
      cases heq
      exact ⟨rfl, rfl, rfl⟩
    | cons e pre₂ =>
      cases h₁
      cases heq
      simp only [List.length_nil, Nat.add_zero] at hr₁
      rw [acceptsAll, hr₁] at h₂
      cases h₂
  | cons e pre₁ ih =>
    cases pre₂ with
    | nil =>
      cases h₂
      cases heq
      simp only [List.length_nil, Nat.add_zero] at hr₂
      rw [acceptsAll, hr₂] at h₁
      cases h₁
    | cons e' pre₂ =>
      rw [List.cons_append, List.cons_append, List.cons.injEq] at heq
      obtain ⟨rfl, heq⟩ := heq
      rw [List.length_cons, show i + (pre₁.length + 1) = i + 1 + pre₁.length by omega] at hr₁
      rw [List.length_cons, show i + (pre₂.length + 1) = i + 1 + pre₂.length by omega] at hr₂
      rw [acceptsAll] at h₁ h₂
      split at h₁
      · rw [if_pos ‹_›] at h₂
        obtain ⟨rfl, rfl, rfl⟩ := ih heq h₁ hr₁ h₂ hr₂
        exact ⟨rfl, rfl, rfl⟩
      · cases h₁

/-- When the batch is cut short at an event, the events before it were stored, and it is not written
late. -/
def CutsClean (text : JsonText) (env : Nat → RelayEnv × Bool) (relay : Writer) (body : Bytes) :
    Prop :=
  ∀ batchJson pre event rest relay', text.fromString body = .ok batchJson →
    batchEvents batchJson = .ok (pre ++ event :: rest) →
    acceptsAll env 0 relay pre = some relay' →
    (batchEvent (env pre.length).1 (env pre.length).2 relay' pre.length event).accepted = false →
    AllStored env 0 relay.db pre ∧
      ¬ WrittenLate (env pre.length).1 (env pre.length).2 relay' pre.length event

/-- The event at which a batch is cut short leaves the store as it is unless it is written late. -/
theorem batchEvent_not_accepted {E : RelayEnv} {timeout : Bool} {relay : Writer} {i : Nat}
    {event : Json} (hinv : StoreInv relay.db.toStore) (hprints : PrintsEvent E.V.text event)
    (h : (batchEvent E timeout relay i event).accepted = false) :
    (¬ WrittenLate E timeout relay i event ∧
        (batchEvent E timeout relay i event).relay.db = relay.db) ∨
      (WrittenLate E timeout relay i event ∧
        relay.db.event.lastKey < (batchEvent E timeout relay i event).relay.db.event.lastKey) := by
  obtain ⟨heff, hacc⟩ := batchEvent_effect hinv hprints timeout i
  cases heff with
  | rejected refused same =>
    refine Or.inl ⟨?_, same⟩
    rintro ⟨-, hok, -⟩
    rw [refused] at hok
    cases hok
  | duplicate ok stored same => exact Or.inl ⟨fun hlate => hlate.2.2 stored, same⟩
  | written ok fresh lt inv =>
    rw [hacc, ok, Bool.and_true, Bool.not_eq_false'] at h
    exact Or.inr ⟨⟨h, ok, fresh⟩, lt⟩

/-- A batch that is answered with a failure leaves the store as it was exactly if it is cut short
after stored events only, by one that is not written. -/
theorem batch_all_or_nothing_iff {text : JsonText} {relay : Writer} {body : Bytes}
    (hinv : StoreInv relay.db.toStore)
    (hprints : ∀ batchJson events, text.fromString body = .ok batchJson →
      batchEvents batchJson = .ok events → PrintsEvents env 0 events) :
    ((handleEventPostBatch text env relay body).2.status ≠ 201 →
        (handleEventPostBatch text env relay body).1.db = relay.db) ↔
      CutsClean text env relay body := by
  rw [handleEventPostBatch]
  cases hread : text.fromString body with
  | error e =>
    refine iff_of_true (fun _ => rfl) ?_
    intro batchJson pre event rest relay' hread'
    rw [hread] at hread'
    cases hread'
  | ok batchJson =>
    simp only
    cases hevents : batchEvents batchJson with
    | error response =>
      refine iff_of_true (fun _ => rfl) ?_
      intro batchJson' pre event rest relay' hread' hevents'
      rw [hread] at hread'
      cases hread'
      rw [hevents] at hevents'
      cases hevents'
    | ok events =>
      have hprints := hprints batchJson events hread hevents
      simp only
      rcases batchLoop_cases env 0 relay events with
        ⟨⟨relay', hall⟩, hstatus⟩ | ⟨pre, event, rest, relay', rfl, hpre, hrej, hstatus, hrelay⟩
      · -- every event is accepted, so there is none to cut the batch short
        refine iff_of_true (fun h => absurd hstatus h) ?_
        intro batchJson' pre event rest relay'' hread' hevents' hpre hrej
        rw [hread] at hread'
        cases hread'
        rw [hevents] at hevents'
        cases hevents'
        rw [acceptsAll_cut hpre (by rwa [Nat.zero_add])] at hall
        cases hall
      · obtain ⟨hinv', hcase⟩ := acceptsAll_spec hinv hprints.append.1 hpre
        have hlast := batchEvent_not_accepted hinv' hprints.append.2 hrej
        rw [Nat.zero_add] at hrej hrelay hlast
        rw [hstatus, hrelay]
        constructor
        · intro hsame
          have hsame := hsame (by decide)
          intro batchJson' pre' event' rest' relay'' hread' hevents' hpre' hrej'
          rw [hread] at hread'
          cases hread'
          rw [hevents] at hevents'
          obtain ⟨rfl, rfl, rfl⟩ := acceptsAll_unique (Except.ok.inj hevents') hpre
            (by rwa [Nat.zero_add]) hpre' (by rwa [Nat.zero_add])
          -- a key that has risen is a store that has changed
          rcases hcase with ⟨hall, heq⟩ | ⟨-, hlt⟩
          · rcases hlast with ⟨hnot, -⟩ | ⟨-, hlt⟩
            · exact ⟨hall, hnot⟩
            · rw [hsame, heq] at hlt
              exact absurd hlt (lt_irrefl _)
          · rcases hlast with ⟨-, heq⟩ | ⟨-, hlt'⟩
            · rw [← heq, hsame] at hlt
              exact absurd hlt (lt_irrefl _)
            · rw [hsame] at hlt'
              exact absurd (hlt.trans hlt') (lt_irrefl _)
        · intro hclean _
          obtain ⟨hall, hnot⟩ := hclean batchJson pre event rest relay' hread hevents hpre hrej
          rcases hcase with ⟨-, heq⟩ | ⟨hnall, -⟩
          · rcases hlast with ⟨-, hdb⟩ | ⟨hlate, -⟩
            · rw [hdb, heq]
            · exact absurd hlate hnot
          · exact absurd hall hnall

end Loop

/-! ## A batch of the signed note and a null -/

/-- What `handleEventPostBatch` meets for each event: the sample relay, and no timeout. -/
def sampleEnv (plugin : Option (Bytes → PluginAnswer)) : Nat → RelayEnv × Bool :=
  fun _ => (sampleRelay plugin, false)

/-- A plugin that rejects everything. -/
def rejectAll : Bytes → PluginAnswer := fun _ => ⟨.reject, "blocked: closed"⟩

theorem fromString_sampleBatchText :
    sampleText.fromString sampleBatchText = .ok (.array [sampleEvent, .null]) := by
  have hne : sampleBatchText ≠ emptyFilterText := by decide +kernel
  have hne' : sampleBatchText ≠ sampleEventText := by decide +kernel
  have hne'' : sampleBatchText ≠ sampleMessageText := by decide +kernel
  simp only [sampleText, if_neg hne, if_neg hne', if_neg hne'', if_true]

theorem printsEvents_sampleBatch (plugin : Option (Bytes → PluginAnswer)) (batchJson : Json)
    (events : List Json) (hread : sampleText.fromString sampleBatchText = .ok batchJson)
    (hevents : batchEvents batchJson = .ok events) :
    PrintsEvents (sampleEnv plugin) 0 events := by
  rw [fromString_sampleBatchText] at hread
  cases hread
  cases hevents
  intro k event hk v hv
  match k with
  | 0 =>
    cases hk
    have hv' : sampleText.fromString sampleEventText = .ok v := hv
    rw [fromString_sampleEventText] at hv'
    cases hv'
    exact readsBack_sampleEvent
  | 1 =>
    cases hk
    have hv' : (sampleText.fromString (ascii "null")).toOption = some v := by
      rw [show sampleText.fromString (ascii "null") = .ok v from hv]
      rfl
    have hnull : (sampleText.fromString (ascii "null")).toOption.isNone = true := by decide +kernel
    rw [hv'] at hnull
    cases hnull
  | k + 2 => cases hk

/-- With a plugin that rejects everything the batch is cut short at once, and nothing is stored. -/
theorem batch_all_or_nothing_rejectAll :
    (handleEventPostBatch sampleText (sampleEnv (some rejectAll)) ⟨{}, Db.init⟩
        sampleBatchText).2.status = 400 ∧
      (handleEventPostBatch sampleText (sampleEnv (some rejectAll)) ⟨{}, Db.init⟩
        sampleBatchText).1.db = Db.init := by
  have hstatus : (handleEventPostBatch sampleText (sampleEnv (some rejectAll)) ⟨{}, Db.init⟩
      sampleBatchText).2.status = 400 := by decide +kernel
  refine ⟨hstatus, ?_⟩
  apply (batch_all_or_nothing_iff storeInv_empty (printsEvents_sampleBatch (some rejectAll))).2
  · intro batchJson pre event rest relay' hread hevents hpre hrej
    rw [fromString_sampleBatchText] at hread
    cases hread
    refine ⟨?_, fun hlate => Bool.false_ne_true hlate.1⟩
    cases pre with
    | nil =>
      intro k e hk
      cases hk
    | cons e pre =>
      -- the note would have to be accepted
      have hfirst : (batchEvent (sampleRelay (some rejectAll)) false ⟨{}, Db.init⟩ 0
          sampleEvent).accepted = false := by decide +kernel
      have he : e = sampleEvent := (List.cons.inj (Except.ok.inj hevents)).1.symm
      subst he
      simp only [acceptsAll, sampleEnv, hfirst] at hpre
      cases hpre
  · rw [hstatus]
    decide

/-- Without a plugin the note is stored, and the batch is answered with a failure because of the
null after it. -/
theorem batch_partly_stored :
    (handleEventPostBatch sampleText (sampleEnv none) ⟨{}, Db.init⟩ sampleBatchText).2 =
        ⟨400, false, "Event at index 1 is not an object"⟩ ∧
      (handleEventPostBatch sampleText (sampleEnv none) ⟨{}, Db.init⟩
        sampleBatchText).1.db.event.rows.map (fun r => r.2.id) = [hexBytes sampleId] := by
  decide +kernel

end Strfry
