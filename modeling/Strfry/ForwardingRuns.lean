import Strfry.Forwarding
import Strfry.Stream

/-!
# Runs of the router

The runs of `Forwarder.Step` in which no levId is used for a second event. What holds of an entry of the log is
stated over the entries before it (`Lib.EachAfter`).
-/

set_option autoImplicit false

namespace Strfry

open Lib

/-- The event was sent on the socket. -/
def ForwardEntry.SentOn (e : ForwardEntry) (id : Nat) (r : Nat × PackedEvent) : Prop :=
  ∃ o sends ended, e = .event r o sends ended ∧ ∃ send ∈ sends, ∃ url k, send.sockets url = some k ∧ k.id = id

namespace Forwarder

/-- The events that were offered. -/
def handledRows (log : List ForwardEntry) : List (Nat × PackedEvent) := log.filterMap ForwardEntry.handled

/-- The table of events, and how far `handleDBChange` has come in it. -/
def feed (s : Forwarder) : Feed PackedEvent := ⟨s.db.event, s.highest, s.currEventId, handledRows s.log⟩

/-- The router when it has loaded its config file. -/
def start (cfg : ForwardConfig) (clock : Bytes → GroupClock) (content : Except Err Json) (db : Db) : Forwarder :=
  { router := (({} : Router).reconcileConfig cfg.env clock content).1, db := db }

/-- A step of the process in which no levId is used for a second event. -/
def FreshStep (cfg : ForwardConfig) (s s' : Forwarder) : Prop :=
  s.ended = false ∧ Step cfg s s' ∧ Feed.Fresh s.feed s'.feed

variable {cfg : ForwardConfig} {clock : Bytes → GroupClock} {content : Except Err Json} {db : Db}
  {names : List Bytes} {pluginUp : Nat → Bytes → Json → PluginEventSifterResult × Bytes}
  {rows : List (Nat × PackedEvent)} {s s' : Forwarder}

theorem handledRows_append (log log' : List ForwardEntry) :
    handledRows (log ++ log') = handledRows log ++ handledRows log' := List.filterMap_append

/-- The loop of `handleDBChange`: what it leaves as it is, and the events that it has offered. -/
structure Forwards (rows : List (Nat × PackedEvent)) (s s' : Forwarder) (done : List (Nat × PackedEvent)) :
    Prop where
  router : s'.router = s.router
  db : s'.db = s.db
  designators : s'.designators = s.designators
  highest : s'.highest = s.highest
  downloaded : s'.downloaded = s.downloaded
  upTo : done <+: rows
  all : s'.ended = false → done = rows
  currEventId : s'.currEventId = Feed.advance s.currEventId done
  handled : handledRows s'.log = handledRows s.log ++ done

theorem forwardLoop_forwards (cfg : ForwardConfig) (names : List Bytes)
    (pluginUp : Nat → Bytes → Json → PluginEventSifterResult × Bytes) (rows : List (Nat × PackedEvent))
    (s : Forwarder) : ∃ done, Forwards rows s (s.forwardLoop cfg names pluginUp rows) done := by
  induction rows generalizing s with
  | nil => exact ⟨[], rfl, rfl, rfl, rfl, rfl, List.prefix_refl _, fun _ => rfl, rfl, (List.append_nil _).symm⟩
  | cons r rest ih =>
    simp only [forwardLoop]
    split
    · rename_i hended
      refine ⟨[r], rfl, rfl, rfl, rfl, rfl, (List.prefix_cons_inj r).mpr List.nil_prefix, fun hgo => ?_, rfl,
        handledRows_append _ _⟩
      exact absurd hended (by simpa using hgo)
    · obtain ⟨done, h⟩ := ih _
      refine ⟨r :: done, h.router, h.db, h.designators, h.highest, h.downloaded,
        (List.prefix_cons_inj r).mpr h.upTo, fun hgo => congrArg _ (h.all hgo), ?_, ?_⟩
      · rw [h.currEventId, Feed.advance_cons]
      · rw [h.handled, handledRows_append, List.append_assoc]
        rfl

/-- A message of a relay changes nothing, or is an event that the pipeline is given. -/
theorem handleIncomingMessage_cases (cfg : ForwardConfig) (pluginDown : Json → PluginEventSifterResult)
    (name msg : Bytes) (s : Forwarder) : s.handleIncomingMessage cfg pluginDown name msg = s ∨
      ∃ dir evJson, dir ≠ ascii "up" ∧ s.handleIncomingMessage cfg pluginDown name msg =
        { s with log := s.log ++ [.received name dir evJson] } := by
  rw [handleIncomingMessage]
  split
  · split
    · split
      · exact .inl rfl
      · rename_i evJson _
        rw [incomingEvent]
        split
        · exact .inl rfl
        · rename_i g hg
          split_ifs with hup hacc
          · exact .inl rfl
          · exact .inr ⟨g.dir, evJson, hup, rfl⟩
          · exact .inl rfl
    · exact .inl rfl
  · exact .inl rfl

theorem handledRows_openedEntries (r : Router) (name url : Bytes) (id : Nat) :
    handledRows (openedEntries r name url id) = [] := by
  rw [openedEntries]
  split
  · rfl
  · split_ifs <;> rfl

/-- Each step is one of the table and its reader, or of no matter to them. -/
theorem Step.feed (hstep : Step cfg s s') : s'.feed = s.feed ∨ Feed.Step s.feed s'.feed := by
  cases hstep with
  | configFileChange clock content => exact .inl rfl
  | reconnectCron clock => exact .inl rfl
  | connection name url new =>
    left
    rw [onConnection]
    split
    · rfl
    · simp only [Forwarder.feed, handledRows_append, handledRows_openedEntries, List.append_nil]
  | disconnection known =>
    left
    simp only [Forwarder.feed, onDisconnection, handledRows_append]
    exact congrArg _ (List.append_nil _)
  | @message name url id known pluginDown msg =>
    left
    rcases handleIncomingMessage_cases cfg pluginDown name msg s with heq | ⟨dir, evJson, -, heq⟩
    · rw [heq]
    · rw [heq]
      simp only [Forwarder.feed, handledRows_append]
      exact congrArg _ (List.append_nil _)
  | @dbChange names nodup keys pluginUp =>
    obtain ⟨done, h⟩ := forwardLoop_forwards cfg names pluginUp (s.db.event.rowsFrom (s.currEventId + 1)) s
    have hread : Feed.Step s.feed _ := .read h.upTo
    right
    simp only [handleDBChange, Forwarder.feed, h.db, h.highest, h.currEventId, h.handled]
    exact hread
  | write verified call => exact .inr (.change _)
  | other txn => exact .inr (.change _)

theorem feed_of_run (hrun : Relation.ReflTransGen (FreshStep cfg) (start cfg clock content db) s) :
    Feed.Ordered db.event.lastKey s.feed ∧ Feed.Complete db.event.lastKey s.feed := by
  induction hrun with
  | refl => exact ⟨Feed.ordered_start _, Feed.complete_start _⟩
  | tail _ hstep ih =>
    obtain ⟨hordered, hcomplete⟩ := ih
    rcases hstep.2.1.feed with heq | hfeed
    · rw [heq]
      exact ⟨hordered, hcomplete⟩
    · exact ⟨hordered.step hfeed, hcomplete.step hfeed hstep.2.2⟩

/-! ## The order on a socket -/

/-- A sent event goes to open sockets, to each once, and behind all that was sent on it before. -/
structure InOrderAfter (before : List ForwardEntry) (e : ForwardEntry) : Prop where
  opened : ∀ id r, e.SentOn id r → ∃ req, .opened id req ∈ before
  notLost : ∀ id r, e.SentOn id r → .lost id ∉ before
  increasing : ∀ id r, e.SentOn id r → ∀ e' ∈ before, ∀ r', e'.SentOn id r' → r'.1 < r.1
  once : ∀ r o sends ended, e = .event r o sends ended → ∀ a ∈ sends, ∀ b ∈ sends, ∀ url url' k k',
    a.sockets url = some k → b.sockets url' = some k' → k.id = k'.id → a = b ∧ url = url'

/-- A socket that is in a group was opened for it, and is not lost. -/
structure Wired (s : Forwarder) : Prop where
  sockets : ∀ name url k, socketIn s.router.streamGroups name url = some k →
    s.designators k.id = some (name, url) ∧ .opened k.id k.req ∈ s.log ∧ .lost k.id ∉ s.log
  lost : ∀ id, .lost id ∈ s.log → s.designators id ≠ none
  inOrder : EachAfter InOrderAfter s.log

/-- An entry that is not about an event. -/
theorem inOrderAfter_of_handled {before : List ForwardEntry} {e : ForwardEntry} (he : e.handled = none) :
    InOrderAfter before e := by
  have hnot : ∀ id r, ¬ e.SentOn id r := by
    rintro id r ⟨o, sends, ended, rfl, -⟩
    cases he
  refine ⟨fun id r h => absurd h (hnot id r), fun id r h => absurd h (hnot id r),
    fun id r h => absurd h (hnot id r), ?_⟩
  rintro r o sends ended rfl
  cases he

theorem mem_handledRows_of_sentOn {log : List ForwardEntry} {e : ForwardEntry} {id : Nat} {r : Nat × PackedEvent}
    (he : e ∈ log) (h : e.SentOn id r) : r ∈ handledRows log := by
  obtain ⟨o, sends, ended, rfl, -⟩ := h
  exact List.mem_filterMap.mpr ⟨_, he, rfl⟩

/-- An event is offered that is behind all that were offered. -/
theorem Wired.event (h : Wired s) (hnodup : names.Nodup) {r : Nat × PackedEvent}
    (hnew : ∀ r' ∈ handledRows s.log, r'.1 < r.1) (ended : Bool) :
    Wired { s with
      currEventId := r.1
      ended := ended
      log := s.log ++ [.event r ⟨s.router.streamGroups, pluginUp r.1, s.db.toStore⟩
        (outgoingAll cfg ⟨s.router.streamGroups, pluginUp r.1, s.db.toStore⟩ r names {}).1 ended] } := by
  have hoffered : Offered cfg ⟨s.router.streamGroups, pluginUp r.1, s.db.toStore⟩ r names _ :=
    Kept.offered (.inl rfl) hnodup
  -- what is sent on is the socket of the group
  have hsocket : ∀ send ∈ (outgoingAll cfg ⟨s.router.streamGroups, pluginUp r.1, s.db.toStore⟩ r names {}).1,
      ∀ url k, send.sockets url = some k → socketIn s.router.streamGroups send.name url = some k := by
    intro send hsend url k hk
    obtain ⟨-, g, res, hg, -, -, -, -, -, hsockets⟩ := hoffered.due send hsend
    rw [hsockets] at hk
    exact socketIn_eq_some.mpr ⟨g, hg, hk⟩
  refine ⟨fun name url k hk => ?_, fun id hid => ?_, h.inOrder.concat ⟨?_, ?_, ?_, ?_⟩⟩
  · obtain ⟨hdesig, hopened, hlost⟩ := h.sockets name url k hk
    refine ⟨hdesig, List.mem_append_left _ hopened, fun hmem => ?_⟩
    rcases List.mem_append.mp hmem with hmem | hmem
    · exact hlost hmem
    · cases List.mem_singleton.mp hmem
  · rcases List.mem_append.mp hid with hid | hid
    · exact h.lost id hid
    · cases List.mem_singleton.mp hid
  · rintro id r' ⟨o, sends, ended', heq, send, hsend, url, k, hk, rfl⟩
    cases heq
    exact ⟨k.req, (h.sockets _ url k (hsocket send hsend url k hk)).2.1⟩
  · rintro id r' ⟨o, sends, ended', heq, send, hsend, url, k, hk, rfl⟩
    cases heq
    exact (h.sockets _ url k (hsocket send hsend url k hk)).2.2
  · rintro id r' ⟨o, sends, ended', heq, -⟩ e' he' r'' hsent
    cases heq
    exact hnew r'' (mem_handledRows_of_sentOn he' hsent)
  · intro r' o sends ended' heq a ha b hb url url' k k' hk hk' hid
    cases heq
    -- the same id has the same designator
    have hdesig := (h.sockets _ url k (hsocket a ha url k hk)).1
    have hdesig' := (h.sockets _ url' k' (hsocket b hb url' k' hk')).1
    rw [hid, hdesig'] at hdesig
    obtain ⟨hname, hurl⟩ := Prod.mk.inj (Option.some.inj hdesig)
    exact ⟨List.inj_on_of_nodup_map hoffered.once ha hb hname.symm, hurl.symm⟩

/-- The loop of `handleDBChange`. -/
theorem Wired.forwardLoop (h : Wired s) (hnodup : names.Nodup) (hsorted : rows.Pairwise fun a b => a.1 < b.1)
    (hnew : ∀ r ∈ rows, ∀ r' ∈ handledRows s.log, r'.1 < r.1) :
    Wired (s.forwardLoop cfg names pluginUp rows) := by
  induction rows generalizing s with
  | nil => exact h
  | cons r rest ih =>
    obtain ⟨hlt, hsorted⟩ := List.pairwise_cons.mp hsorted
    have hevent := fun ended => @Wired.event cfg names pluginUp s h hnodup r (hnew r List.mem_cons_self) ended
    simp only [Forwarder.forwardLoop]
    split
    · exact hevent _
    · refine ih (hevent _) hsorted fun r₁ hr₁ r₂ hr₂ => ?_
      rw [handledRows_append] at hr₂
      rcases List.mem_append.mp hr₂ with hr₂ | hr₂
      · exact hnew r₁ (List.mem_cons_of_mem _ hr₁) r₂ hr₂
      · rw [List.mem_singleton.mp hr₂]
        exact hlt r₁ hr₁

theorem not_mem_openedEntries {r : Router} {name url : Bytes} {id : Nat} {e : ForwardEntry}
    (he : e ∈ openedEntries r name url id) : ∃ req, e = .opened id req := by
  rw [openedEntries] at he
  split at he
  · cases he
  · split_ifs at he
    · exact ⟨_, List.mem_singleton.mp he⟩
    · cases he

/-- A new socket. -/
theorem Wired.onConnection (h : Wired s) (name url : Bytes) {id : Nat} (hnew : s.designators id = none) :
    Wired (s.onConnection cfg name url id) := by
  rw [Forwarder.onConnection]
  split
  · exact ⟨h.sockets, h.lost, h.inOrder⟩
  · rename_i r hstep
    -- nothing is lost by a connection
    have hlost : ∀ id', .lost id' ∈ s.log ++ openedEntries r name url id → .lost id' ∈ s.log := by
      intro id' hmem
      rcases List.mem_append.mp hmem with hmem | hmem
      · exact hmem
      · obtain ⟨req, heq⟩ := not_mem_openedEntries hmem
        cases heq
    refine ⟨fun name' url' k hk => ?_, fun id' hid' => ?_, ?_⟩
    · rcases Router.socketIn_of_connection hstep hk with hold | ⟨rfl, rfl, hid⟩
      -- a socket that was there before is another one, as the id is new
      · obtain ⟨hdesig, hopened, hnot⟩ := h.sockets name' url' k hold
        have hne : k.id ≠ id := by
          rintro rfl
          rw [hnew] at hdesig
          cases hdesig
        refine ⟨?_, List.mem_append_left _ hopened, fun hmem => hnot (hlost _ hmem)⟩
        rw [← hdesig]
        exact Function.update_of_ne hne _ _
      · refine ⟨?_, List.mem_append_right _ ?_, fun hmem => h.lost _ (hlost _ hmem) (hid ▸ hnew)⟩
        · rw [hid]
          exact Function.update_self _ _ _
        · rw [openedEntries, hk]
          simp only [if_pos hid]
          rw [hid]
          exact List.mem_singleton_self _
    · show Function.update s.designators id (some (name, url)) id' ≠ none
      rw [Function.update_apply]
      split_ifs
      · rintro ⟨⟩
      · exact h.lost id' (hlost id' hid')
    · rw [openedEntries]
      split
      · rw [List.append_nil]
        exact h.inOrder
      · split_ifs
        · exact h.inOrder.concat (inOrderAfter_of_handled rfl)
        · rw [List.append_nil]
          exact h.inOrder

/-- A lost socket. -/
theorem Wired.onDisconnection (h : Wired s) {name url : Bytes} {id : Nat}
    (hknown : s.designators id = some (name, url)) : Wired (s.onDisconnection cfg name url id) := by
  refine ⟨fun name' url' k hk => ?_, fun id' hid' => ?_, h.inOrder.concat (inOrderAfter_of_handled rfl)⟩
  · obtain ⟨hold, hnot⟩ := Router.socketIn_of_disconnection hk
    obtain ⟨hdesig, hopened, hlost⟩ := h.sockets name' url' k hold
    refine ⟨hdesig, List.mem_append_left _ hopened, fun hmem => ?_⟩
    rcases List.mem_append.mp hmem with hmem | hmem
    · exact hlost hmem
    · cases List.mem_singleton.mp hmem
      rw [hknown] at hdesig
      obtain ⟨hname, hurl⟩ := Prod.mk.inj (Option.some.inj hdesig)
      exact hnot ⟨hname.symm, hurl.symm, rfl⟩
  · rcases List.mem_append.mp hid' with hid' | hid'
    · exact h.lost id' hid'
    · cases List.mem_singleton.mp hid'
      show s.designators id ≠ none
      rw [hknown]
      rintro ⟨⟩

/-- An event is given to the pipeline. -/
theorem Wired.received (h : Wired s) (name dir : Bytes) (evJson : Json) :
    Wired { s with log := s.log ++ [.received name dir evJson] } := by
  have hlost : ∀ id, .lost id ∈ s.log ++ [.received name dir evJson] → .lost id ∈ s.log := by
    intro id hmem
    rcases List.mem_append.mp hmem with hmem | hmem
    · exact hmem
    · cases List.mem_singleton.mp hmem
  refine ⟨fun name' url k hk => ?_, fun id hid => h.lost id (hlost id hid),
    h.inOrder.concat (inOrderAfter_of_handled rfl)⟩
  obtain ⟨hdesig, hopened, hnot⟩ := h.sockets name' url k hk
  exact ⟨hdesig, List.mem_append_left _ hopened, fun hmem => hnot (hlost _ hmem)⟩

theorem Step.wired (hstep : Step cfg s s') (h : Wired s) {k : Nat} (hordered : Feed.Ordered k s.feed) :
    Wired s' := by
  cases hstep with
  | configFileChange clock content =>
    exact ⟨fun name url k hk => h.sockets name url k (Router.socketIn_of_reconcileConfig hk), h.lost, h.inOrder⟩
  | reconnectCron clock =>
    exact ⟨fun name url k hk => h.sockets name url k (Router.socketIn_of_reconnectAll hk), h.lost, h.inOrder⟩
  | connection name url new => exact h.onConnection name url new
  | disconnection known => exact h.onDisconnection known
  | @message name url id known pluginDown msg =>
    rcases handleIncomingMessage_cases cfg pluginDown name msg s with heq | ⟨dir, evJson, -, heq⟩
    · rw [heq]
      exact h
    · rw [heq]
      exact h.received name dir evJson
  | dbChange nodup keys pluginUp =>
    refine h.forwardLoop nodup (s.db.event.sorted.filter _) fun r hr r' hr' => ?_
    exact (hordered.bounds r' hr').2.trans_lt (Table.mem_rowsFrom.mp hr).2
  | write verified call => exact ⟨h.sockets, h.lost, h.inOrder⟩
  | other txn => exact ⟨h.sockets, h.lost, h.inOrder⟩

theorem wired_start : Wired (start cfg clock content db) := by
  refine ⟨fun name url k hk => ?_, fun id hid => ?_, eachAfter_nil⟩
  · have hnone := Router.socketIn_of_reconcileConfig hk
    cases hnone
  · cases hid

/-- On every socket the events go out in the order in which they were stored and none twice, from when it was
opened until it is lost, through all reloads and reconnects. -/
theorem sent_in_order (hrun : Relation.ReflTransGen (FreshStep cfg) (start cfg clock content db) s) :
    EachAfter InOrderAfter s.log := by
  have hwired : Wired s := by
    induction hrun with
    | refl => exact wired_start
    | tail hrun hstep ih => exact hstep.2.1.wired ih (feed_of_run hrun).1
  exact hwired.inOrder

/-! ## What is sent of an event -/

/-- The groups to which an event is offered are those that there are. -/
def OffersAll (cfg : ForwardConfig) (e : ForwardEntry) : Prop :=
  ∀ r o sends ended, e = .event r o sends ended →
    (∀ send ∈ sends, Due cfg o r send) ∧ (sends.map GroupSend.name).Nodup ∧
      (ended = false → ∀ send, Due cfg o r send → send ∈ sends) ∧
      (ended = true → ∃ name, Breaks cfg o r name)

theorem offersAll_forwardLoop (hnodup : names.Nodup)
    (hkeys : ∀ name, name ∈ names ↔ (s.router.streamGroups name).isSome = true)
    (h : ∀ e ∈ s.log, OffersAll cfg e) : ∀ e ∈ (s.forwardLoop cfg names pluginUp rows).log, OffersAll cfg e := by
  induction rows generalizing s with
  | nil => exact h
  | cons r rest ih =>
    have hoffered : Offered cfg ⟨s.router.streamGroups, pluginUp r.1, s.db.toStore⟩ r names _ :=
      Kept.offered (.inl rfl) hnodup
    have hlog : ∀ e ∈ s.log ++ [.event r ⟨s.router.streamGroups, pluginUp r.1, s.db.toStore⟩
        (outgoingAll cfg ⟨s.router.streamGroups, pluginUp r.1, s.db.toStore⟩ r names {}).1
        (outgoingAll cfg ⟨s.router.streamGroups, pluginUp r.1, s.db.toStore⟩ r names {}).2],
        OffersAll cfg e := by
      intro e he
      rcases List.mem_append.mp he with he | he
      · exact h e he
      · rw [List.mem_singleton.mp he]
        intro r' o sends ended heq
        cases heq
        refine ⟨fun send hsend => (hoffered.due send hsend).2, hoffered.once, fun hgo send hdue => ?_, fun hend => ?_⟩
        · apply hoffered.all hgo send _ hdue
          obtain ⟨g, res, hg, -⟩ := hdue
          exact (hkeys _).mpr (Option.isSome_iff_exists.mpr ⟨g, hg⟩)
        · obtain ⟨name, -, hbreaks⟩ := hoffered.breaks hend
          exact ⟨name, hbreaks⟩
    simp only [forwardLoop]
    split
    · exact hlog
    · exact ih hkeys hlog

theorem Step.offersAll (hstep : Step cfg s s') (h : ∀ e ∈ s.log, OffersAll cfg e) :
    ∀ e ∈ s'.log, OffersAll cfg e := by
  -- entries of other kinds say nothing of an event that was handled
  have hother : ∀ {log : List ForwardEntry}, (∀ e ∈ log, e.handled = none) →
      ∀ e ∈ s.log ++ log, OffersAll cfg e := by
    intro log hlog e he
    rcases List.mem_append.mp he with he | he
    · exact h e he
    · rintro r o sends ended rfl
      cases hlog _ he
  cases hstep with
  | configFileChange clock content => exact h
  | reconnectCron clock => exact h
  | connection name url new =>
    rw [onConnection]
    split
    · exact h
    · apply hother
      intro e he
      obtain ⟨req, rfl⟩ := not_mem_openedEntries he
      rfl
  | @disconnection name url id known =>
    apply hother
    intro e he
    rw [List.mem_singleton.mp he]
    rfl
  | @message name url id known pluginDown msg =>
    rcases handleIncomingMessage_cases cfg pluginDown name msg s with heq | ⟨dir, evJson, -, heq⟩
    · rw [heq]
      exact h
    · rw [heq]
      apply hother
      intro e he
      rw [List.mem_singleton.mp he]
      rfl
  | dbChange nodup keys pluginUp => exact offersAll_forwardLoop nodup keys h
  | write verified call => exact h
  | other txn => exact h

/-- What the log says of the events that are new since the start on `db`: they were offered in the order of their
levIds, each with all groups that there were, and up to `currEventId` none of those that are stored was missed. A
call of `handleDBChange` that the process survives leaves none. -/
structure ForwardsExactly (cfg : ForwardConfig) (db : Db) (s : Forwarder) : Prop where
  sorted : (handledRows s.log).Pairwise fun a b => a.1 < b.1
  handled : ∀ r ∈ s.db.event.rows, db.event.lastKey < r.1 → (r ∈ handledRows s.log ↔ r.1 ≤ s.currEventId)
  next : ∀ names pluginUp, (s.handleDBChange cfg names pluginUp).ended = false →
    ∀ r ∈ s.db.event.rows, db.event.lastKey < r.1 → r ∈ handledRows (s.handleDBChange cfg names pluginUp).log
  offers : ∀ e ∈ s.log, OffersAll cfg e

/-- Every new event is offered once, and sent by exactly the groups that are not `down`, whose filter it matches
and whose plugin accepts it, as if each of them had read it. -/
theorem forwards_exactly (hrun : Relation.ReflTransGen (FreshStep cfg) (start cfg clock content db) s) :
    ForwardsExactly cfg db s := by
  obtain ⟨hordered, hcomplete⟩ := feed_of_run hrun
  refine ⟨hordered.sorted, fun r hr hlt => ⟨fun hmem => (hordered.bounds r hmem).2, hcomplete.all r hr hlt⟩,
    fun names pluginUp hgo r hr hlt => ?_, ?_⟩
  · obtain ⟨done, h⟩ := forwardLoop_forwards cfg names pluginUp (s.db.event.rowsFrom (s.currEventId + 1)) s
    rw [handleDBChange, h.handled, h.all hgo]
    rcases le_or_gt r.1 s.currEventId with hle | hgt
    · exact List.mem_append_left _ (hcomplete.all r hr hlt hle)
    · exact List.mem_append_right _ (Table.mem_rowsFrom.mpr ⟨hr, hgt⟩)
  · clear hordered hcomplete
    induction hrun with
    | refl =>
      intro e he
      cases he
    | tail _ hstep ih => exact hstep.2.1.offersAll ih

/-! ## What the pipeline writes -/

/-- An event with this id came from a group that was not `up`. -/
def CameIn (cfg : ForwardConfig) (log : List ForwardEntry) (r : Nat × PackedEvent) : Prop :=
  ∃ name dir v, .received name dir v ∈ log ∧ dir ≠ ascii "up" ∧ claimedId cfg.verifier v = .ok r.2.id

/-- An event that the pipeline has written came in before it was offered. -/
def OfferedAfter (cfg : ForwardConfig) (downloaded : List (Nat × PackedEvent)) (before : List ForwardEntry)
    (e : ForwardEntry) : Prop :=
  ∀ r ∈ downloaded, e.handled = some r → CameIn cfg before r

/-- The pipeline writes only what came in. -/
structure Incoming (cfg : ForwardConfig) (s : Forwarder) : Prop where
  dirs : ∀ name dir v, .received name dir v ∈ s.log → dir ≠ ascii "up"
  own : ∀ r ∈ s.downloaded, CameIn cfg s.log r
  offered : EachAfter (OfferedAfter cfg s.downloaded) s.log

theorem Incoming.concat (h : Incoming cfg s) {e : ForwardEntry} (hlog : s'.log = s.log ++ [e])
    (hdownloaded : s'.downloaded = s.downloaded) (hdirs : ∀ name dir v, e = .received name dir v → dir ≠ ascii "up") :
    Incoming cfg s' where
  dirs := by
    intro name dir v hmem
    rw [hlog] at hmem
    rcases List.mem_append.mp hmem with hmem | hmem
    · exact h.dirs name dir v hmem
    · exact hdirs name dir v (List.mem_singleton.mp hmem).symm
  own := by
    intro r hr
    rw [hdownloaded] at hr
    obtain ⟨name, dir, v, hmem, hdir, hid⟩ := h.own r hr
    exact ⟨name, dir, v, hlog ▸ List.mem_append_left _ hmem, hdir, hid⟩
  offered := by
    rw [hlog, hdownloaded]
    exact h.offered.concat fun r hr _ => h.own r hr

theorem Incoming.forwardLoop (h : Incoming cfg s) : Incoming cfg (s.forwardLoop cfg names pluginUp rows) := by
  induction rows generalizing s with
  | nil => exact h
  | cons r rest ih =>
    have hevent : ∀ {o : Offer} {sends : List GroupSend} {ended : Bool}, Incoming cfg { s with
        currEventId := r.1, ended := ended, log := s.log ++ [.event r o sends ended] } := by
      intro o sends ended
      refine h.concat rfl rfl ?_
      rintro name dir v ⟨⟩
    simp only [Forwarder.forwardLoop]
    split
    · exact hevent
    · exact ih hevent

/-- The pipeline commits. What it adds has not been offered yet. -/
theorem Incoming.write (h : Incoming cfg s) {cache : NegentropyFilterCache} {evs evs' : List EventToWrite} {db' : Db}
    (hreach : StoreReachable cfg.ord cfg.verifier.hex cfg.verifier.text s.db)
    (verified : VerifiedFrom cfg.verifier s.written evs)
    (call : (writeEvents cfg.S cfg.ord cfg.verifier.hex cfg.verifier.text cache s.db evs).2 = .ok (db', evs'))
    (hnew : ∀ r ∈ added s.db db', r ∉ handledRows s.log) :
    Incoming cfg { s.committed db' with downloaded := s.downloaded ++ added s.db db' } where
  dirs := h.dirs
  own := by
    intro r hr
    rcases List.mem_append.mp hr with hr | hr
    · exact h.own r hr
    · obtain ⟨v, hv, hid⟩ := exists_written_of_added hreach verified call r hr
      obtain ⟨e, he, hwritten⟩ := List.mem_filterMap.mp hv
      cases e with
      | received name dir evJson =>
        cases hwritten
        exact ⟨name, dir, v, he, h.dirs name dir v he, hid⟩
      | opened id req => cases hwritten
      | lost id => cases hwritten
      | event r o sends ended => cases hwritten
  offered := by
    intro before e after heq r hr hhandled
    rcases List.mem_append.mp hr with hr | hr
    · exact h.offered before e after heq r hr hhandled
    · refine absurd (List.mem_filterMap.mpr ⟨e, ?_, hhandled⟩) (hnew r hr)
      have heq : s.log = before ++ e :: after := heq
      rw [heq]
      exact List.mem_append_right _ List.mem_cons_self

theorem Step.incoming (hstep : Step cfg s s') (h : Incoming cfg s) (hfresh : Feed.Fresh s.feed s'.feed)
    (hreach : StoreReachable cfg.ord cfg.verifier.hex cfg.verifier.text s.db) {k : Nat}
    (hordered : Feed.Ordered k s.feed) (hcomplete : Feed.Complete k s.feed) : Incoming cfg s' := by
  cases hstep with
  | configFileChange clock content => exact ⟨h.dirs, h.own, h.offered⟩
  | reconnectCron clock => exact ⟨h.dirs, h.own, h.offered⟩
  | @connection id name url new =>
    rw [onConnection]
    split
    · exact ⟨h.dirs, h.own, h.offered⟩
    · rename_i r hstep
      have hsame : openedEntries r name url id = [] ∨ ∃ req, openedEntries r name url id = [.opened id req] := by
        rw [openedEntries]
        split
        · exact .inl rfl
        · split_ifs
          · exact .inr ⟨_, rfl⟩
          · exact .inl rfl
      rcases hsame with heq | ⟨req, heq⟩
      · rw [heq, List.append_nil]
        exact ⟨h.dirs, h.own, h.offered⟩
      · rw [heq]
        refine h.concat rfl rfl ?_
        rintro name' dir v ⟨⟩
  | disconnection known =>
    refine h.concat rfl rfl ?_
    rintro name' dir v ⟨⟩
  | @message name url id known pluginDown msg =>
    rcases handleIncomingMessage_cases cfg pluginDown name msg s with heq | ⟨dir, evJson, hdir, heq⟩
    · rw [heq]
      exact h
    · rw [heq]
      refine h.concat rfl rfl ?_
      rintro name' dir' v ⟨⟩
      exact hdir
  | dbChange nodup keys pluginUp => exact h.forwardLoop
  | @write cache evs evs' db' verified call =>
    refine h.write hreach verified call fun r hr hmem => ?_
    obtain ⟨hr', hnot⟩ := List.mem_filter.mp hr
    rw [decide_eq_true_eq] at hnot
    -- what is written now is newer than all that has been offered
    have hlt : s.highest < r.1 := (hfresh r hr').resolve_left hnot
    have hle : r.1 ≤ s.highest := (hordered.bounds r hmem).2.trans hcomplete.cursor_le
    exact absurd hle (not_le.mpr hlt)
  | other txn => exact ⟨h.dirs, h.own, h.offered⟩

theorem Step.storeReachable (hstep : Step cfg s s')
    (hreach : StoreReachable cfg.ord cfg.verifier.hex cfg.verifier.text s.db) :
    StoreReachable cfg.ord cfg.verifier.hex cfg.verifier.text s'.db := by
  cases hstep with
  | configFileChange clock content => exact hreach
  | reconnectCron clock => exact hreach
  | connection name url new =>
    rw [onConnection]
    split
    · exact hreach
    · exact hreach
  | disconnection known => exact hreach
  | @message name url id known pluginDown msg =>
    rcases handleIncomingMessage_cases cfg pluginDown name msg s with heq | ⟨dir, evJson, -, heq⟩
    · rw [heq]
      exact hreach
    · rw [heq]
      exact hreach
  | @dbChange names nodup keys pluginUp =>
    obtain ⟨done, hdone⟩ :=
      forwardLoop_forwards cfg names pluginUp (s.db.event.rowsFrom (s.currEventId + 1)) s
    rw [handleDBChange, hdone.db]
    exact hreach
  | @write cache evs evs' db' verified call => exact hreach.tail (.write cfg.S cache verified.submitted call)
  | other txn => exact hreach.tail txn

/-- An event that the pipeline has written came from a relay of a group that was not `up`, and it did so before the
event was offered to the groups. -/
theorem written_from_down (hreach : StoreReachable cfg.ord cfg.verifier.hex cfg.verifier.text db)
    (hrun : Relation.ReflTransGen (FreshStep cfg) (start cfg clock content db) s) :
    (∀ r ∈ s.downloaded, CameIn cfg s.log r) ∧ EachAfter (OfferedAfter cfg s.downloaded) s.log := by
  have hall : StoreReachable cfg.ord cfg.verifier.hex cfg.verifier.text s.db ∧ Incoming cfg s := by
    induction hrun with
    | refl =>
      refine ⟨hreach, ?_, ?_, eachAfter_nil⟩
      · intro name dir v hmem
        cases hmem
      · intro r hr
        cases hr
    | tail hrun hstep ih =>
      obtain ⟨hordered, hcomplete⟩ := feed_of_run hrun
      exact ⟨hstep.2.1.storeReachable ih.1, hstep.2.1.incoming ih.2 hstep.2.2 ih.1 hordered hcomplete⟩
  exact ⟨hall.2.own, hall.2.offered⟩

/-! ## A note that goes round -/

/-- The router with the libraries of the signed event. -/
def sampleForwarding : ForwardConfig where
  S := .insertion
  ord := byteOrder
  verifier := Stream.sampleStream.verifier
  zstd := Archive.storedZstd
  maxEventSize := 65536
  dictionaries := Table.empty
  maxFilterLimit := 500

def friends : Bytes := ascii "friends"

/-- A file with one stream in both directions. -/
def bothWays : Json :=
  .object [(ascii "streams", .object [(friends, .object [(ascii "dir", .string (ascii "both")), Router.urlsField])])]

/-- The connection to the relay is open. -/
def sampleOpened : Forwarder :=
  (start sampleForwarding Router.noon (.ok bothWays) Db.init).onConnection sampleForwarding friends Router.relayUrl 7

/-- The note has come. -/
def sampleReceived : Forwarder :=
  { sampleOpened with log := sampleOpened.log ++ [.received friends (ascii "both") sampleEvent] }

/-- The pipeline has written it. -/
def sampleStored (db : Db) : Forwarder :=
  { sampleReceived.committed db with
    downloaded := sampleReceived.downloaded ++ added sampleReceived.db db }

/-- What is new is offered to the stream. -/
def offerFriends (s : Forwarder) : Forwarder :=
  s.handleDBChange sampleForwarding [friends] fun _ _ _ => (.accept, [])

/-- The note is offered. Another process writes a second one, and it is offered too. -/
def sampleOffered (db₁ db₂ : Db) : Forwarder :=
  offerFriends ((offerFriends (sampleStored db₁)).committed db₂)

/-- The event with the levId went out on the socket 7. -/
def sentOnSeven (levId : Nat) (s : Forwarder) : Bool :=
  s.log.any fun e =>
    match e with
    | .event r _ sends _ =>
      r.1 == levId && sends.any fun send => (send.sockets Router.relayUrl).any fun k => k.id == 7
    | _ => false

/-- A load that succeeds leaves only the groups of the file. -/
theorem streams_of_reconcileConfig {E : RouterEnv} {config : Json} {r r' : Router} {name : Bytes} {g : StreamGroup}
    (h : r.reconcileConfig E clock (.ok config) = (r', .ok ())) (hg : r'.streamGroups name = some g) :
    ∃ streams, (config.member "streams" >>= Json.getObject) = .ok streams ∧
      (streams.any fun p => p.1 == name) = true := by
  unfold Router.reconcileConfig at h
  simp only at h
  split at h
  · cases h
  · split at h
    · cases h
    · rename_i streams hstreams
      split at h
      · cases h
      · cases h
        simp only at hg
        split_ifs at hg with hneeded
        exact ⟨streams, hstreams, hneeded⟩

theorem friends_only (name : Bytes) :
    (sampleOpened.router.streamGroups name).isSome = true ↔ name = friends := by
  have hload : (({} : Router).reconcileConfig sampleForwarding.env Router.noon (.ok bothWays)).2 = .ok () := by
    decide +kernel
  constructor
  · intro hsome
    obtain ⟨g, hg⟩ := Option.isSome_iff_exists.mp hsome
    rw [sampleOpened, onConnection] at hg
    have hstart : ∃ g, (start sampleForwarding Router.noon (.ok bothWays) Db.init).router.streamGroups name = some g := by
      split at hg
      · exact ⟨g, hg⟩
      · rename_i r hstep
        rw [Router.step, Router.onGroup] at hstep
        split at hstep
        · cases hstep
          exact ⟨g, hg⟩
        · rename_i g' hg'
          obtain ⟨g₁, -, rfl⟩ := Option.map_eq_some_iff.mp hstep
          simp only [Function.update_apply] at hg
          split_ifs at hg with hname
          · exact ⟨g', hname ▸ hg'⟩
          · exact ⟨g, hg⟩
    obtain ⟨g₀, hg₀⟩ := hstart
    obtain ⟨streams, hstreams, hany⟩ := streams_of_reconcileConfig (Prod.ext rfl hload) hg₀
    cases hstreams
    have hname : friends = name := by simpa using hany
    exact hname.symm
  · rintro rfl
    decide +kernel

theorem onMessage_sampleOpened : sampleOpened.handleIncomingMessage sampleForwarding (fun _ => .accept) friends
    Stream.sampleStreamText = sampleReceived := by
  have hdir : ((sampleOpened.router.streamGroups friends).map StreamGroup.dir) = some (ascii "both") := by
    decide +kernel
  obtain ⟨g, hg, hboth⟩ := Option.map_eq_some_iff.mp hdir
  have hread : sampleForwarding.verifier.text.fromString Stream.sampleStreamText =
      .ok (.array [.string (ascii "EVENT"), .string (ascii "sub"), sampleEvent]) :=
    Stream.fromString_sampleStreamText
  have hup : ascii "both" ≠ ascii "up" := by decide
  rw [handleIncomingMessage, hread]
  simp only [if_true, jsonAt, List.getElem?_cons_succ, List.getElem?_cons_zero, incomingEvent, hg, hboth, if_neg hup]
  rw [sampleReceived]

theorem db_sampleOpened : sampleOpened.db = Db.init ∧ sampleOpened.highest = 0 := by
  rw [sampleOpened, onConnection]
  split
  · exact ⟨rfl, rfl⟩
  · exact ⟨rfl, rfl⟩

theorem exists_sentOn_of_sentOnSeven {levId : Nat} (h : sentOnSeven levId s = true) :
    ∃ e ∈ s.log, ∃ p, e.SentOn 7 (levId, p) := by
  obtain ⟨e, he, h⟩ := List.any_eq_true.mp h
  refine ⟨e, he, ?_⟩
  split at h
  · rename_i r o sends ended
    obtain ⟨hone, h⟩ := Bool.and_eq_true_iff.mp h
    obtain ⟨send, hsend, hany⟩ := List.any_eq_true.mp h
    obtain ⟨levId', p⟩ := r
    cases eq_of_beq hone
    cases hk : send.sockets Router.relayUrl with
    | none =>
      rw [hk] at hany
      cases hany
    | some k =>
      rw [hk] at hany
      exact ⟨p, o, sends, ended, rfl, send, hsend, _, k, hk, eq_of_beq hany⟩
  · cases h

/-- An offer changes neither the groups nor the database. -/
theorem freshStep_offerFriends (hrouter : s.router = sampleOpened.router) (hended : s.ended = false) :
    FreshStep sampleForwarding s (offerFriends s) ∧ (offerFriends s).router = sampleOpened.router ∧
      (offerFriends s).db = s.db ∧ (offerFriends s).highest = s.highest := by
  obtain ⟨done, h⟩ := forwardLoop_forwards sampleForwarding [friends] (fun _ _ _ => (.accept, []))
    (s.db.event.rowsFrom (s.currEventId + 1)) s
  refine ⟨⟨hended, .dbChange (List.nodup_singleton _) (fun name => ?_) _, fun r hr => .inl ?_⟩,
    h.router.trans hrouter, h.db, h.highest⟩
  · rw [List.mem_singleton, hrouter]
    exact (friends_only name).symm
  · have hr : r ∈ (offerFriends s).db.event.rows := hr
    rw [offerFriends, handleDBChange, h.db] at hr
    exact hr

/-- The note goes back on the socket on which it came, and the local one follows. -/
theorem exists_sampleRun : ∃ p s, Relation.ReflTransGen (FreshStep sampleForwarding)
    (start sampleForwarding Router.noon (.ok bothWays) Db.init) s ∧ s.downloaded = [(1, p)] ∧
    (∃ e ∈ s.log, ∃ p', e.SentOn 7 (1, p')) ∧ ∃ e ∈ s.log, ∃ p', e.SentOn 7 (2, p') := by
  have heval : (Stream.sampleWrites.map fun r => decide (r.2.1.event.rows = [(1, r.1.1)] ∧
      r.2.2.event.rows = [(1, r.1.1), (2, Stream.localNote.packed)] ∧
      (offerFriends (sampleStored r.2.1)).ended = false ∧
      (sampleOffered r.2.1 r.2.2).downloaded = [(1, r.1.1)]) &&
      (sentOnSeven 1 (sampleOffered r.2.1 r.2.2) && sentOnSeven 2 (sampleOffered r.2.1 r.2.2))) = .ok true := by
    decide +kernel
  obtain ⟨⟨c, db₁, db₂⟩, hrun, hfacts⟩ := map_eq_ok.1 heval
  obtain ⟨hrows, hseven⟩ := Bool.and_eq_true_iff.mp hfacts
  obtain ⟨hfirstSent, hsecondSent⟩ := Bool.and_eq_true_iff.mp hseven
  obtain ⟨hrows₁, hrows₂, hgoesOn, hdown⟩ := of_decide_eq_true hrows
  -- the steps one by one: the connection, the message, its event written and offered, and one of another process
  obtain ⟨c, hverify, hrun⟩ := bind_eq_ok.1 hrun
  obtain ⟨⟨db₁, evs₁⟩, hfirst, hrun⟩ := bind_eq_ok.1 hrun
  obtain ⟨⟨db₂, evs₂⟩, hsecond, hrun⟩ := bind_eq_ok.1 hrun
  cases hrun
  obtain ⟨hdb, hhighest⟩ := db_sampleOpened
  have hended : sampleOpened.ended = false := by decide +kernel
  have hdesig : sampleOpened.designators 7 = some (friends, Router.relayUrl) := by decide +kernel
  have hopen : FreshStep sampleForwarding (start sampleForwarding Router.noon (.ok bothWays) Db.init)
      sampleOpened := by
    refine ⟨rfl, .connection friends Router.relayUrl rfl, fun r hr => .inl ?_⟩
    have hr : r ∈ sampleOpened.db.event.rows := hr
    rw [hdb] at hr
    exact hr
  have hmessage : FreshStep sampleForwarding sampleOpened sampleReceived := by
    have hstep : Step sampleForwarding sampleOpened _ :=
      .message hdesig (fun _ => .accept) Stream.sampleStreamText
    rw [onMessage_sampleOpened] at hstep
    exact ⟨hended, hstep, fun r hr => .inl hr⟩
  have hwrite : FreshStep sampleForwarding sampleReceived (sampleStored db₁) := by
    have hverified : VerifiedFrom sampleForwarding.verifier sampleReceived.written
        [{ packed := c.1, jsonStr := c.2 }] := by
      intro ev hev
      rw [List.mem_singleton.mp hev]
      have hwritten : sampleEvent ∈ sampleReceived.written :=
        List.mem_filterMap.mpr ⟨_, List.mem_append_right _ (List.mem_singleton_self _), rfl⟩
      exact ⟨rfl, sampleEvent, hwritten, sampleForwarding.verifier.now, hverify⟩
    rw [← hdb] at hfirst
    refine ⟨hended, .write hverified hfirst, fun r hr => .inr ?_⟩
    have hr : r ∈ db₁.event.rows := hr
    rw [hrows₁, List.mem_singleton] at hr
    show sampleOpened.highest < r.1
    rw [hhighest, hr]
    exact Nat.one_pos
  obtain ⟨hoffer, hrouter, hdb₁, hhigh⟩ := freshStep_offerFriends (s := sampleStored db₁) rfl hended
  have hother : FreshStep sampleForwarding (offerFriends (sampleStored db₁))
      ((offerFriends (sampleStored db₁)).committed db₂) := by
    have htxn : (offerFriends (sampleStored db₁)).db = db₁ := hdb₁
    rw [← htxn] at hsecond
    refine ⟨hgoesOn, .other (.write .insertion {} Stream.submitted_localNote hsecond), fun r hr => ?_⟩
    have hr : r ∈ db₂.event.rows := hr
    rw [hrows₂, List.mem_cons, List.mem_singleton] at hr
    rcases hr with rfl | rfl
    · left
      show (1, c.1) ∈ (offerFriends (sampleStored db₁)).db.event.rows
      rw [htxn, hrows₁]
      exact List.mem_singleton_self _
    · right
      show (offerFriends (sampleStored db₁)).highest < 2
      rw [hhigh]
      show max sampleOpened.highest db₁.event.lastKey < 2
      have hlast : db₁.event.lastKey = 1 := by
        rw [Table.lastKey, hrows₁]
        rfl
      rw [hhighest, hlast]
      decide
  obtain ⟨hagain, -⟩ := freshStep_offerFriends (s := (offerFriends (sampleStored db₁)).committed db₂) hrouter hgoesOn
  have hrun := (((((Relation.ReflTransGen.single hopen).tail hmessage).tail hwrite).tail hoffer).tail
    hother).tail hagain
  exact ⟨c.1, _, hrun, hdown, exists_sentOn_of_sentOnSeven hfirstSent,
    exists_sentOn_of_sentOnSeven hsecondSent⟩

theorem sent_in_order_sample : ∃ s : Forwarder, (∃ e ∈ s.log, ∃ p, e.SentOn 7 (1, p)) ∧
    (∃ e ∈ s.log, ∃ p, e.SentOn 7 (2, p)) ∧ EachAfter InOrderAfter s.log := by
  obtain ⟨p, s, hrun, -, hfirst, hsecond⟩ := exists_sampleRun
  exact ⟨s, hfirst, hsecond, sent_in_order hrun⟩

theorem forwards_exactly_sample : ∃ s : Forwarder, (∃ e ∈ s.log, ∃ p, e.SentOn 7 (1, p)) ∧
    (∃ e ∈ s.log, ∃ p, e.SentOn 7 (2, p)) ∧ ForwardsExactly sampleForwarding Db.init s := by
  obtain ⟨p, s, hrun, -, hfirst, hsecond⟩ := exists_sampleRun
  exact ⟨s, hfirst, hsecond, forwards_exactly hrun⟩

theorem written_from_down_sample : ∃ (p : PackedEvent) (s : Forwarder), s.downloaded = [(1, p)] ∧
    (∀ r ∈ s.downloaded, CameIn sampleForwarding s.log r) ∧
    EachAfter (OfferedAfter sampleForwarding s.downloaded) s.log := by
  obtain ⟨p, s, hrun, hdown, -⟩ := exists_sampleRun
  exact ⟨p, s, hdown, written_from_down .refl hrun⟩

end Forwarder

end Strfry
