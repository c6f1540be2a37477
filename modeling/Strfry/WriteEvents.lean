import Strfry.NegentropyCache
import Strfry.Lib.Sort

/-!
# Writing a batch of events

`writeEvents` sorts the batch by `created_at` and id and handles the events one by one. An event
is refused as a duplicate, as deleted or as replaced, or it is inserted; then the events it
replaces or deletes are removed. `writeOne` is one iteration of the loop.

`Targets` says which stored events a written event removes, in terms of the two events alone.
`writeOne_spec` describes an iteration on a store that satisfies `StoreInv`: the four outcomes,
each with the reason for it, and the rows of the store afterwards.
-/

set_option autoImplicit false

namespace Strfry

open Lib

/-- `EventWriteStatus`. -/
inductive EventWriteStatus
  | pending
  | written
  | duplicate
  | replaced
  | deleted
  deriving DecidableEq

/-- `EventToWrite`; the packed string is its content. `userData` is the position of the message
that the pointer of the source leads to. -/
structure EventToWrite where
  packed : PackedEvent
  jsonStr : Bytes
  status : EventWriteStatus := .pending
  levId : Nat := 0
  userData : Nat := 0

/-- The order in which a batch is handled. -/
def EventToWrite.before (a b : EventToWrite) : Bool :=
  if a.packed.createdAt = b.packed.createdAt then a.packed.id < b.packed.id
  else a.packed.createdAt < b.packed.createdAt

/-- The first event wins over the second at the same address. -/
def beats (p other : PackedEvent) : Bool :=
  other.createdAt < p.createdAt || (other.createdAt == p.createdAt && decide (p.id < other.id))

/-- The value `replace` of the source: the first `d` tag of an event of a replacing kind. -/
def replaceTag (p : PackedEvent) : Option Bytes :=
  if isReplaceableKind p.kind || isParamReplaceableKind p.kind then p.firstD else none

/-- `ParsedKey_StringUint64`: the last eight bytes are the integer. -/
def parseKey (k : Bytes) : Bytes × Nat :=
  (k.take (k.length - 8), ofLeBytes (k.drop (k.length - 8)))

/-- The callback of the search in the index `replace`, on the entry found: the levId to delete,
or `none` when the event itself is replaced. -/
def replaceEntry (st : Store) (p : PackedEvent) (searchStr : Bytes) (e : Entry Bytes) :
    Except Err (List Nat × Bool) :=
  if parseKey e.key = (searchStr, p.kind) then do
    let other ← st.lookupEventByLevId e.row
    if beats p other then .ok ([e.row], false) else .ok ([], true)
  else .ok ([], false)

/-- The replacement part of an iteration: the levIds to delete, and whether the event is replaced
by a stored one. -/
def replaceStep (st : Store) (p : PackedEvent) : Except Err (List Nat × Bool) :=
  match replaceTag p with
  | none => .ok ([], false)
  | some d =>
    match st.seekReplace (p.pubkey ++ d ++ le64 p.kind) with
    | none => .ok ([], false)
    | some e => replaceEntry st p (p.pubkey ++ d) e

/-- The deletion part of an iteration: the levIds of the author's events that a kind 5 event
lists. -/
def deletionStep (ord : IndexOrder) (st : Store) (p : PackedEvent) : List Nat :=
  if p.kind = 5 then
    p.tags.filterMap fun t =>
      if t.1 = tagE then
        match st.lookupEventById ord t.2 with
        | some r => if r.2.pubkey = p.pubkey then some r.1 else none
        | none => none
      else none
  else []

/-- One iteration of the loop over the batch. `levIdsToDelete` is carried from one iteration to
the next, and is not looked at when an iteration ends with `continue`. -/
def writeOne (ord : IndexOrder) (filters : List FilterInfo) (prevId : Option Bytes) (db : Db)
    (levIdsToDelete : List Nat) (ev : EventToWrite) :
    Except Err (Db × List Nat × EventToWrite) :=
  let packed := ev.packed
  if (db.lookupEventById ord packed.id).isSome || prevId == some packed.id then
    .ok (db, levIdsToDelete, { ev with status := .duplicate })
  else if (db.lookupDeletion (packed.id ++ packed.pubkey)).isSome then
    .ok (db, levIdsToDelete, { ev with status := .deleted })
  else do
    let (replacedIds, isReplaced) ← replaceStep db.toStore packed
    let status := if isReplaced then .replaced else ev.status
    let toDelete := levIdsToDelete ++ replacedIds ++ deletionStep ord db.toStore packed
    if status = .pending then
      let r := db.insertEvent filters packed ev.jsonStr
      .ok ((r.2.deleteLoop filters toDelete).1, [], { ev with status := .written, levId := r.1 })
    else if toDelete ≠ [] then .error (.herr "unprocessed deletion")
    else .ok (db, toDelete, { ev with status := status })

/-- The loop over the sorted batch. -/
def writeLoop (ord : IndexOrder) (filters : List FilterInfo) :
    Option Bytes → Db → List Nat → List EventToWrite → Except Err (Db × List EventToWrite)
  | _, db, _, [] => .ok (db, [])
  | prevId, db, levIdsToDelete, ev :: rest => do
    let (db', levIdsToDelete', ev') ← writeOne ord filters prevId db levIdsToDelete ev
    let (db'', rest') ← writeLoop ord filters (some ev.packed.id) db' levIdsToDelete' rest
    .ok (db'', ev' :: rest')

/-- `writeEvents`: the cache, and the database and the batch afterwards. -/
def writeEvents (S : StdSort) (ord : IndexOrder) (hex : HexCodec) (text : JsonText)
    (cache : NegentropyFilterCache) (db : Db) (evs : List EventToWrite) :
    NegentropyFilterCache × Except Err (Db × List EventToWrite) :=
  let sorted := S.sort EventToWrite.before evs
  match cache.freshen hex text db with
  | (cache', .error e) => (cache', .error e)
  | (cache', .ok ()) => (cache', writeLoop ord cache'.filters none db [] sorted)

/-! ## What a written event removes -/

/-- Two events at one address: same replacing kind, author and first `d` tag. -/
def SameAddress (a b : PackedEvent) : Prop :=
  isReplacing a.kind = true ∧ a.kind = b.kind ∧ a.pubkey = b.pubkey ∧ a.firstD = b.firstD

/-- `d` is a deletion by the author of `e` that lists `e`. -/
def Deletes (d e : PackedEvent) : Prop :=
  d.kind = 5 ∧ d.pubkey = e.pubkey ∧ (tagE, e.id) ∈ d.tags

/-- The stored events that the written event `w` removes. -/
def Targets (w e : PackedEvent) : Prop :=
  Deletes w e ∨ (SameAddress w e ∧ beats w e = true)

theorem SameAddress.symm {a b : PackedEvent} (h : SameAddress a b) : SameAddress b a :=
  ⟨h.2.1 ▸ h.1, h.2.1.symm, h.2.2.1.symm, h.2.2.2.symm⟩

theorem SameAddress.trans {a b c : PackedEvent} (h : SameAddress a b) (h' : SameAddress b c) :
    SameAddress a c :=
  ⟨h.1, h.2.1.trans h'.2.1, h.2.2.1.trans h'.2.2.1, h.2.2.2.trans h'.2.2.2⟩

theorem beats_iff {p other : PackedEvent} :
    beats p other = true ↔ other.createdAt < p.createdAt ∨
      (other.createdAt = p.createdAt ∧ p.id < other.id) := by
  simp [beats]

/-- Of two events with different ids, exactly one wins. -/
theorem beats_or_beats {p q : PackedEvent} (h : p.id ≠ q.id) :
    beats p q = true ∨ beats q p = true := by
  simp only [beats_iff]
  rcases lt_trichotomy p.createdAt q.createdAt with hlt | heq | hlt
  · exact Or.inr (Or.inl hlt)
  · rcases lt_or_gt_of_ne h with hid | hid
    · exact Or.inl (Or.inr ⟨heq.symm, hid⟩)
    · exact Or.inr (Or.inr ⟨heq, hid⟩)
  · exact Or.inl (Or.inl hlt)

theorem not_beats_self (p : PackedEvent) : beats p p = false := by
  simp [beats]

theorem beats_trans {a b c : PackedEvent} (hab : beats a b = true) (hbc : beats b c = true) :
    beats a c = true := by
  rw [beats_iff] at hab hbc ⊢
  rcases hab with hab | ⟨hab, hid⟩ <;> rcases hbc with hbc | ⟨hbc, hid'⟩
  · exact Or.inl (hbc.trans hab)
  · exact Or.inl (hbc ▸ hab)
  · exact Or.inl (hab ▸ hbc)
  · exact Or.inr ⟨hbc.trans hab, hid.trans hid'⟩

theorem beats_asymm {a b : PackedEvent} (hab : beats a b = true) : beats b a = false := by
  by_contra hba
  have := beats_trans hab (Bool.not_eq_false _ ▸ hba)
  rw [not_beats_self] at this
  cases this

/-- A kind 5 event replaces nothing. -/
theorem not_isReplacing_five : isReplacing 5 = false := by decide

/-! ## One iteration -/

/-- What holds of every store that `writeEvents` and `deleteEvents` reach. -/
structure StoreInv (st : Store) : Prop where
  wellPacked : ∀ r ∈ st.event.rows, WellPacked r.2
  uniqueIds : st.UniqueIds
  uniqueAddress : ∀ a b : Nat × PackedEvent, a ∈ st.event.rows → b ∈ st.event.rows →
    SameAddress a.2 b.2 → a = b
  noDeleted : ∀ d e : Nat × PackedEvent, d ∈ st.event.rows → e ∈ st.event.rows → d ≠ e →
    ¬ Deletes d.2 e.2
  payload : ∀ levId, (st.eventPayload.get? levId).isSome = (st.event.get? levId).isSome

theorem parseKey_append {s : Bytes} {n : Nat} (hn : n < 2 ^ 64) :
    parseKey (s ++ le64 n) = (s, n) := by
  have hlen : (s ++ le64 n).length - 8 = s.length := by simp
  rw [parseKey, hlen, List.take_left, List.drop_left, ofLeBytes_le64 hn]

/-- The key of an event in the index `replace`, parsed again. -/
theorem parseKey_replaceKey {q : PackedEvent} {k : Bytes} (h : q.replaceKey = some k) :
    ∃ d, q.firstD = some d ∧ parseKey k = (q.pubkey ++ d, q.kind) := by
  obtain ⟨d, hd, rfl⟩ := Option.map_eq_some_iff.1 h
  exact ⟨d, hd, parseKey_append q.kind_lt⟩

/-- An index entry with the search key of `p` belongs to an event at the address of `p`. -/
theorem sameAddress_of_parseKey {p q : PackedEvent} {k d : Bytes} (hk : q.replaceKey = some k)
    (hr : isReplacing p.kind = true) (hd : p.firstD = some d)
    (h : parseKey k = (p.pubkey ++ d, p.kind)) : SameAddress p q := by
  obtain ⟨d', hd', hparse⟩ := parseKey_replaceKey hk
  rw [hparse, Prod.mk.injEq] at h
  obtain ⟨hpk, hdd⟩ := List.append_inj h.1 (q.pubkey_size.trans p.pubkey_size.symm)
  exact ⟨hr, h.2.symm, hpk.symm, by rw [hd, hd', hdd]⟩

theorem replaceTag_eq {p : PackedEvent} (hw : WellPacked p) (hr : isReplacing p.kind = true) :
    ∃ d, p.firstD = some d ∧ replaceTag p = some d := by
  obtain ⟨d, hd⟩ := hw.firstD_isSome hr
  refine ⟨d, hd, ?_⟩
  rw [isReplacing] at hr
  rw [replaceTag, if_pos hr, hd]

/-- With an event at the address, the search in the index `replace` finds it. -/
theorem seekReplace_of_stored {st : Store} (hinv : StoreInv st) {p : PackedEvent}
    (hw : WellPacked p) {r : Nat × PackedEvent} (hr : r ∈ st.event.rows)
    (hsame : SameAddress p r.2) : ∃ d e, replaceTag p = some d ∧
      st.seekReplace (p.pubkey ++ d ++ le64 p.kind) = some e ∧
      parseKey e.key = (p.pubkey ++ d, p.kind) ∧ e.row = r.1 := by
  obtain ⟨d, hd, htag⟩ := replaceTag_eq hw hsame.1
  have hkey : r.2.replaceKey = some (p.pubkey ++ d ++ le64 p.kind) := by
    rw [PackedEvent.replaceKey, ← hsame.2.2.2, hd, Option.map_some, ← hsame.2.2.1, ← hsame.2.1]
  obtain ⟨e, he, hek⟩ := Store.seekReplace_key r.1 hr hkey
  obtain ⟨q, hq, hqk⟩ := Store.seekReplace_sound he
  have hparse : parseKey e.key = (p.pubkey ++ d, p.kind) := by
    rw [hek]
    exact parseKey_append p.kind_lt
  have hqr : (e.row, q) = r := hinv.uniqueAddress _ _ hq hr
    ((sameAddress_of_parseKey hqk hsame.1 hd hparse).symm.trans hsame)
  exact ⟨d, e, htag, he, hparse, congrArg Prod.fst hqr⟩

/-- With an event at the address, the search finds it and compares. -/
theorem replaceStep_of_stored {st : Store} (hinv : StoreInv st) {p : PackedEvent}
    (hw : WellPacked p) {r : Nat × PackedEvent} (hr : r ∈ st.event.rows)
    (hsame : SameAddress p r.2) :
    replaceStep st p = .ok (if beats p r.2 then ([r.1], false) else ([], true)) := by
  obtain ⟨d, e, htag, he, hparse, hrow⟩ := seekReplace_of_stored hinv hw hr hsame
  have hlook : st.lookupEventByLevId r.1 = .ok r.2 := by
    rw [Store.lookupEventByLevId, Table.get?_eq_some_iff.2 hr]
  unfold replaceStep
  rw [htag]
  simp only [he, replaceEntry, hparse, if_true, hrow, hlook]
  show (if beats p r.2 then _ else _) = _
  split <;> rfl

/-- With no event at the address, there is nothing to replace. -/
theorem replaceStep_of_none {st : Store} {p : PackedEvent} (hw : WellPacked p)
    (hnone : ∀ r ∈ st.event.rows, ¬ SameAddress p r.2) : replaceStep st p = .ok ([], false) := by
  unfold replaceStep
  cases hr : isReplacing p.kind with
  | false =>
    have htag : replaceTag p = none := by
      rw [replaceTag, if_neg]
      exact Bool.not_eq_true _ ▸ hr
    rw [htag]
  | true =>
    obtain ⟨d, hd, htag⟩ := replaceTag_eq hw hr
    rw [htag]
    cases he : st.seekReplace (p.pubkey ++ d ++ le64 p.kind) with
    | none => simp only [he]
    | some e =>
      obtain ⟨q, hq, hqk⟩ := Store.seekReplace_sound he
      simp only [he]
      rw [replaceEntry, if_neg]
      intro hparse
      exact hnone _ hq (sameAddress_of_parseKey hqk hr hd hparse)

/-- The levIds that a kind 5 event collects are those of the events it deletes. -/
theorem mem_deletionStep {ord : IndexOrder} {st : Store} (hu : st.UniqueIds) {p : PackedEvent}
    (hw : WellPacked p) {levId : Nat} :
    levId ∈ deletionStep ord st p ↔ ∃ e, (levId, e) ∈ st.event.rows ∧ Deletes p e := by
  unfold deletionStep
  split
  · rename_i hk
    rw [List.mem_filterMap]
    constructor
    · rintro ⟨t, ht, h⟩
      split at h
      · rename_i hname
        have hlen : t.2.length = 32 := hw.fixed_size t ht (Or.inl hname)
        split at h
        · rename_i r hr
          obtain ⟨hmem, hid⟩ := Store.lookupEventById_sound hlen hr
          split at h
          · rename_i hpk
            cases h
            refine ⟨r.2, hmem, hk, hpk.symm, ?_⟩
            rw [hid, ← hname]
            exact ht
          · cases h
        · cases h
      · cases h
    · rintro ⟨e, he, -, hpk, ht⟩
      refine ⟨_, ht, ?_⟩
      have hr : st.lookupEventById ord e.id = some (levId, e) :=
        (Store.lookupEventById_eq_some_iff hu e.id_size).2 ⟨he, rfl⟩
      simp [hr, hpk]
  · rename_i hk
    simp only [List.not_mem_nil, false_iff]
    rintro ⟨e, -, h, -⟩
    exact hk h

/-- The four outcomes of an iteration, with their reasons. -/
inductive WriteOutcome (filters : List FilterInfo) (prevId : Option Bytes) (db : Db)
    (ev : EventToWrite) : Db → EventToWrite → Prop
  | duplicate :
      ((∃ r ∈ db.event.rows, r.2.id = ev.packed.id) ∨ prevId = some ev.packed.id) →
      WriteOutcome filters prevId db ev db { ev with status := .duplicate }
  | deleted :
      (∀ r ∈ db.event.rows, r.2.id ≠ ev.packed.id) →
      (∃ r ∈ db.event.rows, Deletes r.2 ev.packed) →
      WriteOutcome filters prevId db ev db { ev with status := .deleted }
  | replaced (r : Nat × PackedEvent) :
      (∀ r ∈ db.event.rows, r.2.id ≠ ev.packed.id) →
      r ∈ db.event.rows → SameAddress ev.packed r.2 → beats ev.packed r.2 = false →
      WriteOutcome filters prevId db ev db { ev with status := .replaced }
  | written (toDelete : List Nat) :
      (∀ r ∈ db.event.rows, r.2.id ≠ ev.packed.id) →
      (∀ r ∈ db.event.rows, ¬ Deletes r.2 ev.packed) →
      (∀ r ∈ db.event.rows, SameAddress ev.packed r.2 → beats ev.packed r.2 = true) →
      (∀ levId, levId ∈ toDelete ↔ ∃ e, (levId, e) ∈ db.event.rows ∧ Targets ev.packed e) →
      WriteOutcome filters prevId db ev
        ((db.insertEvent filters ev.packed ev.jsonStr).2.deleteLoop filters toDelete).1
        { ev with status := .written, levId := db.event.lastKey + 1 }

/-- An iteration on a store that satisfies the invariant, with no deletion left over from the
iterations before it: it ends without an exception and leaves no deletion over. -/
theorem writeOne_spec (ord : IndexOrder) (filters : List FilterInfo) (prevId : Option Bytes)
    {db : Db} (hinv : StoreInv db.toStore) {ev : EventToWrite} (hw : WellPacked ev.packed)
    (hp : ev.status = .pending) :
    ∃ db' ev', writeOne ord filters prevId db [] ev = .ok (db', [], ev') ∧
      WriteOutcome filters prevId db ev db' ev' := by
  by_cases hdup : ((db.lookupEventById ord ev.packed.id).isSome || prevId == some ev.packed.id) = true
  · refine ⟨db, _, by rw [writeOne, if_pos hdup], .duplicate ?_⟩
    rcases Bool.or_eq_true_iff.1 hdup with h | h
    · exact Or.inl ((Store.lookupEventById_isSome_iff ord ev.packed.id_size).1 h)
    · exact Or.inr (beq_iff_eq.1 h)
  · have hfresh : ∀ r ∈ db.event.rows, r.2.id ≠ ev.packed.id := by
      intro r hr hid
      rw [Bool.not_eq_true, Bool.or_eq_false_iff] at hdup
      have := (Store.lookupEventById_isSome_iff ord ev.packed.id_size).2 ⟨r, hr, hid⟩
      rw [hdup.1] at this
      cases this
    have hdelIff := Store.lookupDeletion_isSome_iff hinv.wellPacked ev.packed.id_size
      ev.packed.pubkey
    by_cases hdel : (db.lookupDeletion (ev.packed.id ++ ev.packed.pubkey)).isSome = true
    · obtain ⟨r, hr, hk, ht, hpk⟩ := hdelIff.1 hdel
      exact ⟨db, _, by rw [writeOne, if_neg hdup, if_pos hdel],
        .deleted hfresh ⟨r, hr, hk, hpk, ht⟩⟩
    · have hnodel : ∀ r ∈ db.event.rows, ¬ Deletes r.2 ev.packed := by
        rintro r hr ⟨hk, hpk, ht⟩
        exact hdel (hdelIff.2 ⟨r, hr, hk, ht, hpk⟩)
      by_cases haddr : ∃ r ∈ db.event.rows, SameAddress ev.packed r.2
      · obtain ⟨r, hr, hsame⟩ := haddr
        have hstep := replaceStep_of_stored hinv hw hr hsame
        have honly : ∀ r' ∈ db.event.rows, SameAddress ev.packed r'.2 → r' = r :=
          fun r' hr' hs => hinv.uniqueAddress _ _ hr' hr (hs.symm.trans hsame)
        -- an event of a replacing kind deletes nothing by its `e` tags
        have hnot5 : ev.packed.kind ≠ 5 := by
          intro h5
          have := hsame.1
          rw [h5, not_isReplacing_five] at this
          cases this
        have hdstep : deletionStep ord db.toStore ev.packed = [] := if_neg hnot5
        cases hb : beats ev.packed r.2 with
        | false =>
          rw [hb] at hstep
          refine ⟨db, _, ?_, .replaced r hfresh hr hsame hb⟩
          rw [writeOne, if_neg hdup, if_neg hdel, hstep, hdstep]
          rfl
        | true =>
          rw [hb] at hstep
          refine ⟨_, _, ?_, .written [r.1] hfresh hnodel ?_ ?_⟩
          · rw [writeOne, if_neg hdup, if_neg hdel, hstep, hdstep]
            simp only [if_true, bind, Except.bind, List.nil_append, List.append_nil,
              Bool.false_eq_true, if_false, hp]
            rfl
          · intro r' hr' hs
            rw [honly r' hr' hs]
            exact hb
          · intro levId
            rw [List.mem_singleton]
            constructor
            · rintro rfl
              exact ⟨r.2, hr, Or.inr ⟨hsame, hb⟩⟩
            · rintro ⟨e, he, htgt⟩
              rcases htgt with ⟨h5, -, -⟩ | ⟨hs, -⟩
              · exact absurd h5 hnot5
              · exact congrArg Prod.fst (honly _ he hs)
      · have hnone : ∀ r ∈ db.event.rows, ¬ SameAddress ev.packed r.2 :=
          fun r hr hs => haddr ⟨r, hr, hs⟩
        refine ⟨_, _, ?_, .written (deletionStep ord db.toStore ev.packed) hfresh hnodel
          (fun r hr hs => absurd hs (hnone r hr)) ?_⟩
        · rw [writeOne, if_neg hdup, if_neg hdel, replaceStep_of_none hw hnone]
          simp only [bind, Except.bind, List.nil_append, Bool.false_eq_true, if_false, hp, if_true]
          rfl
        · intro levId
          rw [mem_deletionStep hinv.uniqueIds hw]
          constructor
          · rintro ⟨e, he, hd⟩
            exact ⟨e, he, Or.inl hd⟩
          · rintro ⟨e, he, hd | hs⟩
            · exact ⟨e, he, hd⟩
            · exact absurd hs.1 (hnone _ he)

end Strfry
