import Strfry.Events
import Strfry.Lib.Table
import Strfry.Lib.OrderedIndex

/-!
# The event store

The `Event` table holds the packed events under their levIds, `EventPayload` their JSON. The
indices of `golpe.yaml` are functions of the `Event` table: `indexKeys` is the `indexPrelude`.
The framework keeps them in step with the table, and its comparators order their string parts;
that order is the parameter `IndexOrder`. The index `replace` has no comparator and is ordered
by its whole key.

Each lookup has one lemma that says what it finds: `lookupEventById_isSome_iff`,
`lookupDeletion_isSome_iff` and `seekReplace_key`.
-/

set_option autoImplicit false

namespace Strfry

open Lib

/-- The indices of the `Event` table that queries use. -/
inductive QueryIndex
  | createdAt
  | id
  | pubkey
  | kind
  | pubkeyKind
  | tag
  deriving DecidableEq

/-- The order of the string parts in each index. -/
abbrev IndexOrder := QueryIndex → LinearOrder Bytes

/-- Byte order in every index. -/
abbrev byteOrder : IndexOrder := fun _ => inferInstance

namespace PackedEvent

/-- The `indexPrelude` for the query indices: string part and integer part of each key. -/
def indexKeys (p : PackedEvent) : QueryIndex → List (Bytes × Nat)
  | .createdAt => [([], p.createdAt)]
  | .id => [(p.id, p.createdAt)]
  | .pubkey => [(p.pubkey, p.createdAt)]
  | .kind => [(le64 p.kind, p.createdAt)]
  | .pubkeyKind => [(p.pubkey ++ le64 p.kind, p.createdAt)]
  | .tag => p.tags.map fun t => (t.1 :: t.2, p.createdAt)

/-- The key in the index `replace`: pubkey and first `d` tag, then the kind. -/
def replaceKey (p : PackedEvent) : Option Bytes :=
  p.firstD.map fun d => p.pubkey ++ d ++ le64 p.kind

/-- The keys in the index `deletion`: the `e` tags of a kind 5 event, each with its pubkey. -/
def deletionKeys (p : PackedEvent) : List Bytes :=
  if p.kind = 5 then (p.tags.filter fun t => t.1 == tagE).map fun t => t.2 ++ p.pubkey else []

theorem num_of_mem_indexKeys {p : PackedEvent} {i : QueryIndex} {k : Bytes × Nat}
    (h : k ∈ p.indexKeys i) : k.2 = p.createdAt := by
  cases i with
  | tag =>
    obtain ⟨t, -, rfl⟩ := List.mem_map.1 h
    rfl
  | _ =>
    rw [List.mem_singleton.1 h]

end PackedEvent

/-- The tables `Event` and `EventPayload`. -/
structure Store where
  event : Table PackedEvent
  eventPayload : Table Bytes

namespace Store

def empty : Store := ⟨Table.empty, Table.empty⟩

/-- The entries of a query index. -/
def index (st : Store) (i : QueryIndex) : List (Entry Bytes) :=
  st.event.rows.flatMap fun r => (r.2.indexKeys i).map fun k => ⟨k.1, k.2, (r.1 : Nat)⟩

theorem mem_index {st : Store} {i : QueryIndex} {e : Entry Bytes} :
    e ∈ st.index i ↔ ∃ levId p, (levId, p) ∈ st.event.rows ∧ (e.key, e.num) ∈ p.indexKeys i ∧
      e.val = (levId : Nat) := by
  simp only [index, List.mem_flatMap, List.mem_map, Prod.exists]
  constructor
  · rintro ⟨levId, p, hr, k, n, hk, rfl⟩
    exact ⟨levId, p, hr, hk, rfl⟩
  · rintro ⟨levId, p, hr, hk, hv⟩
    refine ⟨levId, p, hr, e.key, e.num, hk, ?_⟩
    cases e
    simp_all

/-- The entries of the index `replace`. -/
def replaceIndex (st : Store) : List (Entry Bytes) :=
  st.event.rows.filterMap fun r => r.2.replaceKey.map fun k => ⟨k, 0, (r.1 : Nat)⟩

/-- `lookupEventById`: the first entry of the index `id` at or after the id. -/
def lookupEventById (ord : IndexOrder) (st : Store) (id : Bytes) : Option (Nat × PackedEvent) :=
  match (@ascFrom _ (@Entry.instLinearOrder _ (ord .id)) (st.index .id) ⟨id, 0, (0 : Nat)⟩).head? with
  | none => none
  | some e =>
    if id.isPrefixOf (e.key ++ le64 e.num) then (st.event.get? e.row).map fun p => (e.row, p)
    else none

/-- `lookupEventByLevId`. -/
def lookupEventByLevId (st : Store) (levId : Nat) : Except Err PackedEvent :=
  match st.event.get? levId with
  | none => .error (.herr "unable to lookup event by levId")
  | some p => .ok p

/-- `getMostRecentLevId`. -/
def getMostRecentLevId (st : Store) : Nat := st.event.lastKey

/-- `lookup_Event__deletion`: the first event with the key in the index `deletion`. -/
def lookupDeletion (st : Store) (key : Bytes) : Option (Nat × PackedEvent) :=
  st.event.rows.find? fun r => r.2.deletionKeys.contains key

/-- The single entry of the index `replace` that `writeEvents` looks at: the last one at or
before the search key. -/
def seekReplace (st : Store) (searchKey : Bytes) : Option (Entry Bytes) :=
  (descFrom st.replaceIndex ⟨searchKey, 0, ⊤⟩).head?

/-- `insert_Event` and the payload that goes with it. -/
def insertEvent (st : Store) (packed : PackedEvent) (json : Bytes) : Nat × Store :=
  let r := st.event.insertNext packed
  (r.1, ⟨r.2, st.eventPayload.put r.1 (0 :: json)⟩)

/-- `deleteEventBasic`. -/
def deleteEventBasic (st : Store) (levId : Nat) : Store :=
  ⟨st.event.del levId, st.eventPayload.del levId⟩

/-- No two stored events have the same id. -/
def UniqueIds (st : Store) : Prop :=
  ∀ a b : Nat × PackedEvent, a ∈ st.event.rows → b ∈ st.event.rows → a.2.id = b.2.id → a = b

/-! ## What the lookups find -/

theorem lookupEventById_sound {ord : IndexOrder} {st : Store} {id : Bytes} (hid : id.length = 32)
    {r : Nat × PackedEvent} (h : st.lookupEventById ord id = some r) :
    r ∈ st.event.rows ∧ r.2.id = id := by
  unfold lookupEventById at h
  split at h
  · cases h
  · rename_i e he
    split at h
    · rename_i hpre
      obtain ⟨p, hp, rfl⟩ := Option.map_eq_some_iff.1 h
      have hmem := (@mem_ascFrom _ (@Entry.instLinearOrder _ (ord .id)) _ _ _).1
        (List.mem_of_mem_head? he)
      obtain ⟨levId, q, hq, hk, hv⟩ := mem_index.1 hmem.1
      simp only [PackedEvent.indexKeys, List.mem_singleton, Prod.mk.injEq] at hk
      have hrow : e.row = levId := by
        rw [Entry.row, hv]
        rfl
      have hpq : p = q := by
        rw [hrow] at hp
        exact Table.eq_of_mem (Table.get?_eq_some_iff.1 hp) hq
      have hkey : e.key = id := by
        rw [isPrefixOf_append_iff (by rw [hk.1, q.id_size, hid])] at hpre
        exact hpre
      rw [hrow, hpq]
      exact ⟨hq, by rw [← hk.1, hkey]⟩
    · cases h

/-- A lookup by id finds an event exactly when one with that id is stored. -/
theorem lookupEventById_isSome_iff (ord : IndexOrder) {st : Store} {id : Bytes}
    (hid : id.length = 32) :
    (st.lookupEventById ord id).isSome ↔ ∃ r ∈ st.event.rows, r.2.id = id := by
  constructor
  · intro h
    obtain ⟨r, hr⟩ := Option.isSome_iff_exists.1 h
    exact ⟨r, lookupEventById_sound hid hr⟩
  · rintro ⟨⟨levId, p⟩, hr, rfl⟩
    let _ := ord .id
    have hentry : (⟨p.id, p.createdAt, (levId : Nat)⟩ : Entry Bytes) ∈ st.index .id :=
      mem_index.2 ⟨levId, p, hr, by simp [PackedEvent.indexKeys], rfl⟩
    have hge : (⟨p.id, 0, (0 : Nat)⟩ : Entry Bytes) ≤ ⟨p.id, p.createdAt, (levId : Nat)⟩ := by
      refine Entry.le_iff.2 (Or.inr ⟨rfl, ?_⟩)
      rcases Nat.eq_zero_or_pos p.createdAt with h0 | h0
      · exact Or.inr ⟨h0.symm, by simp⟩
      · exact Or.inl h0
    obtain ⟨e, he⟩ : ∃ e, (ascFrom (st.index .id) ⟨p.id, 0, (0 : Nat)⟩).head? = some e := by
      rw [← Option.isSome_iff_exists, List.isSome_head?]
      intro hnil
      have := mem_ascFrom.2 ⟨hentry, hge⟩
      rw [hnil] at this
      cases this
    obtain ⟨hmem, hle, hmin⟩ := head?_ascFrom_eq_some_iff.1 he
    -- the entry found lies between the start position and an entry with the same string part
    have hkey : e.key = p.id :=
      le_antisymm (Entry.key_le_of_le (hmin _ hentry hge)) (Entry.key_le_of_le hle)
    obtain ⟨levId', q, hq, hk, hv⟩ := mem_index.1 hmem
    have hrow : e.row = levId' := by
      rw [Entry.row, hv]
      rfl
    have hget : st.event.get? e.row = some q := by
      rw [hrow]
      exact Table.get?_eq_some_iff.2 hq
    unfold lookupEventById
    rw [he]
    simp only [(isPrefixOf_append_iff (by rw [hkey])).2 hkey, if_true, hget, Option.map_some,
      Option.isSome_some]

theorem lookupEventById_eq_some_iff {ord : IndexOrder} {st : Store} (hu : st.UniqueIds)
    {id : Bytes} (hid : id.length = 32) {r : Nat × PackedEvent} :
    st.lookupEventById ord id = some r ↔ r ∈ st.event.rows ∧ r.2.id = id := by
  constructor
  · exact lookupEventById_sound hid
  · intro h
    obtain ⟨r', hr'⟩ := Option.isSome_iff_exists.1
      ((lookupEventById_isSome_iff ord hid).2 ⟨r, h⟩)
    have hs := lookupEventById_sound hid hr'
    rw [hr', hu r' r hs.1 h.1 (hs.2.trans h.2.symm)]

theorem mem_deletionKeys {d : PackedEvent} (hd : WellPacked d) {id pubkey : Bytes}
    (hid : id.length = 32) :
    id ++ pubkey ∈ d.deletionKeys ↔ d.kind = 5 ∧ (tagE, id) ∈ d.tags ∧ d.pubkey = pubkey := by
  unfold PackedEvent.deletionKeys
  split
  · rename_i hk
    simp only [List.mem_map, List.mem_filter, beq_iff_eq, Prod.exists, hk, true_and]
    constructor
    · rintro ⟨name, v, ⟨hmem, hname⟩, heq⟩
      subst hname
      have hv : v.length = 32 := hd.fixed_size _ hmem (Or.inl rfl)
      obtain ⟨rfl, rfl⟩ := List.append_inj heq (hv.trans hid.symm)
      exact ⟨hmem, rfl⟩
    · rintro ⟨hmem, rfl⟩
      exact ⟨tagE, id, ⟨hmem, rfl⟩, rfl⟩
  · rename_i hk
    simp [hk]

/-- A lookup in the index `deletion` finds an event exactly when a kind 5 event by the author
that lists the id is stored. -/
theorem lookupDeletion_isSome_iff {st : Store} (hw : ∀ r ∈ st.event.rows, WellPacked r.2)
    {id : Bytes} (hid : id.length = 32) (pubkey : Bytes) :
    (st.lookupDeletion (id ++ pubkey)).isSome ↔
      ∃ r ∈ st.event.rows, r.2.kind = 5 ∧ (tagE, id) ∈ r.2.tags ∧ r.2.pubkey = pubkey := by
  rw [lookupDeletion, List.find?_isSome]
  constructor
  · rintro ⟨r, hr, hc⟩
    exact ⟨r, hr, (mem_deletionKeys (hw r hr) hid).1 (List.contains_iff_mem.1 hc)⟩
  · rintro ⟨r, hr, h⟩
    exact ⟨r, hr, List.contains_iff_mem.2 ((mem_deletionKeys (hw r hr) hid).2 h)⟩

theorem mem_replaceIndex {st : Store} {e : Entry Bytes} :
    e ∈ st.replaceIndex ↔ ∃ levId p, (levId, p) ∈ st.event.rows ∧ p.replaceKey = some e.key ∧
      e.num = 0 ∧ e.val = (levId : Nat) := by
  simp only [replaceIndex, List.mem_filterMap, Option.map_eq_some_iff, Prod.exists]
  constructor
  · rintro ⟨levId, p, hr, k, hk, rfl⟩
    exact ⟨levId, p, hr, hk, rfl, rfl⟩
  · rintro ⟨levId, p, hr, hk, hn, hv⟩
    refine ⟨levId, p, hr, e.key, hk, ?_⟩
    cases e
    simp_all

/-- The entry looked at has the search key whenever some event has it. -/
theorem seekReplace_key {st : Store} {key : Bytes} (levId : Nat) {p : PackedEvent}
    (hr : (levId, p) ∈ st.event.rows) (hk : p.replaceKey = some key) :
    ∃ e, st.seekReplace key = some e ∧ e.key = key := by
  have hentry : (⟨key, 0, (levId : Nat)⟩ : Entry Bytes) ∈ st.replaceIndex :=
    mem_replaceIndex.2 ⟨levId, p, hr, hk, rfl, rfl⟩
  have hle : (⟨key, 0, (levId : Nat)⟩ : Entry Bytes) ≤ ⟨key, 0, ⊤⟩ :=
    Entry.le_iff.2 (Or.inr ⟨rfl, Or.inr ⟨rfl, le_top⟩⟩)
  obtain ⟨e, he⟩ : ∃ e, (descFrom st.replaceIndex ⟨key, 0, ⊤⟩).head? = some e := by
    rw [← Option.isSome_iff_exists, List.isSome_head?]
    intro hnil
    have := mem_descFrom.2 ⟨hentry, hle⟩
    rw [hnil] at this
    cases this
  obtain ⟨-, hge, hmax⟩ := head?_descFrom_eq_some_iff.1 he
  exact ⟨e, he, le_antisymm (Entry.key_le_of_le hge) (Entry.key_le_of_le (hmax _ hentry hle))⟩

theorem seekReplace_sound {st : Store} {key : Bytes} {e : Entry Bytes}
    (h : st.seekReplace key = some e) :
    ∃ p, (e.row, p) ∈ st.event.rows ∧ p.replaceKey = some e.key := by
  obtain ⟨hmem, -, -⟩ := head?_descFrom_eq_some_iff.1 h
  obtain ⟨levId, p, hr, hk, -, hv⟩ := mem_replaceIndex.1 hmem
  have hrow : e.row = levId := by
    rw [Entry.row, hv]
    rfl
  exact ⟨p, hrow ▸ hr, hk⟩

end Store

end Strfry
