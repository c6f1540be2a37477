import Strfry.ScanState

/-!
# The plan of a scan

The constructor of `DBScan` picks one of six indices. Whichever it is, every event that matches the
filter has an entry under one of the strings of the plan (`planKey_of_doesMatch`), `keyMatch`
recognises these strings (`exact_make`), and where the index alone is to decide a match, an event
under one of them matches if its timestamp does (`doesMatch_of_planKey`).

Only the list of kinds of a filter is without a bound. With at most `2 ^ 24` kinds a plan has at
most `2 ^ 24` cursors (`numCursors_le`).
-/

set_option autoImplicit false

namespace Strfry

open Lib

/-- The rank of a stored event. -/
def rowRank (r : Nat × PackedEvent) : Nat ×ₗ Nat := toLex (r.2.createdAt, r.1)

theorem eq_none_of_isSome_toNat {α : Type} {o : Option α} (h : o.isSome.toNat = 0) : o = none := by
  cases o with
  | none => rfl
  | some a => cases h

/-- A filter with ids for which the index alone decides has nothing else to match. -/
theorem NostrFilter.WF.fields_of_ids {f : NostrFilter} (hf : f.WF) {s : FilterSetBytes}
    (hs : f.ids = some s) (hio : f.indexOnlyScans = true) :
    f.authors = none ∧ f.kinds = none ∧ f.tags = [] := by
  have h := hf.indexOnly hio
  simp only [NostrFilter.numMajor, hs, Option.isSome_some, Bool.toNat_true] at h
  rcases h with h | ⟨h, ha, hk⟩
  · exact ⟨eq_none_of_isSome_toNat (by omega), eq_none_of_isSome_toNat (by omega),
      List.length_eq_zero_iff.1 (by omega)⟩
  · rw [ha, hk, Bool.toNat_true] at h
    omega

/-- The same of a filter with tags, which has one tag only. -/
theorem NostrFilter.WF.fields_of_tag {f : NostrFilter} (hf : f.WF) {t : UInt8 × FilterSetBytes}
    (ht : t ∈ f.tags) (hio : f.indexOnlyScans = true) :
    f.tags = [t] ∧ f.authors = none ∧ f.kinds = none := by
  have h := hf.indexOnly hio
  have hlen : 0 < f.tags.length := List.length_pos_of_mem ht
  rw [NostrFilter.numMajor] at h
  rcases h with h | ⟨h, ha, hk⟩
  · refine ⟨?_, eq_none_of_isSome_toNat (by omega), eq_none_of_isSome_toNat (by omega)⟩
    obtain ⟨u, hu⟩ := List.length_eq_one_iff.1 (show f.tags.length = 1 by omega)
    rw [hu, List.mem_singleton] at ht
    rw [hu, ht]
  · rw [ha, hk, Bool.toNat_true] at h
    omega

namespace DBScan

/-- The number of cursors of the plan for a filter. -/
def numCursors (f : NostrFilter) : Nat := (plan f).2.2.length

/-- The event has an entry under one of the strings of the plan. -/
def PlanKey (f : NostrFilter) (p : PackedEvent) : Prop :=
  ∃ k ∈ p.indexKeys (plan f).1, k.1 ∈ (plan f).2.2

/-! ## The tag with the fewest values -/

theorem mem_of_smallestTag {ts : List (UInt8 × FilterSetBytes)} {n : Nat}
    {best : Option (UInt8 × FilterSetBytes)} {t : UInt8 × FilterSetBytes}
    (h : smallestTag ts n best = some t) : t ∈ ts ∨ best = some t := by
  induction ts generalizing n best with
  | nil => exact Or.inr h
  | cons u ts ih =>
    rw [smallestTag] at h
    split at h
    · rcases ih h with ht | hu
      · exact Or.inl (List.mem_cons_of_mem _ ht)
      · cases hu
        exact Or.inl List.mem_cons_self
    · exact (ih h).imp_left (List.mem_cons_of_mem _)

theorem smallestTag_isSome (ts : List (UInt8 × FilterSetBytes)) (n : Nat)
    {best : Option (UInt8 × FilterSetBytes)} (h : best.isSome = true) :
    (smallestTag ts n best).isSome = true := by
  induction ts generalizing n best with
  | nil => exact h
  | cons u ts ih =>
    rw [smallestTag]
    split
    · exact ih _ rfl
    · exact ih _ h

theorem smallestTag_eq_none {ts : List (UInt8 × FilterSetBytes)}
    (h : smallestTag ts maxU64 none = none) : ts = [] := by
  cases ts with
  | nil => rfl
  | cons t ts =>
    have hlt : t.2.size < maxU64 := lt_of_le_of_lt t.2.size_le (by norm_num [maxU64])
    rw [smallestTag, if_pos hlt] at h
    have := smallestTag_isSome ts t.2.size (Option.isSome_some (a := t))
    rw [h] at this
    cases this

/-! ## The six plans -/

/-- The constructor of `DBScan` picks one of six plans. -/
inductive PlanCase (f : NostrFilter) : Prop
  | id (s : FilterSetBytes) : f.ids = some s → plan f = (.id, f.indexOnlyScans, s.elems) →
      PlanCase f
  | tag (t : UInt8 × FilterSetBytes) : f.ids = none → t ∈ f.tags →
      plan f = (.tag, f.indexOnlyScans, t.2.elems.map fun v => t.1 :: v) → PlanCase f
  | pubkeyKind (a : FilterSetBytes) (k : FilterSetUint) : f.ids = none → f.tags = [] →
      f.authors = some a → f.kinds = some k → (a.size * k.size) % 2 ^ 64 < 1000 →
      plan f = (.pubkeyKind, f.indexOnlyScans,
        a.elems.flatMap fun x => k.items.map fun n => x ++ le64 n) → PlanCase f
  | pubkey (a : FilterSetBytes) : f.ids = none → f.tags = [] → f.authors = some a →
      (plan f = (.pubkey, false, a.elems) ∨
        (f.kinds = none ∧ plan f = (.pubkey, f.indexOnlyScans, a.elems))) → PlanCase f
  | kind (k : FilterSetUint) : f.ids = none → f.tags = [] → f.authors = none → f.kinds = some k →
      plan f = (.kind, f.indexOnlyScans, k.items.map le64) → PlanCase f
  | createdAt : f.ids = none → f.tags = [] → f.authors = none → f.kinds = none →
      plan f = (.createdAt, f.indexOnlyScans, [[]]) → PlanCase f

theorem planCase (f : NostrFilter) : PlanCase f := by
  cases hids : f.ids with
  | some s => exact .id s hids (by simp only [plan, hids])
  | none =>
    cases htag : smallestTag f.tags maxU64 none with
    | some t =>
      refine .tag t hids ?_ (by simp only [plan, hids, htag])
      exact (mem_of_smallestTag htag).resolve_right nofun
    | none =>
      have htags := smallestTag_eq_none htag
      cases ha : f.authors with
      | none =>
        cases hk : f.kinds with
        | none => exact .createdAt hids htags ha hk (by simp only [plan, hids, htag, ha, hk])
        | some k => exact .kind k hids htags ha hk (by simp only [plan, hids, htag, ha, hk])
      | some a =>
        cases hk : f.kinds with
        | none =>
          exact .pubkey a hids htags ha (Or.inr ⟨hk, by simp only [plan, hids, htag, ha, hk]⟩)
        | some k =>
          by_cases hlt : (a.size * k.size) % 2 ^ 64 < 1000
          · exact .pubkeyKind a k hids htags ha hk hlt
              (by simp only [plan, hids, htag, ha, hk, if_pos hlt])
          · exact .pubkey a hids htags ha
              (Or.inl (by simp only [plan, hids, htag, ha, hk, if_neg hlt]))

/-- With at most `2 ^ 24` kinds, a plan has at most `2 ^ 24` cursors. -/
theorem numCursors_le {f : NostrFilter} (h : ∀ k, f.kinds = some k → k.size ≤ 2 ^ 24) :
    numCursors f ≤ 2 ^ 24 := by
  unfold numCursors
  cases planCase f with
  | id s _ hp =>
    rw [hp]
    exact s.length_elems_le
  | tag t _ _ hp =>
    rw [hp, List.length_map]
    exact t.2.length_elems_le
  | pubkeyKind a k _ _ _ hk hlt hp =>
    have hlen : (plan f).2.2.length = a.size * k.size := by
      rw [hp, List.length_flatMap]
      simp only [List.length_map, List.map_const', List.sum_replicate, smul_eq_mul]
      rw [FilterSetBytes.elems, List.length_map]
      rfl
    have hmul : a.size * k.size ≤ 65536 * 2 ^ 24 := Nat.mul_le_mul a.size_le (h k hk)
    rw [hlen]
    rw [Nat.mod_eq_of_lt (lt_of_le_of_lt hmul (by norm_num))] at hlt
    omega
  | pubkey a _ _ _ hp =>
    rcases hp with hp | ⟨-, hp⟩ <;> rw [hp] <;> exact a.length_elems_le
  | kind k _ _ _ hk hp =>
    rw [hp, List.length_map]
    exact h k hk
  | createdAt _ _ _ _ hp =>
    rw [hp]
    norm_num

/-- A filter with kinds only has a cursor for each of them. -/
theorem numCursors_of_kinds {f : NostrFilter} {k : FilterSetUint} (hids : f.ids = none)
    (htags : f.tags = []) (ha : f.authors = none) (hk : f.kinds = some k) :
    numCursors f = k.items.length := by
  simp only [numCursors, plan, hids, htags, smallestTag, ha, hk, List.length_map]

/-! ## The strings of a plan -/

/-- An event that matches the filter has an entry under a string of the plan. -/
theorem planKey_of_doesMatch {f : NostrFilter} {p : PackedEvent} (h : f.doesMatch p = true) :
    PlanKey f p := by
  obtain ⟨-, -, hids, hauthors, hkinds, htags⟩ := (f.doesMatch_iff p).1 h
  unfold PlanKey
  cases planCase f with
  | id s hs hp =>
    rw [hp]
    exact ⟨(p.id, p.createdAt), by simp [PackedEvent.indexKeys], hids s hs⟩
  | tag t _ ht hp =>
    rw [hp]
    obtain ⟨v, hv, hmem⟩ := htags t ht
    exact ⟨(t.1 :: v, p.createdAt), List.mem_map.2 ⟨(t.1, v), hv, rfl⟩,
      List.mem_map_of_mem hmem⟩
  | pubkeyKind a k _ _ ha hk _ hp =>
    rw [hp]
    exact ⟨(p.pubkey ++ le64 p.kind, p.createdAt), by simp [PackedEvent.indexKeys],
      List.mem_flatMap.2 ⟨_, hauthors a ha, List.mem_map_of_mem (hkinds k hk)⟩⟩
  | pubkey a _ _ ha hp =>
    rcases hp with hp | ⟨-, hp⟩ <;> rw [hp] <;>
      exact ⟨(p.pubkey, p.createdAt), by simp [PackedEvent.indexKeys], hauthors a ha⟩
  | kind k _ _ _ hk hp =>
    rw [hp]
    exact ⟨(le64 p.kind, p.createdAt), by simp [PackedEvent.indexKeys],
      List.mem_map_of_mem (hkinds k hk)⟩
  | createdAt _ _ _ _ hp =>
    rw [hp]
    exact ⟨([], p.createdAt), by simp [PackedEvent.indexKeys], by simp⟩

/-- Where the index alone decides, an event under a string of the plan matches if its timestamp
does. -/
theorem doesMatch_of_planKey {f : NostrFilter} (hf : f.WF) (hio : (plan f).2.1 = true)
    {p : PackedEvent} (hkey : PlanKey f p) (htime : f.doesMatchTimes p.createdAt = true) :
    f.doesMatch p = true := by
  rw [f.doesMatch_iff]
  refine ⟨hf.canMatch, (f.doesMatchTimes_iff _).1 htime, ?_⟩
  unfold PlanKey at hkey
  cases planCase f with
  | id s hs hp =>
    rw [hp] at hio hkey
    obtain ⟨ha, hk, htags⟩ := hf.fields_of_ids hs hio
    obtain ⟨k, hk', hmem⟩ := hkey
    rw [PackedEvent.indexKeys, List.mem_singleton] at hk'
    subst hk'
    refine ⟨fun s' hs' => ?_, by simp [ha], by simp [hk], by simp [htags]⟩
    cases hs.symm.trans hs'
    exact hmem
  | tag t hids ht hp =>
    rw [hp] at hio hkey
    obtain ⟨htags, ha, hk⟩ := hf.fields_of_tag ht hio
    obtain ⟨k, hk', hmem⟩ := hkey
    obtain ⟨⟨name, v⟩, htag, rfl⟩ := List.mem_map.1 hk'
    obtain ⟨w, hw, heq⟩ := List.mem_map.1 hmem
    obtain ⟨rfl, rfl⟩ := List.cons.inj heq
    refine ⟨by simp [hids], by simp [ha], by simp [hk], fun t' ht' => ?_⟩
    rw [htags, List.mem_singleton] at ht'
    subst ht'
    exact ⟨w, htag, hw⟩
  | pubkeyKind a k hids htags ha hk _ hp =>
    rw [hp] at hkey
    obtain ⟨key, hkey', hmem⟩ := hkey
    rw [PackedEvent.indexKeys, List.mem_singleton] at hkey'
    subst hkey'
    obtain ⟨x, hx, hmem⟩ := List.mem_flatMap.1 hmem
    obtain ⟨n, hn, heq⟩ := List.mem_map.1 hmem
    obtain ⟨rfl, hle⟩ := List.append_inj heq (by rw [hf.authors_size a ha x hx, p.pubkey_size])
    have hkind : n = p.kind := le64_injective (k.items_lt n hn) p.kind_lt hle
    subst hkind
    refine ⟨by simp [hids], fun a' ha' => ?_, fun k' hk' => ?_, by simp [htags]⟩
    · cases ha.symm.trans ha'
      exact hx
    · cases hk.symm.trans hk'
      exact hn
  | pubkey a hids htags ha hp =>
    rcases hp with hp | ⟨hk, hp⟩
    · rw [hp] at hio
      cases hio
    · rw [hp] at hkey
      obtain ⟨key, hkey', hmem⟩ := hkey
      rw [PackedEvent.indexKeys, List.mem_singleton] at hkey'
      subst hkey'
      refine ⟨by simp [hids], fun a' ha' => ?_, by simp [hk], by simp [htags]⟩
      cases ha.symm.trans ha'
      exact hmem
  | kind k hids htags ha hk hp =>
    rw [hp] at hkey
    obtain ⟨key, hkey', hmem⟩ := hkey
    rw [PackedEvent.indexKeys, List.mem_singleton] at hkey'
    subst hkey'
    obtain ⟨n, hn, hle⟩ := List.mem_map.1 hmem
    have hkind : n = p.kind := le64_injective (k.items_lt n hn) p.kind_lt hle
    refine ⟨by simp [hids], by simp [ha], fun k' hk' => ?_, by simp [htags]⟩
    cases hk.symm.trans hk'
    exact hkind ▸ hn
  | createdAt hids htags ha hk _ => simp [hids, htags, ha, hk]

/-- A string of the plan, and an entry of its index: `keyMatch` compares the string parts. -/
theorem keyExact_plan {f : NostrFilter} (hf : f.WF) (st : Store) {b : Bytes}
    (hb : b ∈ (plan f).2.2) : KeyExact st (plan f).1 b := by
  intro e he
  obtain ⟨levId, p, -, hk, -⟩ := Store.mem_index.1 he
  have hsearch : e.key.length = b.length →
      (b.isPrefixOf (e.key ++ le64 e.num) = true ↔ e.key = b) := isPrefixOf_append_iff
  cases planCase f with
  | id s hs hp =>
    rw [hp] at hb hk ⊢
    simp only [PackedEvent.indexKeys, List.mem_singleton, Prod.mk.injEq] at hk
    exact hsearch (by rw [hk.1, p.id_size, hf.ids_size s hs b hb])
  | tag t _ _ hp =>
    rw [hp]
    simp only [ScanCursor.keyMatch, Bool.and_eq_true, beq_iff_eq, List.length_append, length_le64]
    constructor
    · rintro ⟨hlen, hpre⟩
      exact (hsearch (by omega)).1 hpre
    · intro heq
      exact ⟨by rw [heq], (hsearch (by rw [heq])).2 heq⟩
  | pubkeyKind a k _ _ ha _ _ hp =>
    rw [hp] at hb hk ⊢
    simp only [PackedEvent.indexKeys, List.mem_singleton, Prod.mk.injEq] at hk
    obtain ⟨x, hx, hmem⟩ := List.mem_flatMap.1 hb
    obtain ⟨n, -, rfl⟩ := List.mem_map.1 hmem
    refine hsearch ?_
    rw [hk.1, List.length_append, List.length_append, p.pubkey_size, hf.authors_size a ha x hx,
      length_le64, length_le64]
  | pubkey a _ _ ha hp =>
    have hplan : (plan f).1 = .pubkey ∧ b ∈ a.elems := by
      rcases hp with hp | ⟨-, hp⟩ <;> rw [hp] at hb ⊢ <;> exact ⟨rfl, hb⟩
    rw [hplan.1] at hk ⊢
    simp only [PackedEvent.indexKeys, List.mem_singleton, Prod.mk.injEq] at hk
    exact hsearch (by rw [hk.1, p.pubkey_size, hf.authors_size a ha b hplan.2])
  | kind k _ _ _ _ hp =>
    rw [hp] at hb hk ⊢
    simp only [PackedEvent.indexKeys, List.mem_singleton, Prod.mk.injEq] at hk
    obtain ⟨n, hn, rfl⟩ := List.mem_map.1 hb
    rw [hk.1]
    simp only [ScanCursor.keyMatch, List.take_left' (length_le64 _), beq_iff_eq,
      ofLeBytes_le64 p.kind_lt, ofLeBytes_le64 (k.items_lt n hn)]
    constructor
    · rintro rfl
      rfl
    · exact le64_injective p.kind_lt (k.items_lt n hn)
  | createdAt _ _ _ _ hp =>
    rw [hp] at hb hk ⊢
    simp only [PackedEvent.indexKeys, List.mem_singleton, Prod.mk.injEq] at hb hk
    simp [ScanCursor.keyMatch, hb, hk.1]

/-! ## A new scan -/

section Make

variable {ord : IndexOrder} {st : Store} {f : NostrFilter}

theorem searches_make (f : NostrFilter) :
    (make f).cursors.map ScanCursor.search = (plan f).2.2 := by
  rw [make, List.map_map]
  exact List.map_id' _

theorem exact_make (hf : f.WF) (st : Store) : (make f).Exact st := by
  intro b hb
  rw [searches_make] at hb
  exact keyExact_plan hf st hb

theorem scanInv_make (ord : IndexOrder) (h : numCursors f ≤ 2 ^ 24) : (make f).ScanInv ord where
  ok := by
    intro c hc
    obtain ⟨b, -, rfl⟩ := List.mem_map.1 hc
    refine ⟨?_⟩
    rintro pos hpos
    cases hpos
    exact .refl _
  few := by
    rw [make, List.length_map]
    exact h
  init_le := Nat.zero_le _
  queued := nofun
  count := by
    intro i c hc
    obtain ⟨b, -, rfl⟩ := List.mem_map.1 (List.mem_of_getElem? hc)
    rfl
  small := by
    intro c hc
    obtain ⟨b, -, rfl⟩ := List.mem_map.1 hc
    exact Nat.zero_le _
  active := nofun

theorem orderInv_make (ord : IndexOrder) (st : Store) (f : NostrFilter) :
    (make f).OrderInv ord st :=
  ⟨fun _ => List.Pairwise.nil, fun _ _ _ _ => nofun⟩

/-- A new scan has the events under the strings of its plan ahead, as far as their timestamps are
in range. -/
theorem mem_pending_make (hst : SnapshotOk st) {k : Nat ×ₗ Nat} :
    k ∈ (make f).pending ord st ↔ ∃ r ∈ st.event.rows, PlanKey f r.2 ∧
      InRange f r.2.createdAt ∧ k = rowRank r := by
  have hstart : ∀ (b : Bytes) (e : Entry Bytes), e ∈ st.index (plan f).1 → e.key = b →
      EntryLe ord (plan f).1 e ⟨b, maxU64, ⊤⟩ := by
    intro b e he hb
    rw [entryLe_iff_of_key_eq hb]
    have hlt := hst.num_lt he
    exact Or.inl (lt_trans hlt (by norm_num [maxU64]))
  constructor
  · intro hk
    obtain ⟨c, hc, hk⟩ := List.mem_flatMap.1 ((List.mem_append.1 hk).resolve_left nofun)
    obtain ⟨b, hb, rfl⟩ := List.mem_map.1 hc
    obtain ⟨e, he, rfl⟩ := List.mem_map.1 hk
    obtain ⟨hidx, ⟨hkey, hrange⟩, -⟩ := mem_remaining.1 he
    obtain ⟨levId, p, hr, hmem, hv⟩ := Store.mem_index.1 hidx
    have hnum : e.num = p.createdAt := PackedEvent.num_of_mem_indexKeys hmem
    refine ⟨(levId, p), hr, ⟨_, hmem, ?_⟩, hnum ▸ hrange, ?_⟩
    · rw [show e.key = b from hkey]
      exact hb
    · rw [Entry.rank, Entry.row, hv, hnum]
      rfl
  · rintro ⟨⟨levId, p⟩, hr, ⟨⟨b, n⟩, hmem, hb⟩, hrange, rfl⟩
    have hn : n = p.createdAt := PackedEvent.num_of_mem_indexKeys hmem
    subst hn
    have hidx : (⟨b, p.createdAt, (levId : Nat)⟩ : Entry Bytes) ∈ st.index (plan f).1 :=
      Store.mem_index.2 ⟨levId, p, hr, hmem, rfl⟩
    refine List.mem_append_right _ (List.mem_flatMap.2 ⟨.start b, List.mem_map_of_mem hb, ?_⟩)
    refine List.mem_map.2 ⟨⟨b, p.createdAt, (levId : Nat)⟩, mem_remaining.2 ⟨hidx, ?_⟩, rfl⟩
    exact ⟨⟨rfl, hrange⟩, _, rfl, hstart b _ hidx rfl⟩

/-- A candidate for a stored event under a string of the plan is passed on exactly when the event
matches the filter. -/
theorem doSend_eq {s : DBScan} (hf : f.WF) (hplan : SamePlan (make f) s) {ev : CandidateEvent}
    {r : Nat × PackedEvent} (hr : r ∈ st.event.rows) (hkey : PlanKey f r.2)
    (hrank : ev.rank = rowRank r) : s.doSend st ev = f.doesMatch r.2 := by
  have hpair : (ev.created, ev.levId) = (r.2.createdAt, r.1) := hrank
  obtain ⟨hcreated, hlev⟩ := Prod.mk.injEq .. ▸ hpair
  have hf' : s.f = f := hplan.f
  unfold doSend
  rw [hf', hcreated, hlev]
  split
  · rename_i hio
    have hio' : (plan f).2.1 = true := hplan.indexOnly.symm.trans hio
    rw [Bool.eq_iff_iff]
    constructor
    · exact doesMatch_of_planKey hf hio' hkey
    · intro h
      exact (f.doesMatchTimes_iff _).2 ((f.doesMatch_iff _).1 h).2.1
  · rw [Table.get?_eq_some_iff.2 (show (r.1, r.2) ∈ st.event.rows from hr)]

end Make

end DBScan

end Strfry
