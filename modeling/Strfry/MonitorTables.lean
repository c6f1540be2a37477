import Strfry.ActiveMonitors

/-!
# The lookup tables hold exactly the installed filters

`ActiveMonitors.Inv` relates the three parts of the state: the connections own the monitors, the
tables hold every filter of every monitor under the keys of its first applicable field and nothing
else, and no monitor set in the four maps is empty. Each operation keeps it; in particular no
`at` of `uninstallLookups` throws (`removeSub_spec`, `closeConn_spec`, `addSub_spec`).
-/

set_option autoImplicit false

namespace Strfry

open Lib

/-! ## Keys -/

namespace NostrFilter

theorem nodup_lookupKeys {f : NostrFilter} (h : f.WF) : f.lookupKeys.Nodup := by
  unfold lookupKeys
  split
  · exact (FilterSetBytes.nodup_elems _).map fun a b hab => by cases hab; rfl
  split
  · exact (FilterSetBytes.nodup_elems _).map fun a b hab => by cases hab; rfl
  split
  · -- the name of the tag is the first byte of the key
    have hpair : f.tags.Pairwise fun a b => a.1 ≠ b.1 := List.pairwise_map.1 h.tags_nodup
    refine List.nodup_flatMap.2 ⟨fun t _ => ?_, hpair.imp fun {a b} hab => ?_⟩
    · exact (FilterSetBytes.nodup_elems _).map fun a b hab => by cases hab; rfl
    · intro k hka hkb
      obtain ⟨v, -, rfl⟩ := List.mem_map.1 hka
      obtain ⟨w, -, hw⟩ := List.mem_map.1 hkb
      injection hw with hspec
      exact hab (List.cons.inj hspec).1.symm
  split
  · exact (FilterSetUint.nodup_items _).map fun a b hab => by cases hab; rfl
  · simp

/-- An event is looked up under a key of every filter that matches it. -/
theorem exists_lookupKey_of_doesMatch {f : NostrFilter} {ev : PackedEvent}
    (h : f.doesMatch ev = true) : ∃ k ∈ f.lookupKeys, k ∈ ev.lookupKeys := by
  obtain ⟨-, -, hids, hauthors, hkinds, htags⟩ := (f.doesMatch_iff ev).1 h
  unfold lookupKeys PackedEvent.lookupKeys
  split
  · rename_i s hs
    exact ⟨.id ev.id, List.mem_map_of_mem (hids s hs), by simp⟩
  split
  · rename_i s hs
    exact ⟨.author ev.pubkey, List.mem_map_of_mem (hauthors s hs), by simp⟩
  split
  · rename_i hne
    obtain ⟨t, ht⟩ := List.exists_mem_of_length_pos (Nat.pos_of_ne_zero hne)
    obtain ⟨v, hev, hv⟩ := htags t ht
    refine ⟨.tag (getTagSpec t.1 v), List.mem_flatMap.2 ⟨t, ht, List.mem_map_of_mem hv⟩, ?_⟩
    have := List.mem_map_of_mem (f := fun t : Tag => LookupKey.tag (getTagSpec t.1 t.2)) hev
    simp only [List.mem_cons, List.mem_append]
    exact Or.inr (Or.inr (Or.inl this))
  split
  · rename_i s hs
    exact ⟨.kind ev.kind, List.mem_map_of_mem (hkinds s hs), by simp⟩
  · exact ⟨.other, by simp, by simp⟩

end NostrFilter

namespace LookupTables

theorem mem_entriesOf {m : MonitorPtr} {g : NostrFilterGroup} {e : FilterPtr × LookupKey} :
    e ∈ entriesOf m g ↔
      e.1.mon = m ∧ ∃ f, g.filters[e.1.index]? = some f ∧ e.2 ∈ f.lookupKeys := by
  obtain ⟨⟨m', i⟩, k⟩ := e
  simp only [entriesOf, List.mem_flatMap, List.mem_map, Prod.exists, Prod.mk.injEq,
    FilterPtr.mk.injEq, List.mem_zipIdx_iff_getElem?]
  constructor
  · rintro ⟨f, j, hf, k', hk, ⟨rfl, rfl⟩, rfl⟩
    exact ⟨rfl, f, hf, hk⟩
  · rintro ⟨rfl, f, hf, hk⟩
    exact ⟨f, i, hf, k, hk, ⟨rfl, rfl⟩, rfl⟩

theorem nodup_entriesOf (m : MonitorPtr) (g : NostrFilterGroup) : (entriesOf m g).Nodup := by
  have hidx : g.filters.zipIdx.Pairwise fun a b => a.2 ≠ b.2 :=
    List.pairwise_map.1 (List.nodup_zipIdx_map_snd g.filters)
  refine List.nodup_flatMap.2 ⟨fun f hf => ?_, hidx.imp fun {a b} hab => ?_⟩
  · have hmem : f.1 ∈ g.filters := List.fst_mem_of_mem_zipIdx hf
    exact (NostrFilter.nodup_lookupKeys (g.wf _ hmem)).map fun a b h => congrArg Prod.snd h
  · intro e hea heb
    obtain ⟨k, -, rfl⟩ := List.mem_map.1 hea
    obtain ⟨l, -, hl⟩ := List.mem_map.1 heb
    exact hab (congrArg (fun e => e.1.index) hl).symm

/-! ## Table operations -/

theorem get?_put (t : LookupTables) (k j : LookupKey) (ms : MonitorSet) :
    (t.put k ms).get? j = if j = k then some ms else t.get? j := by
  cases k <;> cases j <;> simp [put, get?, Map.lookup_insert]

theorem get?_drop (t : LookupTables) {k : LookupKey} (hk : k ≠ .other) (j : LookupKey) :
    (t.drop k).get? j = if j = k then none else t.get? j := by
  cases k with
  | other => exact absurd rfl hk
  | _ => cases j <;> simp [drop, get?, Map.lookup_erase]

/-- The item of a filter under a key. -/
def item? (t : LookupTables) (e : FilterPtr × LookupKey) : Option MonitorItem :=
  (t.get? e.2).bind fun ms => ms.lookup e.1

/-- No monitor set in the four maps is empty. -/
def NoEmpty (t : LookupTables) : Prop :=
  ∀ k ms, k ≠ .other → t.get? k = some ms → ms.keys ≠ []

theorem item?_put (t : LookupTables) (k : LookupKey) (ms : MonitorSet)
    (e : FilterPtr × LookupKey) :
    (t.put k ms).item? e = if e.2 = k then ms.lookup e.1 else t.item? e := by
  unfold item?
  rw [get?_put]
  split
  · rfl
  · rfl

theorem NoEmpty.put {t : LookupTables} (h : t.NoEmpty) {k : LookupKey} {ms : MonitorSet}
    (hms : k ≠ .other → ms.keys ≠ []) : (t.put k ms).NoEmpty := by
  intro j ms' hj hget
  rw [get?_put] at hget
  split at hget
  · rename_i hjk
    cases hget
    exact hms (hjk ▸ hj)
  · exact h j ms' hj hget

theorem item?_emplace (t : LookupTables) (item : MonitorItem) (e e' : FilterPtr × LookupKey) :
    (t.emplace item e).item? e' =
      if e' = e then some ((t.item? e).getD item) else t.item? e' := by
  obtain ⟨f, k⟩ := e
  obtain ⟨f', k'⟩ := e'
  rw [emplace, item?_put]
  simp only [Prod.mk.injEq, Map.lookup_tryEmplace]
  by_cases hk : k' = k
  · subst hk
    by_cases hf : f' = f
    · simp only [hf, and_self, if_true, item?]
      cases t.get? k' <;> rfl
    · simp only [hf, false_and, if_true, if_false, item?]
      cases t.get? k' <;> rfl
  · simp only [hk, and_false, if_false]

theorem NoEmpty.emplace {t : LookupTables} (h : t.NoEmpty) (item : MonitorItem)
    (e : FilterPtr × LookupKey) : (t.emplace item e).NoEmpty := by
  refine h.put fun _ hnil => ?_
  have := Map.keys_eq_nil_iff.1 hnil e.1
  rw [Map.lookup_tryEmplace, if_pos rfl] at this
  cases this

/-- `erase` of a filter that is there. -/
theorem erase_spec {t : LookupTables} {e : FilterPtr × LookupKey} (h : (t.item? e).isSome) :
    ∃ t', t.erase e = .ok t' ∧
      (∀ e', t'.item? e' = if e' = e then none else t.item? e') ∧ (t.NoEmpty → t'.NoEmpty) := by
  obtain ⟨f, k⟩ := e
  obtain ⟨ms, hms⟩ : ∃ ms, t.get? k = some ms := by
    cases hg : t.get? k with
    | none => simp [item?, hg] at h
    | some ms => exact ⟨ms, rfl⟩
  have hother : ∀ f' k', (if k' = k then (ms.erase f).lookup f' else t.item? (f', k')) =
      if (f', k') = (f, k) then none else t.item? (f', k') := by
    intro f' k'
    simp only [Prod.mk.injEq, Map.lookup_erase]
    by_cases hk : k' = k
    · subst hk
      simp only [and_true, if_true, item?, hms, Option.bind_some]
    · simp only [hk, and_false, if_false]
  by_cases hdrop : k ≠ .other ∧ (ms.erase f).keys = []
  · refine ⟨t.drop k, by simp only [erase, hms, if_pos hdrop], ?_, ?_⟩
    · rintro ⟨f', k'⟩
      rw [← hother, item?, get?_drop t hdrop.1]
      split
      · rw [Map.keys_eq_nil_iff.1 hdrop.2 f']
        rfl
      · rfl
    · intro hne j ms' hj hget
      rw [get?_drop t hdrop.1] at hget
      split at hget
      · cases hget
      · exact hne j ms' hj hget
  · refine ⟨t.put k (ms.erase f), by simp only [erase, hms, if_neg hdrop], ?_, ?_⟩
    · rintro ⟨f', k'⟩
      rw [← hother, item?_put]
    · exact fun hne => hne.put fun hk hnil => hdrop ⟨hk, hnil⟩

/-- The loop of `installLookups`. -/
theorem item?_foldl_emplace (item : MonitorItem) (es : List (FilterPtr × LookupKey))
    (t : LookupTables) (e : FilterPtr × LookupKey) :
    (es.foldl (emplace · item) t).item? e =
      if e ∈ es then some ((t.item? e).getD item) else t.item? e := by
  induction es generalizing t with
  | nil => simp
  | cons e' es ih =>
    rw [List.foldl_cons, ih, item?_emplace]
    by_cases he : e = e'
    · subst he
      by_cases hes : e ∈ es <;> simp [hes]
    · simp [he, List.mem_cons]

theorem item?_installLookups (t : LookupTables) (m : MonitorPtr) (g : NostrFilterGroup)
    (currEventId : Nat) (e : FilterPtr × LookupKey) :
    (t.installLookups m g currEventId).item? e =
      if e ∈ entriesOf m g then some ((t.item? e).getD ⟨m, currEventId⟩) else t.item? e :=
  item?_foldl_emplace _ _ t e

theorem NoEmpty.installLookups {t : LookupTables} (h : t.NoEmpty) (m : MonitorPtr)
    (g : NostrFilterGroup) (currEventId : Nat) : (t.installLookups m g currEventId).NoEmpty := by
  unfold LookupTables.installLookups
  generalize entriesOf m g = es
  induction es generalizing t with
  | nil => exact h
  | cons e es ih => exact ih (h.emplace _ e)

/-- The loop of `uninstallLookups`, over filters that are there. -/
theorem foldlM_erase_spec (es : List (FilterPtr × LookupKey)) (hnd : es.Nodup) (t : LookupTables)
    (h : ∀ e ∈ es, (t.item? e).isSome) :
    ∃ t', es.foldlM erase t = .ok t' ∧
      (∀ e, t'.item? e = if e ∈ es then none else t.item? e) ∧ (t.NoEmpty → t'.NoEmpty) := by
  induction es generalizing t with
  | nil => exact ⟨t, rfl, fun e => by simp, id⟩
  | cons e es ih =>
    obtain ⟨hnotin, hnd⟩ := List.nodup_cons.1 hnd
    obtain ⟨t₁, h₁, hitem₁, hne₁⟩ := erase_spec (h e List.mem_cons_self)
    have hrest : ∀ e' ∈ es, (t₁.item? e').isSome := by
      intro e' he'
      have hne : e' ≠ e := fun heq => hnotin (heq ▸ he')
      rw [hitem₁, if_neg hne]
      exact h e' (List.mem_cons_of_mem _ he')
    obtain ⟨t₂, h₂, hitem₂, hne₂⟩ := ih hnd t₁ hrest
    refine ⟨t₂, ?_, fun e' => ?_, hne₂ ∘ hne₁⟩
    · rw [List.foldlM_cons, h₁]
      exact h₂
    · rw [hitem₂, hitem₁]
      by_cases he : e' = e <;> by_cases hes : e' ∈ es <;> simp [he, hes]

theorem uninstallLookups_spec {t : LookupTables} {m : MonitorPtr} {g : NostrFilterGroup}
    (h : ∀ e ∈ entriesOf m g, (t.item? e).isSome) :
    ∃ t', t.uninstallLookups m g = .ok t' ∧
      (∀ e, t'.item? e = if e ∈ entriesOf m g then none else t.item? e) ∧
      (t.NoEmpty → t'.NoEmpty) :=
  foldlM_erase_spec _ (nodup_entriesOf m g) t h

end LookupTables

/-! ## The invariant -/

namespace ActiveMonitors

open LookupTables

/-- What every reachable state satisfies. -/
structure Inv (s : ActiveMonitors) : Prop where
  owner : ∀ connId subId m, s.conns.find₂ connId subId = some m ↔
    ∃ sub, s.monitors.lookup m = some sub ∧ sub.connId = connId ∧ sub.subId = subId
  entered : ∀ e, (s.tables.item? e).isSome ↔
    ∃ sub, s.monitors.lookup e.1.mon = some sub ∧ e ∈ entriesOf e.1.mon sub.filterGroup
  item_mon : ∀ e item, s.tables.item? e = some item → item.mon = e.1.mon
  noEmpty : s.tables.NoEmpty

theorem inv_empty : Inv {} where
  owner := by simp [Map.find₂]
  entered := by
    rintro ⟨f, k⟩
    cases k <;> simp [item?, get?]
  item_mon := by
    rintro ⟨f, k⟩
    cases k <;> simp [item?, get?]
  noEmpty := by
    intro k ms hk
    cases k <;> simp_all [get?]

/-- The subscription of a connection under an id, if one is installed. -/
def installed (s : ActiveMonitors) (connId : Nat) (subId : SubId) : Option Subscription :=
  (s.findMonitor connId subId).map Prod.snd

theorem findMonitor_eq_some_iff {s : ActiveMonitors} (h : s.Inv) {connId : Nat} {subId : SubId}
    {m : MonitorPtr} {sub : Subscription} :
    s.findMonitor connId subId = some (m, sub) ↔
      s.monitors.lookup m = some sub ∧ sub.connId = connId ∧ sub.subId = subId := by
  unfold findMonitor
  constructor
  · intro hfind
    obtain ⟨m', hptr, hmap⟩ := Option.bind_eq_some_iff.1 hfind
    obtain ⟨sub', hsub', heq⟩ := Option.map_eq_some_iff.1 hmap
    cases heq
    obtain ⟨sub'', hsub'', hkey⟩ := (h.owner _ _ _).1 hptr
    rw [hsub'] at hsub''
    cases hsub''
    exact ⟨hsub', hkey⟩
  · rintro ⟨hsub, hkey⟩
    rw [(h.owner connId subId m).2 ⟨sub, hsub, hkey⟩, Option.bind_some, hsub]
    rfl

theorem installed_eq_some_iff {s : ActiveMonitors} (h : s.Inv) {connId : Nat} {subId : SubId}
    {sub : Subscription} :
    s.installed connId subId = some sub ↔
      ∃ m, s.monitors.lookup m = some sub ∧ sub.connId = connId ∧ sub.subId = subId := by
  simp only [installed, Option.map_eq_some_iff, Prod.exists, findMonitor_eq_some_iff h]
  constructor
  · rintro ⟨m, sub', hsub, rfl⟩
    exact ⟨m, hsub⟩
  · rintro ⟨m, hsub⟩
    exact ⟨m, sub, hsub, rfl⟩

theorem installed_eq_none_iff {s : ActiveMonitors} (h : s.Inv) {connId : Nat} {subId : SubId} :
    s.installed connId subId = none ↔
      ∀ m sub, s.monitors.lookup m = some sub → ¬ (sub.connId = connId ∧ sub.subId = subId) := by
  constructor
  · intro hnone m sub hsub hkey
    rw [(installed_eq_some_iff h).2 ⟨m, hsub, hkey⟩] at hnone
    cases hnone
  · intro hall
    cases hi : s.installed connId subId with
    | none => rfl
    | some sub =>
      obtain ⟨m, hsub, hkey⟩ := (installed_eq_some_iff h).1 hi
      exact absurd hkey (hall m sub hsub)

theorem isSome_installed_iff {s : ActiveMonitors} (h : s.Inv) {connId : Nat} {subId : SubId} :
    (s.installed connId subId).isSome ↔ (s.conns.find₂ connId subId).isSome := by
  simp only [Option.isSome_iff_exists, installed_eq_some_iff h, h.owner]
  constructor
  · rintro ⟨sub, m, hm⟩
    exact ⟨m, sub, hm⟩
  · rintro ⟨m, sub, hm⟩
    exact ⟨sub, m, hm⟩

/-- A subscription has one monitor. -/
theorem Inv.monitor_unique {s : ActiveMonitors} (h : s.Inv) {m m' : MonitorPtr}
    {sub sub' : Subscription} (hm : s.monitors.lookup m = some sub)
    (hm' : s.monitors.lookup m' = some sub') (hconn : sub.connId = sub'.connId)
    (hid : sub.subId = sub'.subId) : m = m' := by
  have h₁ := (h.owner _ _ _).2 ⟨sub, hm, rfl, rfl⟩
  have h₂ := (h.owner _ _ _).2 ⟨sub', hm', rfl, rfl⟩
  rw [hconn, hid, h₂] at h₁
  exact (Option.some.inj h₁).symm

theorem Inv.item_isSome {s : ActiveMonitors} (h : s.Inv) {m : MonitorPtr} {sub : Subscription}
    (hsub : s.monitors.lookup m = some sub) :
    ∀ e ∈ entriesOf m sub.filterGroup, (s.tables.item? e).isSome := by
  intro e he
  obtain ⟨rfl, -⟩ := mem_entriesOf.1 he
  exact (h.entered e).2 ⟨sub, hsub, he⟩

/-! ## Removal -/

/-- `s'` is `s` without the subscriptions that `keep` excludes. -/
structure Restricts (keep : Nat → SubId → Prop) (s s' : ActiveMonitors) : Prop where
  ptr : ∀ connId subId m, s'.conns.find₂ connId subId = some m ↔
    s.conns.find₂ connId subId = some m ∧ keep connId subId
  monitor : ∀ m sub, s'.monitors.lookup m = some sub ↔
    s.monitors.lookup m = some sub ∧ keep sub.connId sub.subId
  item : ∀ e item, s'.tables.item? e = some item ↔ s.tables.item? e = some item ∧
    ∀ sub, s.monitors.lookup e.1.mon = some sub → keep sub.connId sub.subId
  noEmpty : s.tables.NoEmpty → s'.tables.NoEmpty

theorem Restricts.refl {keep : Nat → SubId → Prop} {s : ActiveMonitors} (h : s.Inv)
    (hall : ∀ m sub, s.monitors.lookup m = some sub → keep sub.connId sub.subId) :
    Restricts keep s s where
  ptr := by
    intro connId subId m
    refine ⟨fun hp => ⟨hp, ?_⟩, And.left⟩
    obtain ⟨sub, hsub, rfl, rfl⟩ := (h.owner _ _ _).1 hp
    exact hall m sub hsub
  monitor := fun m sub => ⟨fun hm => ⟨hm, hall m sub hm⟩, And.left⟩
  item := fun e item => ⟨fun he => ⟨he, fun sub => hall _ sub⟩, And.left⟩
  noEmpty := id

theorem Restricts.inv {keep : Nat → SubId → Prop} {s s' : ActiveMonitors} (h : s.Inv)
    (hr : Restricts keep s s') : s'.Inv where
  owner := by
    intro connId subId m
    rw [hr.ptr, h.owner]
    constructor
    · rintro ⟨⟨sub, hsub, rfl, rfl⟩, hkeep⟩
      exact ⟨sub, (hr.monitor m sub).2 ⟨hsub, hkeep⟩, rfl, rfl⟩
    · rintro ⟨sub, hsub, rfl, rfl⟩
      obtain ⟨hsub, hkeep⟩ := (hr.monitor m sub).1 hsub
      exact ⟨⟨sub, hsub, rfl, rfl⟩, hkeep⟩
  entered := by
    intro e
    rw [Option.isSome_iff_exists]
    constructor
    · rintro ⟨item, hitem⟩
      obtain ⟨hitem, hkeep⟩ := (hr.item e item).1 hitem
      obtain ⟨sub, hsub, he⟩ := (h.entered e).1 (Option.isSome_iff_exists.2 ⟨item, hitem⟩)
      exact ⟨sub, (hr.monitor _ sub).2 ⟨hsub, hkeep sub hsub⟩, he⟩
    · rintro ⟨sub, hsub, he⟩
      obtain ⟨hsub, hkeep⟩ := (hr.monitor _ sub).1 hsub
      obtain ⟨item, hitem⟩ := Option.isSome_iff_exists.1 ((h.entered e).2 ⟨sub, hsub, he⟩)
      refine ⟨item, (hr.item e item).2 ⟨hitem, fun sub' hsub' => ?_⟩⟩
      rw [hsub] at hsub'
      cases hsub'
      exact hkeep
  item_mon := fun e item hitem => h.item_mon e item ((hr.item e item).1 hitem).1
  noEmpty := hr.noEmpty h.noEmpty

/-- Erasing the filters of one monitor erases the entries that point to it. -/
theorem Inv.item_of_uninstall {s : ActiveMonitors} (h : s.Inv) {m : MonitorPtr}
    {sub : Subscription} (hsub : s.monitors.lookup m = some sub) {t' : LookupTables}
    (ht' : ∀ e, t'.item? e = if e ∈ entriesOf m sub.filterGroup then none else s.tables.item? e)
    (e : FilterPtr × LookupKey) (item : MonitorItem) :
    t'.item? e = some item ↔ s.tables.item? e = some item ∧ e.1.mon ≠ m := by
  rw [ht']
  split
  · rename_i he
    obtain ⟨hm, -⟩ := mem_entriesOf.1 he
    simp [hm]
  · rename_i he
    refine ⟨fun hitem => ⟨hitem, fun hm => he ?_⟩, And.left⟩
    obtain ⟨sub', hsub', hmem⟩ := (h.entered e).1 (Option.isSome_iff_exists.2 ⟨item, hitem⟩)
    rw [hm, hsub] at hsub'
    cases hsub'
    rwa [hm] at hmem

/-- `removeSub` removes one subscription and does not throw. -/
theorem removeSub_spec {s : ActiveMonitors} (h : s.Inv) (connId : Nat) (subId : SubId) :
    ∃ s', s.removeSub connId subId = .ok s' ∧
      Restricts (fun c i => ¬ (c = connId ∧ i = subId)) s s' := by
  unfold removeSub
  cases hfind : s.findMonitor connId subId with
  | none =>
    refine ⟨s, rfl, Restricts.refl h fun m sub hsub hkey => ?_⟩
    rw [(findMonitor_eq_some_iff h).2 ⟨hsub, hkey⟩] at hfind
    cases hfind
  | some r =>
    obtain ⟨m, sub⟩ := r
    obtain ⟨hsub, rfl, rfl⟩ := (findMonitor_eq_some_iff h).1 hfind
    obtain ⟨t', ht', hitem, hne⟩ := uninstallLookups_spec (h.item_isSome hsub)
    refine ⟨_, by simp only [ht', bind, Except.bind]; rfl, ?_, ?_, ?_, hne⟩
    · intro connId subId m'
      simp only [Map.find₂_eraseIn]
      split
      · rename_i hkey
        simp [hkey]
      · rename_i hkey
        exact ⟨fun hp => ⟨hp, hkey⟩, And.left⟩
    · intro m' sub'
      simp only [Map.lookup_erase]
      split
      · rename_i hm
        subst hm
        simp only [reduceCtorEq, false_iff]
        rintro ⟨hsub', hkeep⟩
        rw [hsub] at hsub'
        cases hsub'
        exact hkeep ⟨rfl, rfl⟩
      · rename_i hm
        exact ⟨fun hsub' => ⟨hsub', fun hk => hm (h.monitor_unique hsub' hsub hk.1 hk.2)⟩, And.left⟩
    · intro e item
      rw [h.item_of_uninstall hsub hitem]
      refine and_congr_right fun hitem => ⟨fun hne sub' hsub' hk => ?_, fun hkeep hm => ?_⟩
      · exact hne (h.monitor_unique hsub' hsub hk.1 hk.2)
      · exact hkeep sub (hm ▸ hsub) ⟨rfl, rfl⟩

/-- The loop of `closeConn`, over monitors whose filters are in the tables. -/
theorem uninstallAll_spec (monitors : Monitors) (ms : List MonitorPtr) (hnd : ms.Nodup)
    (t : LookupTables)
    (h : ∀ m ∈ ms, ∃ sub, monitors.lookup m = some sub ∧
      ∀ e ∈ entriesOf m sub.filterGroup, (t.item? e).isSome) :
    ∃ t', uninstallAll monitors ms t = .ok t' ∧
      (∀ e item, t'.item? e = some item ↔ t.item? e = some item ∧
        ∀ m ∈ ms, ∀ sub, monitors.lookup m = some sub → e ∉ entriesOf m sub.filterGroup) ∧
      (t.NoEmpty → t'.NoEmpty) := by
  induction ms generalizing t with
  | nil => exact ⟨t, rfl, by simp, id⟩
  | cons m ms ih =>
    obtain ⟨hnotin, hnd⟩ := List.nodup_cons.1 hnd
    obtain ⟨sub, hsub, hsome⟩ := h m List.mem_cons_self
    obtain ⟨t₁, h₁, hitem₁, hne₁⟩ := uninstallLookups_spec hsome
    -- the entries of the other monitors are still there
    have hrest : ∀ m' ∈ ms, ∃ sub', monitors.lookup m' = some sub' ∧
        ∀ e ∈ entriesOf m' sub'.filterGroup, (t₁.item? e).isSome := by
      intro m' hm'
      obtain ⟨sub', hsub', hsome'⟩ := h m' (List.mem_cons_of_mem _ hm')
      refine ⟨sub', hsub', fun e he => ?_⟩
      have hne : e ∉ entriesOf m sub.filterGroup := by
        intro he'
        have := (mem_entriesOf.1 he').1
        rw [(mem_entriesOf.1 he).1] at this
        exact hnotin (this ▸ hm')
      rw [hitem₁, if_neg hne]
      exact hsome' e he
    obtain ⟨t₂, h₂, hitem₂, hne₂⟩ := ih hnd t₁ hrest
    refine ⟨t₂, ?_, fun e item => ?_, hne₂ ∘ hne₁⟩
    · simp only [uninstallAll, hsub, h₁]
      exact h₂
    · rw [hitem₂, hitem₁]
      simp only [List.forall_mem_cons, hsub, Option.some.injEq, forall_eq']
      by_cases he : e ∈ entriesOf m sub.filterGroup <;> simp [he]

/-- `closeConn` removes the subscriptions of one connection and does not throw. -/
theorem closeConn_spec {s : ActiveMonitors} (h : s.Inv) (connId : Nat) :
    ∃ s', s.closeConn connId = .ok s' ∧ Restricts (fun c _ => c ≠ connId) s s' := by
  unfold closeConn
  cases hconn : s.conns.lookup connId with
  | none =>
    refine ⟨s, rfl, Restricts.refl h fun m sub hsub hc => ?_⟩
    have := (h.owner sub.connId sub.subId m).2 ⟨sub, hsub, rfl, rfl⟩
    rw [Map.find₂, hc, hconn] at this
    cases this
  | some connMonitors =>
    have hfind : ∀ i m, connMonitors.lookup i = some m ↔ s.conns.find₂ connId i = some m := by
      intro i m
      rw [Map.find₂, hconn, Option.bind_some]
    have hmem : ∀ m, m ∈ connMonitors.entries.map Sigma.snd ↔
        ∃ sub, s.monitors.lookup m = some sub ∧ sub.connId = connId := by
      intro m
      rw [List.mem_map]
      constructor
      · rintro ⟨⟨i, m'⟩, hentry, rfl⟩
        have hlook := AList.mem_lookup_iff.2 hentry
        obtain ⟨sub, hsub, hc, -⟩ := (h.owner _ _ _).1 ((hfind i m').1 hlook)
        exact ⟨sub, hsub, hc⟩
      · rintro ⟨sub, hsub, hc⟩
        have hptr := (h.owner connId sub.subId m).2 ⟨sub, hsub, hc, rfl⟩
        exact ⟨⟨sub.subId, m⟩, AList.mem_lookup_iff.1 ((hfind _ m).2 hptr), rfl⟩
    have hnd : (connMonitors.entries.map Sigma.snd).Nodup := by
      refine List.Nodup.map_on ?_ connMonitors.nodupKeys.nodup
      rintro ⟨i, m⟩ hi ⟨j, m'⟩ hj hm
      obtain rfl : m = m' := hm
      obtain ⟨sub, hsub, -, rfl⟩ := (h.owner _ _ _).1 ((hfind i m).1 (AList.mem_lookup_iff.2 hi))
      obtain ⟨sub', hsub', -, rfl⟩ := (h.owner _ _ _).1 ((hfind j m).1 (AList.mem_lookup_iff.2 hj))
      rw [hsub] at hsub'
      cases hsub'
      rfl
    obtain ⟨t', ht', hitem, hne⟩ := uninstallAll_spec s.monitors _ hnd s.tables
      fun m hm => by
        obtain ⟨sub, hsub, -⟩ := (hmem m).1 hm
        exact ⟨sub, hsub, h.item_isSome hsub⟩
    refine ⟨_, by simp only [ht', bind, Except.bind]; rfl, ?_, ?_, ?_, hne⟩
    · intro c i m
      simp only [Map.find₂_erase]
      split
      · rename_i hc
        simp [hc]
      · rename_i hc
        exact ⟨fun hp => ⟨hp, hc⟩, And.left⟩
    · intro m sub
      simp only [Map.lookup_foldl_erase]
      split
      · rename_i hm
        obtain ⟨sub', hsub', hc⟩ := (hmem m).1 hm
        simp only [reduceCtorEq, false_iff, not_and, not_not]
        intro hsub
        rw [hsub'] at hsub
        cases hsub
        exact hc
      · rename_i hm
        exact ⟨fun hsub => ⟨hsub, fun hc => hm ((hmem m).2 ⟨sub, hsub, hc⟩)⟩, And.left⟩
    · intro e item
      rw [hitem]
      refine and_congr_right fun hitem => ⟨fun hall sub hsub hc => ?_, fun hkeep m hm sub hsub he => ?_⟩
      · obtain ⟨sub', hsub', he⟩ := (h.entered e).1 (Option.isSome_iff_exists.2 ⟨item, hitem⟩)
        exact hall _ ((hmem _).2 ⟨sub, hsub, hc⟩) sub' hsub' he
      · obtain ⟨hm', -⟩ := mem_entriesOf.1 he
        obtain ⟨sub', hsub', hc⟩ := (hmem m).1 hm
        rw [hsub] at hsub'
        cases hsub'
        exact hkeep sub (hm' ▸ hsub) hc

/-! ## Installation -/

/-- The state after a new monitor has been installed at `m`. -/
def install (s : ActiveMonitors) (m : MonitorPtr) (sub : Subscription) (currEventId : Nat) :
    ActiveMonitors where
  conns := Map.emplaceIn (s.conns.tryEmplace sub.connId ∅) sub.connId sub.subId m
  monitors := s.monitors.insert m sub
  tables := s.tables.installLookups m sub.filterGroup currEventId

/-- The items after the installation of a new monitor. -/
theorem Inv.item_install {s : ActiveMonitors} (h : s.Inv) {m : MonitorPtr}
    (hm : s.monitors.lookup m = none) (sub : Subscription) (currEventId : Nat)
    (e : FilterPtr × LookupKey) :
    (s.install m sub currEventId).tables.item? e =
      if e ∈ entriesOf m sub.filterGroup then some ⟨m, currEventId⟩ else s.tables.item? e := by
  rw [install, item?_installLookups]
  split
  · rename_i he
    obtain ⟨hmon, -⟩ := mem_entriesOf.1 he
    cases hitem : s.tables.item? e with
    | none => rfl
    | some item =>
      obtain ⟨sub', hsub', -⟩ := (h.entered e).1 (Option.isSome_iff_exists.2 ⟨item, hitem⟩)
      rw [hmon, hm] at hsub'
      cases hsub'
  · rfl

theorem Inv.install {s : ActiveMonitors} (h : s.Inv) {m : MonitorPtr}
    (hm : s.monitors.lookup m = none) {sub : Subscription}
    (hnew : ∀ m' sub', s.monitors.lookup m' = some sub' →
      ¬ (sub'.connId = sub.connId ∧ sub'.subId = sub.subId)) (currEventId : Nat) :
    (s.install m sub currEventId).Inv where
  owner := by
    intro connId subId m'
    have hnone : s.conns.find₂ sub.connId sub.subId = none := by
      cases hp : s.conns.find₂ sub.connId sub.subId with
      | none => rfl
      | some m₀ =>
        obtain ⟨sub₀, hsub₀, hkey⟩ := (h.owner _ _ _).1 hp
        exact absurd hkey (hnew m₀ sub₀ hsub₀)
    simp only [ActiveMonitors.install, Map.find₂_emplaceIn, Map.find₂_tryEmplace, hnone,
      Option.getD_none, Map.lookup_insert]
    by_cases hkey : connId = sub.connId ∧ subId = sub.subId
    · obtain ⟨rfl, rfl⟩ := hkey
      simp only [and_self, if_true, Option.some.injEq]
      constructor
      · rintro rfl
        exact ⟨sub, by simp, rfl, rfl⟩
      · rintro ⟨sub', hsub', hkey⟩
        split at hsub'
        · rename_i hm'
          exact hm'.symm
        · exact absurd hkey (hnew m' sub' hsub')
    · rw [if_neg hkey, h.owner]
      constructor
      · rintro ⟨sub', hsub', hk⟩
        have hne : m' ≠ m := by
          rintro rfl
          rw [hm] at hsub'
          cases hsub'
        exact ⟨sub', by rw [if_neg hne]; exact hsub', hk⟩
      · rintro ⟨sub', hsub', hk⟩
        split at hsub'
        · cases hsub'
          exact absurd ⟨hk.1.symm, hk.2.symm⟩ hkey
        · exact ⟨sub', hsub', hk⟩
  entered := by
    intro e
    rw [h.item_install hm]
    simp only [ActiveMonitors.install, Map.lookup_insert]
    by_cases he : e.1.mon = m
    · have hold : ¬ (s.tables.item? e).isSome := by
        rw [h.entered, he, hm]
        simp
      simp only [he, if_true, Option.some.injEq, exists_eq_left']
      split
      · rename_i hmem
        simp [hmem]
      · rename_i hmem
        simp only [hmem, iff_false]
        exact hold
    · have hmem : e ∉ entriesOf m sub.filterGroup := fun hmem => he (mem_entriesOf.1 hmem).1
      rw [if_neg hmem, if_neg he]
      exact h.entered e
  item_mon := by
    intro e item
    rw [h.item_install hm]
    split
    · rename_i he
      rintro ⟨rfl⟩
      exact (mem_entriesOf.1 he).1.symm
    · exact h.item_mon e item
  noEmpty := h.noEmpty.installLookups m sub.filterGroup currEventId

theorem removeExisting_eq (s : ActiveMonitors) (connId : Nat) (subId : SubId) :
    s.removeExisting connId subId = s.removeSub connId subId := by
  unfold removeExisting
  split
  · rfl
  · rename_i hnone
    rw [removeSub, Option.not_isSome_iff_eq_none.1 hnone]

/-- `addSub` of an up-to-date subscription does not throw. A subscription with the same id is
gone afterwards, also when the new one is refused. -/
theorem addSub_spec {s : ActiveMonitors} (h : s.Inv) (maxSubs : Nat) {m : MonitorPtr}
    (hm : s.monitors.lookup m = none) (sub : Subscription) {currEventId : Nat}
    (hcur : sub.latestEventId = currEventId) :
    ∃ b s', s.addSub maxSubs m sub currEventId = .ok (b, s') ∧ s'.Inv ∧
      (∀ m' sub', s'.monitors.lookup m' = some sub' ↔ (b = true ∧ m' = m ∧ sub' = sub) ∨
        (s.monitors.lookup m' = some sub' ∧
          ¬ (sub'.connId = sub.connId ∧ sub'.subId = sub.subId))) ∧
      (∀ e item, s'.tables.item? e = some item →
        (b = true ∧ e.1.mon = m ∧ item = ⟨m, currEventId⟩) ∨ s.tables.item? e = some item) := by
  obtain ⟨s₁, h₁, hr⟩ := removeSub_spec h sub.connId sub.subId
  have hremove : s.removeExisting sub.connId sub.subId = .ok s₁ := by
    rw [removeExisting_eq]
    exact h₁
  unfold addSub
  rw [if_neg (by simpa using hcur)]
  simp only [hremove, bind, Except.bind]
  have hinv := hr.inv h
  have hfresh : s₁.monitors.lookup m = none := by
    cases hl : s₁.monitors.lookup m with
    | none => rfl
    | some sub' =>
      rw [((hr.monitor m sub').1 hl).1] at hm
      cases hm
  split
  · refine ⟨false, _, rfl, ⟨fun connId subId m' => ?_, hinv.entered, hinv.item_mon, hinv.noEmpty⟩,
      fun m' sub' => ?_, fun e item he => Or.inr ((hr.item e item).1 he).1⟩
    · rw [Map.find₂_tryEmplace]
      exact hinv.owner connId subId m'
    · simp only [hr.monitor, Bool.false_eq_true, false_and, false_or]
  · refine ⟨true, s₁.install m sub currEventId, rfl, hinv.install hfresh ?_ currEventId, ?_, ?_⟩
    · exact fun m' sub' hsub' => ((hr.monitor m' sub').1 hsub').2
    · intro m' sub'
      simp only [install, Map.lookup_insert, true_and]
      split
      · rename_i hm'
        subst hm'
        rw [Option.some.injEq, hm]
        simp [eq_comm]
      · rename_i hm'
        simp only [hr.monitor, hm', false_and, false_or]
    · intro e item he
      rw [hinv.item_install hfresh] at he
      split at he
      · rename_i hmem
        cases he
        exact Or.inl ⟨rfl, (mem_entriesOf.1 hmem).1, rfl⟩
      · exact Or.inr ((hr.item e item).1 he).1

/-! ## The installed subscriptions after each operation -/

theorem Restricts.installed_eq {keep : Nat → SubId → Prop} {s s' : ActiveMonitors} (h : s.Inv)
    (hr : Restricts keep s s') {connId : Nat} {subId : SubId} (hkeep : keep connId subId) :
    s'.installed connId subId = s.installed connId subId := by
  ext sub
  rw [installed_eq_some_iff (hr.inv h), installed_eq_some_iff h]
  apply exists_congr
  intro m
  rw [hr.monitor]
  constructor
  · rintro ⟨⟨hm, -⟩, hkey⟩
    exact ⟨hm, hkey⟩
  · rintro ⟨hm, rfl, rfl⟩
    exact ⟨⟨hm, hkeep⟩, rfl, rfl⟩

theorem Restricts.installed_eq_none {keep : Nat → SubId → Prop} {s s' : ActiveMonitors} (h : s.Inv)
    (hr : Restricts keep s s') {connId : Nat} {subId : SubId} (hkeep : ¬ keep connId subId) :
    s'.installed connId subId = none := by
  rw [installed_eq_none_iff (hr.inv h)]
  rintro m sub hm ⟨rfl, rfl⟩
  exact hkeep ((hr.monitor m sub).1 hm).2

/-- The subscriptions after `addSub`. -/
theorem installed_addSub {s s' : ActiveMonitors} (h : s.Inv) {maxSubs : Nat} {m : MonitorPtr}
    (hm : s.monitors.lookup m = none) {sub : Subscription} {currEventId : Nat} {b : Bool}
    (hok : s.addSub maxSubs m sub currEventId = .ok (b, s')) (connId : Nat) (subId : SubId) :
    s'.installed connId subId = if connId = sub.connId ∧ subId = sub.subId then
      (if b then some sub else none) else s.installed connId subId := by
  have hcur : sub.latestEventId = currEventId := by
    unfold addSub at hok
    split at hok
    · cases hok
    · rename_i heq
      exact not_not.1 heq
  obtain ⟨b', s₁, hok', hinv, hmon, -⟩ := addSub_spec h maxSubs hm sub hcur
  rw [hok] at hok'
  cases hok'
  ext sub'
  rw [installed_eq_some_iff hinv]
  simp only [hmon]
  split
  · rename_i hkey
    obtain ⟨rfl, rfl⟩ := hkey
    constructor
    · rintro ⟨m', ⟨rfl, rfl, rfl⟩ | ⟨-, hne⟩, hkey⟩
      · rfl
      · exact absurd hkey hne
    · intro hsub'
      split at hsub'
      · rename_i hb
        cases hsub'
        exact ⟨m, Or.inl ⟨hb, rfl, rfl⟩, rfl, rfl⟩
      · cases hsub'
  · rename_i hkey
    rw [installed_eq_some_iff h]
    apply exists_congr
    intro m'
    constructor
    · rintro ⟨⟨-, -, rfl⟩ | ⟨hold, -⟩, hc, hi⟩
      · exact absurd ⟨hc.symm, hi.symm⟩ hkey
      · exact ⟨hold, hc, hi⟩
    · rintro ⟨hold, rfl, rfl⟩
      exact ⟨Or.inr ⟨hold, hkey⟩, rfl, rfl⟩

/-- The subscriptions that count are those of the connection with another id. -/
theorem addSub_accepted_iff {s s' : ActiveMonitors} (h : s.Inv) {maxSubs : Nat} {m : MonitorPtr}
    {sub : Subscription} {currEventId : Nat} {b : Bool}
    (hok : s.addSub maxSubs m sub currEventId = .ok (b, s')) :
    b = true ↔ {i | i ≠ sub.subId ∧ (s.installed sub.connId i).isSome}.ncard < maxSubs := by
  obtain ⟨s₁, hrem, hr⟩ := removeSub_spec h sub.connId sub.subId
  have hset : {i | (s₁.conns.find₂ sub.connId i).isSome} =
      {i | i ≠ sub.subId ∧ (s.installed sub.connId i).isSome} := by
    ext i
    simp only [Set.mem_ofPred_eq, isSome_installed_iff h, Option.isSome_iff_exists, hr.ptr]
    simp [and_comm]
  have hsize : Map.size (((s₁.conns.tryEmplace sub.connId ∅).lookup sub.connId).getD ∅) =
      {i | i ≠ sub.subId ∧ (s.installed sub.connId i).isSome}.ncard := by
    rw [Map.lookup_tryEmplace, if_pos rfl, Option.getD_some, Map.size_lookup, hset]
  unfold addSub at hok
  split at hok
  · cases hok
  simp only [removeExisting_eq, hrem, bind, Except.bind] at hok
  rw [hsize] at hok
  split at hok
  · rename_i hfull
    cases hok
    simpa using hfull
  · rename_i hfull
    cases hok
    simpa using hfull

/-! ## Connections without an entry -/

section NoEntry

variable {s s' : ActiveMonitors} {c : Nat}

theorem removeSub_noEntry (h : s.conns.lookup c = none) {connId : Nat} {subId : SubId}
    (hok : s.removeSub connId subId = .ok s') : s'.conns.lookup c = none := by
  unfold removeSub at hok
  split at hok
  · cases hok
    exact h
  · obtain ⟨tables, -, hok⟩ := bind_eq_ok.1 hok
    cases hok
    exact Map.lookup_eraseIn_eq_none h connId subId

theorem closeConn_noEntry (h : s.conns.lookup c = none) {connId : Nat}
    (hok : s.closeConn connId = .ok s') : s'.conns.lookup c = none := by
  unfold closeConn at hok
  split at hok
  · cases hok
    exact h
  · obtain ⟨tables, -, hok⟩ := bind_eq_ok.1 hok
    cases hok
    show AList.lookup c (s.conns.erase connId) = none
    rw [Map.lookup_erase, h, ite_self]

/-- Nothing is left of a connection that has been closed. -/
theorem closeConn_self {connId : Nat} (hok : s.closeConn connId = .ok s') :
    s'.conns.lookup connId = none := by
  unfold closeConn at hok
  split at hok
  · rename_i hnone
    cases hok
    exact hnone
  · obtain ⟨tables, -, hok⟩ := bind_eq_ok.1 hok
    cases hok
    show AList.lookup connId (s.conns.erase connId) = none
    rw [Map.lookup_erase, if_pos rfl]

theorem addSub_noEntry (h : s.conns.lookup c = none) {maxSubs : Nat} {m : MonitorPtr}
    {sub : Subscription} {currEventId : Nat} {b : Bool} (hne : c ≠ sub.connId)
    (hok : s.addSub maxSubs m sub currEventId = .ok (b, s')) : s'.conns.lookup c = none := by
  unfold addSub at hok
  split at hok
  · cases hok
  obtain ⟨s₁, h₁, hok⟩ := bind_eq_ok.1 hok
  have hold : (Map.tryEmplace s₁.conns sub.connId ∅).lookup c = none := by
    rw [Map.lookup_tryEmplace, if_neg hne]
    unfold removeExisting at h₁
    split at h₁
    · exact removeSub_noEntry h h₁
    · cases h₁
      exact h
  simp only at hok
  split at hok
  · cases hok
    exact hold
  · cases hok
    rw [Map.emplaceIn, Map.lookup_insert, if_neg hne]
    exact hold

end NoEntry

end ActiveMonitors

end Strfry
