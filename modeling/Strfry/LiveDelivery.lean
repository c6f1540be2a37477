import Strfry.MonitorTables

/-!
# Delivery of new events to live subscriptions

`process` visits the monitor sets of an event one filter at a time. `Pass` is what holds after any
number of visits, relative to the state before: the monitors hit so far are the recipients, each
once, and a filter that has been visited and matches has its monitor among them. From it follows
what a whole call does (`process_spec`), and by induction over the calls that the indexed matcher
agrees with the plain filter in every reachable state.
-/

set_option autoImplicit false

namespace Strfry

open Lib LookupTables

namespace ActiveMonitors

/-- An item that is not older than the event belongs to a subscription that is not either. -/
def Fresh (s : ActiveMonitors) (levId : Nat) : Prop :=
  ∀ e item sub, s.tables.item? e = some item → s.monitors.lookup e.1.mon = some sub →
    levId ≤ item.latestEventId → (levId : WithTop Nat) ≤ sub.latestEventId

section Pass

variable (s : ActiveMonitors) (levId : Nat) (ev : PackedEvent)

/-- If the filter of the entry matches, and its item and its subscription are older than the event,
the monitor is hit. -/
def Done (hits : List MonitorPtr) (e : FilterPtr × LookupKey) : Prop :=
  ∀ item sub filter, s.tables.item? e = some item → item.latestEventId < levId →
    s.monitors.lookup e.1.mon = some sub → sub.latestEventId < (levId : WithTop Nat) →
    sub.filterGroup.filters[e.1.index]? = some filter → filter.doesMatch ev = true → e.1.mon ∈ hits

/-- The subscription of a monitor after the event has been delivered to the monitors hit. -/
def stamp (hits : List MonitorPtr) (m : MonitorPtr) (sub : Subscription) : Subscription :=
  if m ∈ hits then { sub with latestEventId := levId } else sub

/-- The state of `process` after some visits, with the monitors hit so far. -/
structure Pass (hits : List MonitorPtr) (t : LookupTables) (d : Delivery) : Prop where
  monitors : ∀ m, d.monitors.lookup m = (s.monitors.lookup m).map (stamp levId hits m)
  recipients : d.recipients = hits.filterMap fun m =>
    (s.monitors.lookup m).map fun sub => (sub.connId, sub.subId)
  nodup : hits.Nodup
  hit : ∀ m ∈ hits, ∃ sub, s.monitors.lookup m = some sub ∧
    sub.latestEventId < (levId : WithTop Nat) ∧ sub.filterGroup.doesMatch ev = true
  item : ∀ e, t.item? e = s.tables.item? e ∨ ∃ item, s.tables.item? e = some item ∧
    t.item? e = some { item with latestEventId := levId } ∧ Done s levId ev hits e
  noEmpty : t.NoEmpty

theorem pass_start (h : s.Inv) :
    Pass s levId ev [] s.tables { monitors := s.monitors } where
  monitors := by
    intro m
    have hsame : stamp levId [] m = id := by
      funext sub
      simp [stamp]
    rw [hsame, Option.map_id]
    rfl
  recipients := rfl
  nodup := List.nodup_nil
  hit := by simp
  item := fun e => Or.inl rfl
  noEmpty := h.noEmpty

variable {s levId ev}

theorem Done.mono {hits hits' : List MonitorPtr} (hsub : hits ⊆ hits') {e : FilterPtr × LookupKey}
    (h : Done s levId ev hits e) : Done s levId ev hits' e :=
  fun item sub filter h₁ h₂ h₃ h₄ h₅ h₆ => hsub (h item sub filter h₁ h₂ h₃ h₄ h₅ h₆)

theorem Pass.isSome {hits : List MonitorPtr} {t : LookupTables} {d : Delivery}
    (h : Pass s levId ev hits t d) (e : FilterPtr × LookupKey) :
    (t.item? e).isSome = (s.tables.item? e).isSome := by
  rcases h.item e with heq | ⟨item, h₁, h₂, -⟩
  · rw [heq]
  · rw [h₁, h₂]
    rfl

/-- An item in the tables during the pass points to the monitor of its filter. -/
theorem Pass.item_mon (hinv : s.Inv) {hits : List MonitorPtr} {t : LookupTables} {d : Delivery}
    (h : Pass s levId ev hits t d) {e : FilterPtr × LookupKey} {item : MonitorItem}
    (hitem : t.item? e = some item) : item.mon = e.1.mon := by
  rcases h.item e with heq | ⟨item₀, h₁, h₂, -⟩
  · exact hinv.item_mon e item (heq ▸ hitem)
  · rw [h₂] at hitem
    cases hitem
    exact hinv.item_mon e item₀ h₁

/-- The tables after a visit that marks an item whose filter is done. -/
theorem Pass.item_mark (hinv : s.Inv) {hits hits' : List MonitorPtr} {t t' : LookupTables}
    {d : Delivery} (h : Pass s levId ev hits t d) {e : FilterPtr × LookupKey} {item : MonitorItem}
    (hitem : t.item? e = some item) (hsubset : hits ⊆ hits') (hdone : Done s levId ev hits' e)
    (ht' : ∀ e', t'.item? e' =
      if e' = e then some { item with latestEventId := levId } else t.item? e')
    (e' : FilterPtr × LookupKey) :
    t'.item? e' = s.tables.item? e' ∨ ∃ item₀, s.tables.item? e' = some item₀ ∧
      t'.item? e' = some { item₀ with latestEventId := levId } ∧ Done s levId ev hits' e' := by
  rw [ht']
  split
  · rename_i he
    subst he
    obtain ⟨item₀, hitem₀⟩ := Option.isSome_iff_exists.1
      ((h.isSome e').symm.trans (by rw [hitem]; rfl))
    refine Or.inr ⟨item₀, hitem₀, ?_, hdone⟩
    rw [h.item_mon hinv hitem, hinv.item_mon e' item₀ hitem₀]
  · rcases h.item e' with heq | ⟨item₀, h₁, h₂, h₃⟩
    · exact Or.inl heq
    · exact Or.inr ⟨item₀, h₁, h₂, h₃.mono hsubset⟩

/-- A visit that changes nothing. -/
theorem Pass.skip {hits : List MonitorPtr} {t t' : LookupTables} {d : Delivery}
    (h : Pass s levId ev hits t d) {e : FilterPtr × LookupKey} {item : MonitorItem}
    (hitem : t.item? e = some item) (hne : t'.NoEmpty)
    (ht' : ∀ e', t'.item? e' = if e' = e then some item else t.item? e') :
    Pass s levId ev hits t' d := by
  refine { h with item := fun e' => ?_, noEmpty := hne }
  have heq : t'.item? e' = t.item? e' := by
    rw [ht']
    split
    · rename_i he
      rw [he, hitem]
    · rfl
  rw [heq]
  exact h.item e'

/-- A visit that delivers the event. -/
theorem Pass.deliver (hinv : s.Inv) {hits : List MonitorPtr} {t t' : LookupTables} {d : Delivery}
    (h : Pass s levId ev hits t d) {e : FilterPtr × LookupKey} {item : MonitorItem}
    (hitem : t.item? e = some item) {sub : Subscription} {filter : NostrFilter}
    (hsub : s.monitors.lookup e.1.mon = some sub)
    (hfilter : sub.filterGroup.filters[e.1.index]? = some filter) (hhit : e.1.mon ∉ hits)
    (hlt : sub.latestEventId < (levId : WithTop Nat)) (hmatch : filter.doesMatch ev = true)
    (hne : t'.NoEmpty)
    (ht' : ∀ e', t'.item? e' =
      if e' = e then some { item with latestEventId := levId } else t.item? e') :
    Pass s levId ev (hits ++ [e.1.mon]) t'
      { monitors := d.monitors.insert e.1.mon { sub with latestEventId := levId }
        recipients := d.recipients ++ [(sub.connId, sub.subId)] } where
  monitors := by
    intro m
    rw [Map.lookup_insert]
    by_cases hm : m = e.1.mon
    · subst hm
      rw [if_pos rfl, hsub]
      simp [stamp]
    · have hsame : stamp levId (hits ++ [e.1.mon]) m = stamp levId hits m := by
        funext sub'
        simp [stamp, hm]
      rw [if_neg hm, h.monitors, hsame]
  recipients := by
    rw [List.filterMap_append, h.recipients]
    simp [hsub]
  nodup := by
    rw [List.nodup_append]
    refine ⟨h.nodup, by simp, ?_⟩
    intro a ha b hb hab
    rw [List.mem_singleton] at hb
    exact hhit (hb ▸ hab ▸ ha)
  hit := by
    intro m hm
    rcases List.mem_append.1 hm with hm | hm
    · exact h.hit m hm
    · rw [List.mem_singleton] at hm
      subst hm
      exact ⟨sub, hsub, hlt, (NostrFilterGroup.doesMatch_iff _ _).2
        ⟨filter, List.mem_of_getElem? hfilter, hmatch⟩⟩
  item := h.item_mark hinv hitem (List.subset_append_left _ _)
    (fun _ _ _ _ _ _ _ _ _ => by simp) ht'
  noEmpty := hne

/-- A visit of one item: the loop body of `processMonitorSet`. -/
theorem processItem_spec (hinv : s.Inv) {hits : List MonitorPtr}
    {t : LookupTables} {d : Delivery} (h : Pass s levId ev hits t d) {e : FilterPtr × LookupKey}
    {item : MonitorItem} (hitem : t.item? e = some item) :
    ∃ item' d' hits', processItem levId ev e.1 item d = some (item', d') ∧ hits ⊆ hits' ∧
      Done s levId ev hits' e ∧
      ∀ t' : LookupTables, t'.NoEmpty →
        (∀ e', t'.item? e' = if e' = e then some item' else t.item? e') →
        Pass s levId ev hits' t' d' := by
  obtain ⟨sub, hsub, hmem⟩ := (hinv.entered e).1 ((h.isSome e).symm.trans (by rw [hitem]; rfl))
  obtain ⟨-, filter, hfilter, -⟩ := mem_entriesOf.1 hmem
  have hmon : item.mon = e.1.mon := h.item_mon hinv hitem
  have hlook : d.monitors.lookup item.mon = some (stamp levId hits e.1.mon sub) := by
    rw [hmon, h.monitors, hsub]
    rfl
  -- an item that is passed by stays as it is
  have hskip : ∀ hdone : Done s levId ev hits e,
      ∃ item' d' hits', some (item, d) = some (item', d') ∧ hits ⊆ hits' ∧
        Done s levId ev hits' e ∧ ∀ t' : LookupTables, t'.NoEmpty →
          (∀ e', t'.item? e' = if e' = e then some item' else t.item? e') →
          Pass s levId ev hits' t' d' :=
    fun hdone => ⟨item, d, hits, rfl, List.Subset.refl _, hdone, fun _ hne ht' => h.skip hitem hne ht'⟩
  unfold processItem
  split
  · rename_i hle
    apply hskip
    rcases h.item e with heq | ⟨-, -, -, hdone⟩
    · intro item' sub' filter' hitem' hlt
      rw [← heq, hitem] at hitem'
      cases hitem'
      exact absurd hle (not_le.2 hlt)
    · exact hdone
  simp only [hlook]
  -- the monitor has the event already, through another filter or another key
  by_cases hhit : e.1.mon ∈ hits
  · rw [if_pos (by rw [stamp, if_pos hhit])]
    exact hskip fun _ _ _ _ _ _ _ _ _ => hhit
  rw [stamp, if_neg hhit] at hlook ⊢
  split
  · rename_i hle
    apply hskip
    intro item' sub' filter' _ _ hsub' hlt
    rw [hsub] at hsub'
    cases hsub'
    exact absurd hle (not_le.2 hlt)
  · rename_i hlt
    have hderef : e.1.deref d.monitors = some filter := by
      rw [FilterPtr.deref, ← hmon, hlook]
      exact hfilter
    simp only [hderef]
    split
    · rename_i hmatch
      refine ⟨_, _, hits ++ [e.1.mon], rfl, List.subset_append_left _ _,
        fun _ _ _ _ _ _ _ _ _ => by simp, fun t' hne ht' => ?_⟩
      rw [hmon]
      exact h.deliver hinv hitem hsub hfilter hhit (not_le.1 hlt) hmatch hne ht'
    · rename_i hmatch
      have hdone : Done s levId ev hits e := by
        intro item' sub' filter' _ _ hsub' _ hfilter' hmatch'
        rw [hsub] at hsub'
        cases hsub'
        rw [hfilter] at hfilter'
        cases hfilter'
        exact absurd hmatch' hmatch
      refine ⟨_, d, hits, rfl, List.Subset.refl _, hdone, fun t' hne ht' => ?_⟩
      exact { h with item := h.item_mark hinv hitem (List.Subset.refl _) hdone ht', noEmpty := hne }

/-- The loop of `processMonitorSet`, over filters of the set under the key `k`. -/
theorem processItems_spec (hinv : s.Inv) {t : LookupTables} {k : LookupKey} (fs : List FilterPtr)
    {ms : MonitorSet} {d : Delivery} {hits : List MonitorPtr}
    (hfs : ∀ f ∈ fs, ∃ item, ms.lookup f = some item) (h : Pass s levId ev hits (t.put k ms) d) :
    ∃ ms' d' hits', processItems levId ev fs ms d = some (ms', d') ∧ hits ⊆ hits' ∧
      Pass s levId ev hits' (t.put k ms') d' ∧ ∀ f ∈ fs, Done s levId ev hits' (f, k) := by
  induction fs generalizing ms d hits with
  | nil => exact ⟨ms, d, hits, rfl, List.Subset.refl _, h, by simp⟩
  | cons f fs ih =>
    obtain ⟨item, hitem⟩ := hfs f List.mem_cons_self
    have hitem' : (t.put k ms).item? (f, k) = some item := by
      rw [item?_put, if_pos rfl]
      exact hitem
    obtain ⟨item₁, d₁, hits₁, h₁, hsub₁, hdone₁, hpass₁⟩ := processItem_spec hinv h hitem'
    have hpass : Pass s levId ev hits₁ (t.put k (ms.insert f item₁)) d₁ := by
      refine hpass₁ _ ?_ ?_
      · intro j ms' hj hget
        rw [get?_put] at hget
        split at hget
        · cases hget
          rw [AList.keys_insert]
          exact List.cons_ne_nil _ _
        · rename_i hjk
          refine h.noEmpty j ms' hj ?_
          rw [get?_put, if_neg hjk]
          exact hget
      · rintro ⟨f', k'⟩
        rw [item?_put, item?_put, Map.lookup_insert]
        by_cases hk : k' = k <;> by_cases hf : f' = f <;> simp [hk, hf]
    have hrest : ∀ f' ∈ fs, ∃ item', AList.lookup f' (ms.insert f item₁) = some item' := by
      intro f' hf'
      rw [Map.lookup_insert]
      split
      · exact ⟨_, rfl⟩
      · exact hfs f' (List.mem_cons_of_mem _ hf')
    obtain ⟨ms₂, d₂, hits₂, h₂, hsub₂, hpass₂, hdone₂⟩ := ih hrest hpass
    refine ⟨ms₂, d₂, hits₂, ?_, List.Subset.trans hsub₁ hsub₂, hpass₂, ?_⟩
    · simp only [processItems, hitem, h₁]
      exact h₂
    · intro f' hf'
      rcases List.mem_cons.1 hf' with rfl | hf'
      · exact hdone₁.mono hsub₂
      · exact hdone₂ f' hf'

/-- The walk of `processMonitorsExact` visits the monitor set of its key. -/
theorem processMonitorsExact_eq {K : Type} [LinearOrder K] [DecidableEq K]
    (table : Map K MonitorSet) (key : K) (d : Delivery) :
    processMonitorsExact levId ev table key d =
      match table.lookup key with
      | none => some (table, d)
      | some ms => (processMonitorSet levId ev ms d).map fun r => (table.insert key r.1, r.2) := by
  rw [processMonitorsExact, Map.takeWhile_downFrom]
  cases hms : table.lookup key with
  | none =>
    rw [if_neg fun hk => ?_]
    · rfl
    · obtain ⟨ms, hms'⟩ := Map.mem_keys_iff.1 hk
      rw [hms] at hms'
      cases hms'
  | some ms =>
    rw [if_pos (Map.mem_keys_iff.2 ⟨ms, hms⟩)]
    simp only [processWalk, hms]
    cases processMonitorSet levId ev ms d <;> rfl

theorem processKey_eq (k : LookupKey) (t : LookupTables) (d : Delivery) :
    processKey levId ev k t d =
      match t.get? k with
      | none => some (t, d)
      | some ms => (processMonitorSet levId ev ms d).map fun r => (t.put k r.1, r.2) := by
  cases k with
  | other => rfl
  | id b | author b | tag b | kind n =>
    simp only [processKey, processMonitorsExact_eq, get?, put]
    split
    · rfl
    · rw [Option.map_map]
      rfl

/-- One lookup. -/
theorem processKey_spec (hinv : s.Inv) (k : LookupKey) {t : LookupTables} {d : Delivery}
    {hits : List MonitorPtr} (h : Pass s levId ev hits t d) :
    ∃ t' d' hits', processKey levId ev k t d = some (t', d') ∧ hits ⊆ hits' ∧
      Pass s levId ev hits' t' d' ∧
      ∀ f, (s.tables.item? (f, k)).isSome → Done s levId ev hits' (f, k) := by
  rw [processKey_eq]
  cases hms : t.get? k with
  | none =>
    refine ⟨t, d, hits, rfl, List.Subset.refl _, h, fun f hf => ?_⟩
    rw [← h.isSome, item?, hms] at hf
    cases hf
  | some ms =>
    have hitem : ∀ e, (t.put k ms).item? e = t.item? e := by
      intro e
      rw [item?_put]
      split
      · rename_i he
        rw [item?, he, hms, Option.bind_some]
      · rfl
    have hput : Pass s levId ev hits (t.put k ms) d :=
      { h with
        item := fun e => by
          rw [hitem]
          exact h.item e
        noEmpty := h.noEmpty.put fun hk => h.noEmpty k ms hk hms }
    obtain ⟨ms', d', hits', h', hsub, hpass, hdone⟩ :=
      processItems_spec hinv ms.keys (fun f hf => Map.mem_keys_iff.1 hf) hput
    refine ⟨t.put k ms', d', hits', ?_, hsub, hpass, fun f hf => hdone f ?_⟩
    · simp only [processMonitorSet, h']
      rfl
    · rw [← h.isSome, item?, hms] at hf
      exact Map.mem_keys_iff.2 (Option.isSome_iff_exists.1 hf)

theorem processKeys_spec (hinv : s.Inv) (ks : List LookupKey) {t : LookupTables} {d : Delivery}
    {hits : List MonitorPtr} (h : Pass s levId ev hits t d) :
    ∃ t' d' hits', processKeys levId ev ks t d = some (t', d') ∧ hits ⊆ hits' ∧
      Pass s levId ev hits' t' d' ∧
      ∀ k ∈ ks, ∀ f, (s.tables.item? (f, k)).isSome → Done s levId ev hits' (f, k) := by
  induction ks generalizing t d hits with
  | nil => exact ⟨t, d, hits, rfl, List.Subset.refl _, h, by simp⟩
  | cons k ks ih =>
    obtain ⟨t₁, d₁, hits₁, h₁, hsub₁, hpass₁, hdone₁⟩ := processKey_spec hinv k h
    obtain ⟨t₂, d₂, hits₂, h₂, hsub₂, hpass₂, hdone₂⟩ := ih hpass₁
    refine ⟨t₂, d₂, hits₂, ?_, List.Subset.trans hsub₁ hsub₂, hpass₂, ?_⟩
    · simp only [processKeys, h₁]
      exact h₂
    · intro k' hk' f hf
      rcases List.mem_cons.1 hk' with rfl | hk'
      · exact (hdone₁ f hf).mono hsub₂
      · exact hdone₂ k' hk' f hf

end Pass

/-! ## A call of `process` -/

/-- Whether an event goes to a subscription. -/
def receives (levId : Nat) (ev : PackedEvent) (sub : Subscription) : Prop :=
  sub.latestEventId < (levId : WithTop Nat) ∧ sub.filterGroup.doesMatch ev = true

instance (levId : Nat) (ev : PackedEvent) (sub : Subscription) : Decidable (receives levId ev sub) :=
  inferInstanceAs (Decidable (_ ∧ _))

/-- A subscription after the event has been processed. -/
def afterEvent (levId : Nat) (ev : PackedEvent) (sub : Subscription) : Subscription :=
  if receives levId ev sub then { sub with latestEventId := levId } else sub

@[simp] theorem afterEvent_connId (levId : Nat) (ev : PackedEvent) (sub : Subscription) :
    (afterEvent levId ev sub).connId = sub.connId := by
  unfold afterEvent
  split <;> rfl

@[simp] theorem afterEvent_subId (levId : Nat) (ev : PackedEvent) (sub : Subscription) :
    (afterEvent levId ev sub).subId = sub.subId := by
  unfold afterEvent
  split <;> rfl

@[simp] theorem afterEvent_filterGroup (levId : Nat) (ev : PackedEvent) (sub : Subscription) :
    (afterEvent levId ev sub).filterGroup = sub.filterGroup := by
  unfold afterEvent
  split <;> rfl

/-- A filter of the monitor matches the event and has an item under one of the keys of the event, and
neither the item nor the subscription is as new as the event. -/
def Awaits (s : ActiveMonitors) (m : MonitorPtr) (levId : Nat) (ev : PackedEvent) : Prop :=
  ∃ e item sub filter, e.1.mon = m ∧ e.2 ∈ ev.lookupKeys ∧ s.tables.item? e = some item ∧
    s.monitors.lookup m = some sub ∧ sub.filterGroup.filters[e.1.index]? = some filter ∧
    filter.doesMatch ev = true ∧ item.latestEventId < levId ∧
    sub.latestEventId < (levId : WithTop Nat)

theorem Fresh.awaits {s : ActiveMonitors} {levId : Nat} (hfresh : s.Fresh levId) (hinv : s.Inv)
    {m : MonitorPtr} {sub : Subscription} (hsub : s.monitors.lookup m = some sub)
    {ev : PackedEvent} (hrec : receives levId ev sub) : s.Awaits m levId ev := by
  obtain ⟨f, hf, hfmatch⟩ := (NostrFilterGroup.doesMatch_iff _ _).1 hrec.2
  obtain ⟨i, hi⟩ := List.mem_iff_getElem?.1 hf
  obtain ⟨k, hkf, hkev⟩ := NostrFilter.exists_lookupKey_of_doesMatch hfmatch
  have hentry : ((⟨m, i⟩, k) : FilterPtr × LookupKey) ∈ entriesOf m sub.filterGroup :=
    mem_entriesOf.2 ⟨rfl, f, hi, hkf⟩
  obtain ⟨item, hitem⟩ := Option.isSome_iff_exists.1 (hinv.item_isSome hsub _ hentry)
  refine ⟨_, item, sub, f, rfl, hkev, hitem, hsub, hi, hfmatch, ?_, hrec.1⟩
  by_contra hle
  exact not_le.2 hrec.1 (hfresh _ item sub hitem hsub (not_lt.1 hle))

/-- What a call of `process` does to the monitors, and who receives the event. -/
structure Processed (s : ActiveMonitors) (levId : Nat) (ev : PackedEvent) (s' : ActiveMonitors)
    (recipients : RecipientList) : Prop where
  conns : s'.conns = s.conns
  monitor : ∀ m, s'.monitors.lookup m = (s.monitors.lookup m).map (afterEvent levId ev)
  isSome : ∀ e, (s'.tables.item? e).isSome = (s.tables.item? e).isSome
  item : ∀ e item', s'.tables.item? e = some item' → ∃ item, s.tables.item? e = some item ∧
    (item' = item ∨ item' = { item with latestEventId := levId })
  noEmpty : s'.tables.NoEmpty
  nodup : recipients.Nodup
  mem : ∀ connId subId, (connId, subId) ∈ recipients ↔
    ∃ sub, s.installed connId subId = some sub ∧ receives levId ev sub

/-- The invariant survives updates of the `latestEventId`s. -/
theorem Inv.update {s s' : ActiveMonitors} (hinv : s.Inv) (g : Subscription → Subscription)
    (hg : ∀ sub, (g sub).connId = sub.connId ∧ (g sub).subId = sub.subId ∧
      (g sub).filterGroup = sub.filterGroup)
    (hconns : s'.conns = s.conns)
    (hmon : ∀ m, s'.monitors.lookup m = (s.monitors.lookup m).map g)
    (hsome : ∀ e, (s'.tables.item? e).isSome = (s.tables.item? e).isSome)
    (hitem : ∀ e item', s'.tables.item? e = some item' →
      ∃ item, s.tables.item? e = some item ∧ item'.mon = item.mon)
    (hne : s'.tables.NoEmpty) : s'.Inv where
  owner := by
    intro connId subId m
    rw [hconns, hinv.owner, hmon]
    cases s.monitors.lookup m <;> simp [hg]
  entered := by
    intro e
    rw [hsome, hinv.entered, hmon]
    cases s.monitors.lookup e.1.mon <;> simp [hg]
  item_mon := by
    intro e item' hitem'
    obtain ⟨item, hold, hm⟩ := hitem e item' hitem'
    exact hm.trans (hinv.item_mon e item hold)
  noEmpty := hne

theorem Processed.inv {s s' : ActiveMonitors} {levId : Nat} {ev : PackedEvent}
    {recipients : RecipientList} (hinv : s.Inv) (h : Processed s levId ev s' recipients) :
    s'.Inv := by
  apply hinv.update (afterEvent levId ev) (fun sub => by simp) h.conns h.monitor h.isSome ?_
    h.noEmpty
  intro e item' hitem'
  obtain ⟨item, hitem, rfl | rfl⟩ := h.item e item' hitem'
  · exact ⟨_, hitem, rfl⟩
  · exact ⟨item, hitem, rfl⟩

/-- Later events are fresh after the call if they were before. -/
theorem Processed.fresh {s s' : ActiveMonitors} {levId levId' : Nat} {ev : PackedEvent}
    {recipients : RecipientList} (h : Processed s levId ev s' recipients)
    (hfresh : s.Fresh levId') (hlt : levId < levId') : s'.Fresh levId' := by
  intro e item' sub' hitem' hsub' hle
  obtain ⟨item, hitem, heq⟩ := h.item e item' hitem'
  rw [h.monitor] at hsub'
  obtain ⟨sub, hsub, rfl⟩ := Option.map_eq_some_iff.1 hsub'
  rcases heq with rfl | rfl
  · have hold := hfresh e _ sub hitem hsub hle
    unfold afterEvent
    split
    · rename_i hrec
      have : (levId' : WithTop Nat) < levId := hold.trans_lt hrec.1
      exact absurd (WithTop.coe_lt_coe.1 this) (not_lt.2 hlt.le)
    · exact hold
  · exact absurd hle (not_le.2 hlt)

/-- Every monitor hit receives the event, and a monitor that awaits it is hit. -/
theorem Pass.mem_hits_iff {s : ActiveMonitors} {levId : Nat} {ev : PackedEvent}
    {hits : List MonitorPtr} {t : LookupTables} {d : Delivery} (h : Pass s levId ev hits t d)
    (hdone : ∀ k ∈ ev.lookupKeys, ∀ f, (s.tables.item? (f, k)).isSome → Done s levId ev hits (f, k))
    {m : MonitorPtr} {sub : Subscription} (hsub : s.monitors.lookup m = some sub) :
    (m ∈ hits → receives levId ev sub) ∧
      (s.Awaits m levId ev → m ∈ hits) := by
  constructor
  · intro hm
    obtain ⟨sub', hsub', hrec⟩ := h.hit m hm
    rw [hsub] at hsub'
    cases hsub'
    exact hrec
  · rintro ⟨e, item, sub', filter, rfl, hkey, hitem, hsub', hfilter, hmatch, hlt, hlt'⟩
    exact hdone e.2 hkey e.1 (Option.isSome_iff_exists.2 ⟨item, hitem⟩) item sub' filter hitem hlt
      hsub' hlt' hfilter hmatch

/-- Different monitors are different recipients. -/
theorem Pass.nodup_recipients {s : ActiveMonitors} {levId : Nat} {ev : PackedEvent} (hinv : s.Inv)
    {hits : List MonitorPtr} {t : LookupTables} {d : Delivery} (h : Pass s levId ev hits t d) :
    d.recipients.Nodup := by
  rw [h.recipients]
  refine h.nodup.filterMap fun m m' key hm hm' => ?_
  obtain ⟨sub, hsub, rfl⟩ := Option.map_eq_some_iff.1 (Option.mem_def.1 hm)
  obtain ⟨sub', hsub', heq⟩ := Option.map_eq_some_iff.1 (Option.mem_def.1 hm')
  exact hinv.monitor_unique hsub hsub' (congrArg Prod.fst heq).symm (congrArg Prod.snd heq).symm

/-- A subscription after an event has gone to the recipients. -/
def delivered (levId : Nat) (recipients : RecipientList) (sub : Subscription) : Subscription :=
  if (sub.connId, sub.subId) ∈ recipients then { sub with latestEventId := levId } else sub

@[simp] theorem delivered_connId (levId : Nat) (recipients : RecipientList) (sub : Subscription) :
    (delivered levId recipients sub).connId = sub.connId := by
  unfold delivered
  split <;> rfl

@[simp] theorem delivered_subId (levId : Nat) (recipients : RecipientList) (sub : Subscription) :
    (delivered levId recipients sub).subId = sub.subId := by
  unfold delivered
  split <;> rfl

@[simp] theorem delivered_filterGroup (levId : Nat) (recipients : RecipientList)
    (sub : Subscription) : (delivered levId recipients sub).filterGroup = sub.filterGroup := by
  unfold delivered
  split <;> rfl

/-- What a call of `process` does for any levId: a subscription may be passed over when its items are
not older than the event. -/
structure Delivered (s : ActiveMonitors) (levId : Nat) (ev : PackedEvent) (s' : ActiveMonitors)
    (recipients : RecipientList) : Prop where
  conns : s'.conns = s.conns
  monitor : ∀ m, s'.monitors.lookup m = (s.monitors.lookup m).map (delivered levId recipients)
  isSome : ∀ e, (s'.tables.item? e).isSome = (s.tables.item? e).isSome
  item : ∀ e item', s'.tables.item? e = some item' → ∃ item, s.tables.item? e = some item ∧
    (item' = item ∨ item' = { item with latestEventId := levId })
  noEmpty : s'.tables.NoEmpty
  nodup : recipients.Nodup
  sound : ∀ connId subId, (connId, subId) ∈ recipients →
    ∃ sub, s.installed connId subId = some sub ∧ receives levId ev sub
  complete : ∀ m sub, s.monitors.lookup m = some sub → s.Awaits m levId ev →
    (sub.connId, sub.subId) ∈ recipients

theorem Delivered.inv {s s' : ActiveMonitors} {levId : Nat} {ev : PackedEvent}
    {recipients : RecipientList} (hinv : s.Inv) (h : Delivered s levId ev s' recipients) :
    s'.Inv := by
  apply hinv.update (delivered levId recipients) (fun sub => by simp) h.conns h.monitor h.isSome ?_
    h.noEmpty
  intro e item' hitem'
  obtain ⟨item, hitem, rfl | rfl⟩ := h.item e item' hitem'
  · exact ⟨_, hitem, rfl⟩
  · exact ⟨item, hitem, rfl⟩

/-- `process` succeeds, and calls `cb` when there is a recipient. -/
theorem process_delivers {s : ActiveMonitors} (hinv : s.Inv) (levId : Nat) (ev : PackedEvent) :
    ∃ s' recipients, s.process levId ev =
        some (s', if recipients.length ≠ 0 then some (recipients, levId) else none) ∧
      Delivered s levId ev s' recipients := by
  obtain ⟨t, d, hits, hkeys, -, hpass, hdone⟩ :=
    processKeys_spec hinv ev.lookupKeys (pass_start s levId ev hinv)
  have hmem : ∀ m sub, s.monitors.lookup m = some sub →
      (m ∈ hits ↔ (sub.connId, sub.subId) ∈ d.recipients) := by
    intro m sub hsub
    rw [hpass.recipients, List.mem_filterMap]
    constructor
    · intro hm
      exact ⟨m, hm, by rw [hsub]; rfl⟩
    · rintro ⟨m', hm', hkey⟩
      obtain ⟨sub', hsub', heq⟩ := Option.map_eq_some_iff.1 hkey
      rw [Prod.mk.injEq] at heq
      rwa [hinv.monitor_unique hsub hsub' heq.1.symm heq.2.symm]
  refine ⟨{ s with tables := t, monitors := d.monitors }, d.recipients, ?_, rfl, ?_, hpass.isSome,
    ?_, hpass.noEmpty, hpass.nodup_recipients hinv, ?_, ?_⟩
  · rw [process, hkeys]
    rfl
  · intro m
    rw [hpass.monitors]
    refine Option.map_congr fun sub hsub => ?_
    rw [stamp, delivered]
    simp only [hmem m sub (Option.mem_def.1 hsub)]
  · intro e item' hitem'
    rcases hpass.item e with heq | ⟨item, h₁, h₂, -⟩
    · exact ⟨item', heq ▸ hitem', Or.inl rfl⟩
    · rw [h₂] at hitem'
      cases hitem'
      exact ⟨item, h₁, Or.inr rfl⟩
  · intro connId subId hin
    rw [hpass.recipients, List.mem_filterMap] at hin
    obtain ⟨m, hm, hkey⟩ := hin
    obtain ⟨sub, hsub, heq⟩ := Option.map_eq_some_iff.1 hkey
    cases heq
    exact ⟨sub, (installed_eq_some_iff hinv).2 ⟨m, hsub, rfl, rfl⟩,
      (hpass.mem_hits_iff hdone hsub).1 hm⟩
  · intro m sub hsub hawaits
    exact (hmem m sub hsub).1 ((hpass.mem_hits_iff hdone hsub).2 hawaits)

/-- With no item to hide the event, the recipients are exactly the subscriptions that receive it. -/
theorem process_spec {s : ActiveMonitors} (hinv : s.Inv) {levId : Nat} (hfresh : s.Fresh levId)
    (ev : PackedEvent) :
    ∃ s' recipients, s.process levId ev =
        some (s', if recipients.length ≠ 0 then some (recipients, levId) else none) ∧
      Processed s levId ev s' recipients := by
  obtain ⟨s', recipients, call, h⟩ := process_delivers hinv levId ev
  have hiff : ∀ m sub, s.monitors.lookup m = some sub →
      ((sub.connId, sub.subId) ∈ recipients ↔ receives levId ev sub) := by
    intro m sub hsub
    constructor
    · intro hin
      obtain ⟨sub', hinst, hrec⟩ := h.sound _ _ hin
      obtain ⟨m', hsub', hc, hi⟩ := (installed_eq_some_iff hinv).1 hinst
      obtain rfl := hinv.monitor_unique hsub hsub' hc.symm hi.symm
      rw [hsub] at hsub'
      cases hsub'
      exact hrec
    · intro hrec
      exact h.complete m sub hsub (hfresh.awaits hinv hsub hrec)
  refine ⟨s', recipients, call, h.conns, ?_, h.isSome, h.item, h.noEmpty, h.nodup, ?_⟩
  · intro m
    rw [h.monitor]
    refine Option.map_congr fun sub hsub => ?_
    rw [delivered, afterEvent]
    simp only [hiff m sub (Option.mem_def.1 hsub)]
  · intro connId subId
    constructor
    · exact h.sound connId subId
    · rintro ⟨sub, hinst, hrec⟩
      obtain ⟨m, hsub, rfl, rfl⟩ := (installed_eq_some_iff hinv).1 hinst
      exact (hiff m sub hsub).2 hrec

/-! ## Runs -/

/-- States that calls lead to from the empty one, with the levIds processed and those at which a
subscription was installed. A new monitor gets an address that is not in use, and `process` gets
increasing levIds. A call of `addSub` that throws changes nothing. -/
inductive Reachable (maxSubs : Nat) : List Nat → List Nat → ActiveMonitors → Prop
  | start : Reachable maxSubs [] [] {}
  | addSub {processed installedAt : List Nat} {s s' : ActiveMonitors} {m : MonitorPtr}
      {sub : Subscription} {currEventId : Nat} {b : Bool}
      (run : Reachable maxSubs processed installedAt s) (unused : s.monitors.lookup m = none)
      (call : s.addSub maxSubs m sub currEventId = .ok (b, s')) :
      Reachable maxSubs processed (if b then currEventId :: installedAt else installedAt) s'
  | removeSub {processed installedAt : List Nat} {s s' : ActiveMonitors} {connId : Nat}
      {subId : SubId} (run : Reachable maxSubs processed installedAt s)
      (call : s.removeSub connId subId = .ok s') : Reachable maxSubs processed installedAt s'
  | closeConn {processed installedAt : List Nat} {s s' : ActiveMonitors} {connId : Nat}
      (run : Reachable maxSubs processed installedAt s) (call : s.closeConn connId = .ok s') :
      Reachable maxSubs processed installedAt s'
  | process {processed installedAt : List Nat} {s s' : ActiveMonitors} {levId : Nat}
      {ev : PackedEvent} {cb : Option (RecipientList × Nat)}
      (run : Reachable maxSubs processed installedAt s) (increasing : ∀ l ∈ processed, l < levId)
      (call : s.process levId ev = some (s', cb)) :
      Reachable maxSubs (levId :: processed) installedAt s'

/-- What holds along a run: the invariant, no item hides a later event, and no subscription is
ahead of what has been processed or installed. -/
structure RunInv (processed installedAt : List Nat) (s : ActiveMonitors) : Prop where
  inv : s.Inv
  fresh : ∀ levId, (∀ l ∈ processed, l < levId) → s.Fresh levId
  bounded : ∀ m sub, s.monitors.lookup m = some sub →
    ∃ l ∈ processed ++ installedAt, sub.latestEventId ≤ (l : WithTop Nat)

theorem RunInv.restrict {processed installedAt : List Nat} {s s' : ActiveMonitors}
    {keep : Nat → SubId → Prop} (h : RunInv processed installedAt s)
    (hr : Restricts keep s s') : RunInv processed installedAt s' where
  inv := hr.inv h.inv
  fresh := fun levId hlevId e item sub hitem hsub =>
    h.fresh levId hlevId e item sub ((hr.item e item).1 hitem).1 ((hr.monitor _ sub).1 hsub).1
  bounded := fun m sub hsub => h.bounded m sub ((hr.monitor m sub).1 hsub).1

theorem RunInv.addSub {processed installedAt : List Nat} {s s' : ActiveMonitors} {maxSubs : Nat}
    {m : MonitorPtr} {sub : Subscription} {currEventId : Nat} {b : Bool}
    (h : RunInv processed installedAt s) (unused : s.monitors.lookup m = none)
    (call : s.addSub maxSubs m sub currEventId = .ok (b, s')) :
    RunInv processed (if b then currEventId :: installedAt else installedAt) s' := by
  have hcur : sub.latestEventId = currEventId := by
    unfold ActiveMonitors.addSub at call
    split at call
    · cases call
    · rename_i heq
      exact not_not.1 heq
  obtain ⟨b', s₁, call', hinv, hmon, hitem⟩ := addSub_spec h.inv maxSubs unused sub hcur
  rw [call] at call'
  cases call'
  refine ⟨hinv, fun levId hlevId e item sub' he hsub' hle => ?_, fun m' sub' hsub' => ?_⟩
  · rcases (hmon _ sub').1 hsub' with ⟨-, hm, rfl⟩ | ⟨hold, -⟩
    · rcases hitem e item he with ⟨-, -, rfl⟩ | he
      · rw [hcur]
        exact WithTop.coe_le_coe.2 hle
      · -- no filter of an address that was not in use
        obtain ⟨sub₀, hsub₀, -⟩ := (h.inv.entered e).1 (Option.isSome_iff_exists.2 ⟨item, he⟩)
        rw [hm, unused] at hsub₀
        cases hsub₀
    · rcases hitem e item he with ⟨-, hm, -⟩ | he
      · rw [hm, unused] at hold
        cases hold
      · exact h.fresh levId hlevId e item sub' he hold hle
  · rcases (hmon m' sub').1 hsub' with ⟨rfl, -, rfl⟩ | ⟨hold, -⟩
    · exact ⟨currEventId, by simp, hcur.le⟩
    · obtain ⟨l, hl, hle⟩ := h.bounded m' sub' hold
      refine ⟨l, ?_, hle⟩
      rcases List.mem_append.1 hl with hl | hl
      · exact List.mem_append_left _ hl
      · cases b <;> simp [hl]

theorem RunInv.process {processed installedAt : List Nat} {s s' : ActiveMonitors} {levId : Nat}
    {ev : PackedEvent} {recipients : RecipientList} (h : RunInv processed installedAt s)
    (hp : Processed s levId ev s' recipients) :
    RunInv (levId :: processed) installedAt s' where
  inv := hp.inv h.inv
  fresh := by
    intro levId' hlevId'
    obtain ⟨hlt, hrest⟩ := List.forall_mem_cons.1 hlevId'
    exact hp.fresh (h.fresh levId' hrest) hlt
  bounded := by
    intro m sub' hsub'
    rw [hp.monitor] at hsub'
    obtain ⟨sub, hsub, rfl⟩ := Option.map_eq_some_iff.1 hsub'
    unfold afterEvent
    split
    · exact ⟨levId, by simp, le_rfl⟩
    · obtain ⟨l, hl, hle⟩ := h.bounded m sub hsub
      exact ⟨l, List.mem_cons_of_mem _ hl, hle⟩

theorem Reachable.runInv {maxSubs : Nat} {processed installedAt : List Nat} {s : ActiveMonitors}
    (h : Reachable maxSubs processed installedAt s) : RunInv processed installedAt s := by
  induction h with
  | start =>
    refine ⟨inv_empty, fun levId _ e item sub _ hsub => ?_, fun m sub hsub => ?_⟩
    · cases hsub
    · cases hsub
  | addSub run unused call ih => exact ih.addSub unused call
  | @removeSub _ _ s s' connId subId run call ih =>
    obtain ⟨s₁, call', hr⟩ := removeSub_spec ih.inv connId subId
    rw [call] at call'
    cases call'
    exact ih.restrict hr
  | @closeConn _ _ s s' connId run call ih =>
    obtain ⟨s₁, call', hr⟩ := closeConn_spec ih.inv connId
    rw [call] at call'
    cases call'
    exact ih.restrict hr
  | @process _ _ s s' levId ev cb run increasing call ih =>
    obtain ⟨s₁, recipients, call', hp⟩ := process_spec ih.inv (ih.fresh levId increasing) ev
    rw [call] at call'
    cases call'
    exact ih.process hp

/-- The indexed matcher agrees with the plain filter: for an event newer than everything seen so
far, `cb` is called with exactly the installed subscriptions that match, each once, and is not
called when there is none. -/
theorem process_calls_exactly_matching {maxSubs : Nat} {processed installedAt : List Nat}
    {s : ActiveMonitors} (h : Reachable maxSubs processed installedAt s) {levId : Nat}
    (hnew : ∀ l ∈ processed ++ installedAt, l < levId) (ev : PackedEvent) :
    ∃ s' cb, s.process levId ev = some (s', cb) ∧
      (cb = none ↔ ∀ connId subId sub, s.installed connId subId = some sub →
        sub.filterGroup.doesMatch ev = false) ∧
      ∀ recipients id, cb = some (recipients, id) → id = levId ∧ recipients.Nodup ∧
        ∀ connId subId, (connId, subId) ∈ recipients ↔
          ∃ sub, s.installed connId subId = some sub ∧ sub.filterGroup.doesMatch ev = true := by
  have hrun := h.runInv
  have hfresh := hrun.fresh levId fun l hl => hnew l (List.mem_append_left _ hl)
  obtain ⟨s', recipients, call, hp⟩ := process_spec hrun.inv hfresh ev
  have hmem : ∀ connId subId, (connId, subId) ∈ recipients ↔
      ∃ sub, s.installed connId subId = some sub ∧ sub.filterGroup.doesMatch ev = true := by
    intro connId subId
    rw [hp.mem]
    refine exists_congr fun sub => and_congr_right fun hinst => ⟨And.right, fun hmatch => ⟨?_, hmatch⟩⟩
    obtain ⟨m, hsub, -⟩ := (installed_eq_some_iff hrun.inv).1 hinst
    obtain ⟨l, hl, hle⟩ := hrun.bounded m sub hsub
    exact hle.trans_lt (WithTop.coe_lt_coe.2 (hnew l hl))
  refine ⟨s', _, call, ?_, ?_⟩
  · cases hr : recipients with
    | nil =>
      rw [hr] at hmem
      simp only [List.length_nil, ne_eq, not_true_eq_false, if_false, true_iff]
      intro connId subId sub hinst
      rw [Bool.eq_false_iff]
      intro hmatch
      exact absurd ((hmem connId subId).2 ⟨sub, hinst, hmatch⟩) List.not_mem_nil
    | cons r rs =>
      simp only [List.length_cons, ne_eq, Nat.add_eq_zero_iff, one_ne_zero, and_false,
        not_false_eq_true, if_true, reduceCtorEq, false_iff]
      intro hall
      obtain ⟨sub, hinst, hmatch⟩ := (hmem r.1 r.2).1 (by rw [hr]; exact List.mem_cons_self)
      rw [hall _ _ _ hinst] at hmatch
      cases hmatch
  · intro recipients' id hcb
    split at hcb
    · cases hcb
      exact ⟨rfl, hp.nodup, hmem⟩
    · cases hcb

/-- A REQ for the notes and for the events of an author. -/
def notesAndAuthor : Json :=
  .array [.string (ascii "REQ"), .string (ascii "a"), .object [(ascii "kinds", .array [.unsigned 1])],
    .object [(ascii "authors", .array [.string (encodeHex (List.replicate 32 9))])]]

/-- A REQ for events of another kind. -/
def otherKind : Json :=
  .array [.string (ascii "REQ"), .string (ascii "a"), .object [(ascii "kinds", .array [.unsigned 2])]]

/-- The REQ of each connection is installed. -/
def twoMonitors : Except Err (Bool × Bool × ActiveMonitors × ActiveMonitors) := do
  let g ← NostrFilterGroup.ofReq hexCodec notesAndAuthor 500
  let g' ← NostrFilterGroup.ofReq hexCodec otherKind 500
  let (b, s) ← ({} : ActiveMonitors).addSub 20 0 ⟨1, .a, g, (0 : Nat)⟩ 0
  let (b', s') ← s.addSub 20 1 ⟨2, .a, g', (0 : Nat)⟩ 0
  .ok (b, b', s, s')

/-- The filters are found under their own keys, and the note of the author matches both of those of the first
connection. -/
theorem exists_twoMonitors : ∃ (g g' : NostrFilterGroup) (s s' : ActiveMonitors),
    ({} : ActiveMonitors).addSub 20 0 ⟨1, .a, g, (0 : Nat)⟩ 0 = .ok (true, s) ∧ s.monitors.lookup 1 = none ∧
    s.addSub 20 1 ⟨2, .a, g', (0 : Nat)⟩ 0 = .ok (true, s') ∧
    (s'.tables.item? (⟨0, 0⟩, .kind 1)).isSome = true ∧
    (s'.tables.item? (⟨0, 1⟩, .author (List.replicate 32 9))).isSome = true ∧
    (s'.tables.item? (⟨1, 0⟩, .kind 2)).isSome = true ∧
    (s'.process 1 (repeatedEvent 1 9 10 1)).map Prod.snd = some (some ([(1, .a)], 1)) := by
  have heval : (twoMonitors.map fun r => decide (r.1 = true ∧ r.2.1 = true ∧
      (r.2.2.1.monitors.lookup 1).isNone = true ∧
      (r.2.2.2.tables.item? (⟨0, 0⟩, .kind 1)).isSome = true ∧
      (r.2.2.2.tables.item? (⟨0, 1⟩, .author (List.replicate 32 9))).isSome = true ∧
      (r.2.2.2.tables.item? (⟨1, 0⟩, .kind 2)).isSome = true ∧
      (r.2.2.2.process 1 (repeatedEvent 1 9 10 1)).map Prod.snd = some (some ([(1, .a)], 1)))) = .ok true := by
    decide +kernel
  obtain ⟨⟨b, b', s, s'⟩, hrun, hfacts⟩ := map_eq_ok.1 heval
  obtain ⟨g, -, hrun⟩ := bind_eq_ok.1 hrun
  obtain ⟨g', -, hrun⟩ := bind_eq_ok.1 hrun
  obtain ⟨⟨b, s⟩, hfirst, hrun⟩ := bind_eq_ok.1 hrun
  obtain ⟨⟨b', s'⟩, hsecond, hrun⟩ := bind_eq_ok.1 hrun
  cases hrun
  obtain ⟨rfl, rfl, hunused, hkind, hauthor, hother, hprocess⟩ := of_decide_eq_true hfacts
  exact ⟨g, g', s, s', hfirst, Option.isNone_iff_eq_none.mp hunused, hsecond, hkind, hauthor, hother, hprocess⟩

theorem process_calls_twoMonitors :
    ∃ s, Reachable 20 [] [0, 0] s ∧ (s.tables.item? (⟨0, 0⟩, .kind 1)).isSome = true ∧
      (s.tables.item? (⟨0, 1⟩, .author (List.replicate 32 9))).isSome = true ∧
      (s.process 1 (repeatedEvent 1 9 10 1)).map Prod.snd = some (some ([(1, .a)], 1)) ∧
      ∀ ev, ∃ s' cb, s.process 1 ev = some (s', cb) ∧
        (cb = none ↔ ∀ connId subId sub, s.installed connId subId = some sub →
          sub.filterGroup.doesMatch ev = false) ∧
        ∀ recipients id, cb = some (recipients, id) → id = 1 ∧ recipients.Nodup ∧
          ∀ connId subId, (connId, subId) ∈ recipients ↔
            ∃ sub, s.installed connId subId = some sub ∧ sub.filterGroup.doesMatch ev = true := by
  obtain ⟨g, g', s, s', hfirst, hunused, hsecond, hkind, hauthor, -, hprocess⟩ := exists_twoMonitors
  have hrun : Reachable 20 [] [0, 0] s' := (Reachable.addSub Reachable.start rfl hfirst).addSub hunused hsecond
  exact ⟨s', hrun, hkind, hauthor, hprocess, fun ev => process_calls_exactly_matching hrun (by simp) ev⟩

end ActiveMonitors

end Strfry
