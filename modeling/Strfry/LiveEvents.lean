import Strfry.ReqThreads

/-!
# What a DBChange sends

A monitor thread walks over the events that it has not seen and calls `process` for each of them.
Seen from one subscription, every event of the walk is skipped or taken: `Gets` is this view. It
holds for any events in any order; an event is taken for sure when an item of the monitor awaits it
(`processEvents_complete`).
-/

set_option autoImplicit false

namespace Strfry

open Lib LookupTables

/-- The message is an event or an EOSE for the subscription id. -/
def Output.isFor (c : Nat) (i : SubId) : Output → Bool
  | .event _ connId subId _ _ => connId == c && subId == i
  | .eose _ connId subId => connId == c && subId == i
  | .noticeError _ _ => false

/-- A live event for the subscription id. -/
def liveEvent (c : Nat) (i : SubId) (r : Nat × PackedEvent) : Output :=
  .event .live c i r.1 (some r.2)

theorem filter_sendEventToBatch {recipients : RecipientList} (hnd : recipients.Nodup)
    (r : Nat × PackedEvent) (c : Nat) (i : SubId) :
    (sendEventToBatch r.1 r.2 recipients).filter (Output.isFor c i) =
      if (c, i) ∈ recipients then [liveEvent c i r] else [] := by
  induction recipients with
  | nil => rfl
  | cons x xs ih =>
    obtain ⟨hx, hxs⟩ := List.nodup_cons.1 hnd
    have ih := ih hxs
    rw [sendEventToBatch] at ih ⊢
    rw [List.map_cons]
    by_cases hkey : x = (c, i)
    · subst hkey
      rw [List.filter_cons_of_pos (by simp [Output.isFor]), ih, if_neg hx, if_pos List.mem_cons_self]
      rfl
    · have hno : ¬ (Output.isFor c i (.event .live x.1 x.2 r.1 (some r.2)) = true) := by
        intro hfor
        simp only [Output.isFor, Bool.and_eq_true, beq_iff_eq] at hfor
        exact hkey (Prod.ext hfor.1 hfor.2)
      rw [List.filter_cons_of_neg hno, ih]
      simp [List.mem_cons, Ne.symm hkey]

/-! ## The view of one subscription -/

/-- What a subscription gets of the events of a walk, and the subscription afterwards. -/
inductive Gets : Subscription → List (Nat × PackedEvent) → List (Nat × PackedEvent) →
    Subscription → Prop
  | nil {sub : Subscription} : Gets sub [] [] sub
  | skip {sub sub' : Subscription} {r : Nat × PackedEvent} {rows got : List (Nat × PackedEvent)}
      (rest : Gets sub rows got sub') : Gets sub (r :: rows) got sub'
  | take {sub sub' : Subscription} {r : Nat × PackedEvent} {rows got : List (Nat × PackedEvent)}
      (receives : ActiveMonitors.receives r.1 r.2 sub)
      (rest : Gets { sub with latestEventId := r.1 } rows got sub') :
      Gets sub (r :: rows) (r :: got) sub'

namespace Gets

variable {sub sub' : Subscription} {rows got : List (Nat × PackedEvent)}

theorem sublist (h : Gets sub rows got sub') : got.Sublist rows := by
  induction h with
  | nil => exact List.Sublist.refl _
  | skip _ ih => exact ih.cons _
  | take _ _ ih => exact ih.cons_cons _

/-- Only `latestEventId` changes. -/
theorem same (h : Gets sub rows got sub') :
    sub'.connId = sub.connId ∧ sub'.subId = sub.subId ∧ sub'.filterGroup = sub.filterGroup := by
  induction h with
  | nil => exact ⟨rfl, rfl, rfl⟩
  | skip _ ih => exact ih
  | take _ _ ih => exact ih

theorem doesMatch (h : Gets sub rows got sub') :
    ∀ r ∈ got, sub.filterGroup.doesMatch r.2 = true := by
  induction h with
  | nil => simp
  | skip _ ih => exact ih
  | take hrec _ ih =>
    intro r hr
    rcases List.mem_cons.1 hr with rfl | hr
    · exact hrec.2
    · exact ih r hr

/-- The events taken are newer than the subscription was, and not newer than it is. -/
theorem bounds (h : Gets sub rows got sub') : sub.latestEventId ≤ sub'.latestEventId ∧
    ∀ r ∈ got, sub.latestEventId < (r.1 : WithTop Nat) ∧ (r.1 : WithTop Nat) ≤ sub'.latestEventId := by
  induction h with
  | nil => simp
  | skip _ ih => exact ih
  | take hrec _ ih =>
    obtain ⟨hle, hall⟩ := ih
    refine ⟨hrec.1.le.trans hle, fun r hr => ?_⟩
    rcases List.mem_cons.1 hr with rfl | hr
    · exact ⟨hrec.1, hle⟩
    · exact ⟨hrec.1.trans (hall r hr).1, (hall r hr).2⟩

theorem increasing (h : Gets sub rows got sub') : got.Pairwise fun a b => a.1 < b.1 := by
  induction h with
  | nil => exact .nil
  | skip _ ih => exact ih
  | take _ hrest ih =>
    refine List.pairwise_cons.2 ⟨fun b hb => ?_, ih⟩
    exact WithTop.coe_lt_coe.1 (hrest.bounds.2 b hb).1

/-- A subscription is as new as it was, or as new as an event of the walk. -/
theorem latestEventId (h : Gets sub rows got sub') : sub'.latestEventId = sub.latestEventId ∨
    ∃ r ∈ rows, sub'.latestEventId = (r.1 : WithTop Nat) := by
  induction h with
  | nil => exact Or.inl rfl
  | skip _ ih =>
    rcases ih with ih | ⟨r, hr, heq⟩
    · exact Or.inl ih
    · exact Or.inr ⟨r, List.mem_cons_of_mem _ hr, heq⟩
  | take _ _ ih =>
    rcases ih with ih | ⟨r, hr, heq⟩
    · exact Or.inr ⟨_, List.mem_cons_self, ih⟩
    · exact Or.inr ⟨r, List.mem_cons_of_mem _ hr, heq⟩

end Gets

/-! ## The walk -/

/-- What a walk does to the monitors, and what it sends. -/
structure Swept (rows : List (Nat × PackedEvent)) (s s' : ActiveMonitors) (sent : List Output) :
    Prop where
  inv : s'.Inv
  conns : s'.conns = s.conns
  unused : ∀ p, s.monitors.lookup p = none → s'.monitors.lookup p = none
  gets : ∀ p sub, s.monitors.lookup p = some sub → ∃ got sub', Gets sub rows got sub' ∧
    s'.monitors.lookup p = some sub' ∧
    sent.filter (Output.isFor sub.connId sub.subId) = got.map (liveEvent sub.connId sub.subId)
  others : ∀ c i, s.installed c i = none → sent.filter (Output.isFor c i) = []
  live : ∀ o ∈ sent, ∃ c i r, o = liveEvent c i r ∧ r ∈ rows

section Walk

variable {s : ActiveMonitors}

/-- One iteration. -/
theorem processEvents_cons (hinv : s.Inv) (r : Nat × PackedEvent) (rows : List (Nat × PackedEvent)) :
    ∃ s₁ recipients, ActiveMonitors.Delivered s r.1 r.2 s₁ recipients ∧
      processEvents (r :: rows) s = (processEvents rows s₁).map fun x =>
        (x.1, sendEventToBatch r.1 r.2 recipients ++ x.2) := by
  obtain ⟨s₁, recipients, hproc, hdel⟩ := ActiveMonitors.process_delivers hinv r.1 r.2
  refine ⟨s₁, recipients, hdel, ?_⟩
  simp only [processEvents, hproc]
  cases recipients <;> rfl

theorem installed_of_delivered {s₁ : ActiveMonitors} {levId : Nat} {ev : PackedEvent}
    {recipients : RecipientList} (hinv : s.Inv)
    (h : ActiveMonitors.Delivered s levId ev s₁ recipients) {c : Nat} {i : SubId}
    (hnone : s.installed c i = none) : s₁.installed c i = none := by
  rw [ActiveMonitors.installed_eq_none_iff (h.inv hinv)]
  intro p sub' hsub' hkey
  rw [h.monitor] at hsub'
  obtain ⟨sub, hsub, rfl⟩ := Option.map_eq_some_iff.1 hsub'
  rw [ActiveMonitors.delivered_connId, ActiveMonitors.delivered_subId] at hkey
  exact (ActiveMonitors.installed_eq_none_iff hinv).1 hnone p sub hsub hkey

theorem processEvents_spec (rows : List (Nat × PackedEvent)) (hinv : s.Inv) :
    ∃ s' sent, processEvents rows s = some (s', sent) ∧ Swept rows s s' sent := by
  induction rows generalizing s with
  | nil =>
    refine ⟨s, [], rfl, hinv, rfl, fun p hp => hp, fun p sub hsub => ?_, fun c i _ => rfl, by simp⟩
    exact ⟨[], sub, .nil, hsub, rfl⟩
  | cons r rows ih =>
    obtain ⟨s₁, recipients, hdel, heq⟩ := processEvents_cons hinv r rows
    obtain ⟨s', sent, hrest, hs⟩ := ih (hdel.inv hinv)
    have hfilter := filter_sendEventToBatch hdel.nodup r
    refine ⟨s', sendEventToBatch r.1 r.2 recipients ++ sent, by rw [heq, hrest]; rfl, hs.inv,
      hs.conns.trans hdel.conns, fun p hp => hs.unused p ?_, fun p sub hsub => ?_,
      fun c i hnone => ?_, fun o ho => ?_⟩
    · rw [hdel.monitor, hp]
      rfl
    · -- the subscription is a recipient of the first event, or the event is skipped
      have hsub₁ : s₁.monitors.lookup p = some (ActiveMonitors.delivered r.1 recipients sub) := by
        rw [hdel.monitor, hsub]
        rfl
      obtain ⟨got, sub', hgets, hlook, hsent⟩ := hs.gets p _ hsub₁
      rw [ActiveMonitors.delivered_connId, ActiveMonitors.delivered_subId] at hsent
      rw [List.filter_append, hfilter, hsent]
      unfold ActiveMonitors.delivered at hgets
      split at hgets
      · rename_i hin
        obtain ⟨sub₀, hinst, hrec⟩ := hdel.sound _ _ hin
        rw [(ActiveMonitors.installed_eq_some_iff hinv).2 ⟨p, hsub, rfl, rfl⟩] at hinst
        cases hinst
        exact ⟨r :: got, sub', .take hrec hgets, hlook, by rw [if_pos hin]; rfl⟩
      · rename_i hin
        exact ⟨got, sub', .skip hgets, hlook, by rw [if_neg hin]; rfl⟩
    · rw [List.filter_append, hfilter, hs.others c i (installed_of_delivered hinv hdel hnone)]
      rw [if_neg fun hin => ?_, List.nil_append]
      obtain ⟨sub, hinst, -⟩ := hdel.sound c i hin
      rw [hnone] at hinst
      cases hinst
    · rcases List.mem_append.1 ho with ho | ho
      · obtain ⟨x, -, rfl⟩ := List.mem_map.1 ho
        exact ⟨x.1, x.2, r, rfl, List.mem_cons_self⟩
      · obtain ⟨c, i, r', rfl, hr'⟩ := hs.live o ho
        exact ⟨c, i, r', rfl, List.mem_cons_of_mem _ hr'⟩

/-- After an earlier event. -/
theorem ActiveMonitors.Awaits.delivered {s₁ : ActiveMonitors} {p : MonitorPtr} {levId l : Nat}
    {ev ev' : PackedEvent} {recipients : RecipientList} (h : s.Awaits p levId ev)
    (hdel : ActiveMonitors.Delivered s l ev' s₁ recipients) (hlt : l < levId) :
    s₁.Awaits p levId ev := by
  obtain ⟨e, item, sub, filter, hp, hkey, hitem, hsub, hfilter, hmatch, hlt₁, hlt₂⟩ := h
  have hsome : (s₁.tables.item? e).isSome := by
    rw [hdel.isSome, hitem]
    rfl
  obtain ⟨item', hitem'⟩ := Option.isSome_iff_exists.1 hsome
  have hsub' : s₁.monitors.lookup p = some (ActiveMonitors.delivered l recipients sub) := by
    rw [hdel.monitor, hsub]
    rfl
  refine ⟨e, item', _, filter, hp, hkey, hitem', hsub', by simpa using hfilter, hmatch, ?_, ?_⟩
  · -- the item is as it was, or as new as the earlier event
    obtain ⟨item₀, hitem₀, rfl | rfl⟩ := hdel.item e item' hitem'
    · rw [hitem] at hitem₀
      cases hitem₀
      exact hlt₁
    · exact hlt
  · unfold ActiveMonitors.delivered
    split
    · exact WithTop.coe_lt_coe.2 hlt
    · exact hlt₂

/-- After a walk over earlier events. -/
theorem ActiveMonitors.Awaits.processEvents {s' : ActiveMonitors} {sent : List Output}
    {p : MonitorPtr} {levId : Nat} {ev : PackedEvent} {rows : List (Nat × PackedEvent)}
    (hinv : s.Inv) (h : s.Awaits p levId ev) (hp : Strfry.processEvents rows s = some (s', sent))
    (hlt : ∀ r ∈ rows, r.1 < levId) : s'.Awaits p levId ev := by
  induction rows generalizing s sent with
  | nil =>
    cases hp
    exact h
  | cons r rows ih =>
    obtain ⟨s₁, recipients, hdel, heq⟩ := processEvents_cons hinv r rows
    rw [heq] at hp
    obtain ⟨⟨s₂, sent₂⟩, hrest, hp⟩ := Option.map_eq_some_iff.1 hp
    cases hp
    obtain ⟨hr, hrows⟩ := List.forall_mem_cons.1 hlt
    exact ih (hdel.inv hinv) (h.delivered hdel hr) hrest hrows

/-- An event that a subscription awaits is sent to it. -/
theorem processEvents_complete {s' : ActiveMonitors} {sent : List Output} {p : MonitorPtr}
    {sub : Subscription} {r : Nat × PackedEvent} {rows : List (Nat × PackedEvent)} (hinv : s.Inv)
    (hsub : s.monitors.lookup p = some sub) (hawaits : s.Awaits p r.1 r.2)
    (hsorted : rows.Pairwise fun a b => a.1 < b.1) (hr : r ∈ rows)
    (hp : processEvents rows s = some (s', sent)) :
    liveEvent sub.connId sub.subId r ∈ sent := by
  induction rows generalizing s sent sub with
  | nil => cases hr
  | cons r' rows ih =>
    obtain ⟨hlt, hsorted⟩ := List.pairwise_cons.1 hsorted
    obtain ⟨s₁, recipients, hdel, heq⟩ := processEvents_cons hinv r' rows
    rw [heq] at hp
    obtain ⟨⟨s₂, sent₂⟩, hrest, hp⟩ := Option.map_eq_some_iff.1 hp
    cases hp
    rcases List.mem_cons.1 hr with rfl | hr
    · apply List.mem_append_left
      have hin := hdel.complete p sub hsub hawaits
      exact List.mem_map.2 ⟨_, hin, rfl⟩
    · apply List.mem_append_right
      have hsub₁ : s₁.monitors.lookup p = some (ActiveMonitors.delivered r'.1 recipients sub) := by
        rw [hdel.monitor, hsub]
        rfl
      have hsent := ih (hdel.inv hinv) hsub₁ (hawaits.delivered hdel (hlt r hr)) hsorted hr hrest
      simpa using hsent

end Walk

end Strfry
