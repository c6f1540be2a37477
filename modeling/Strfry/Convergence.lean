import Strfry.StoreInvariants

/-!
# Convergence of replaceable events

Events are partially ordered by `Supersedes`: an event is below those that win over it at its
address. Without deletions, the events in the store are the maximal ones among those submitted
(`WriteCalls.mem_iff_maximal`). That set does not mention the order of arrival, the batches or the
sort, so the store converges.

The invariant of a run is `Covers`: every submitted event is stored or superseded by a stored one.
-/

set_option autoImplicit false

namespace Strfry

open Lib

/-! ## The order of events at an address -/

/-- `p` is `q`, or it wins over `q` at the same address. -/
def Supersedes (p q : PackedEvent) : Prop := p = q ∨ (SameAddress q p ∧ beats p q = true)

theorem Supersedes.trans {a b c : PackedEvent} (hab : Supersedes a b) (hbc : Supersedes b c) :
    Supersedes a c := by
  rcases hab with rfl | ⟨hs, hb⟩
  · exact hbc
  · rcases hbc with rfl | ⟨hs', hb'⟩
    · exact Or.inr ⟨hs, hb⟩
    · exact Or.inr ⟨hs'.trans hs, beats_trans hb hb'⟩

theorem Supersedes.antisymm {a b : PackedEvent} (hab : Supersedes a b) (hba : Supersedes b a) :
    a = b := by
  rcases hab with rfl | ⟨-, hb⟩
  · rfl
  · rcases hba with rfl | ⟨-, hb'⟩
    · rfl
    · rw [beats_asymm hb] at hb'
      cases hb'

/-- Events ordered by who supersedes whom. -/
abbrev replaceOrder : PartialOrder PackedEvent where
  le q p := Supersedes p q
  le_refl _ := Or.inl rfl
  le_trans _ _ _ hab hbc := hbc.trans hab
  le_antisymm _ _ hab hba := hba.antisymm hab

/-- The submitted events that no submitted event supersedes. -/
def IsMaximal (sub : List PackedEvent) (p : PackedEvent) : Prop :=
  @Maximal _ replaceOrder.toLE (· ∈ sub) p

/-! ## Runs without deletions -/

/-- Every stored event was submitted, and every submitted one is superseded by a stored one. -/
structure Covers (sub : List PackedEvent) (st : Store) : Prop where
  submitted : ∀ r ∈ st.event.rows, r.2 ∈ sub
  covered : ∀ q ∈ sub, ∃ r ∈ st.event.rows, Supersedes r.2 q

/-- An id has one content. -/
abbrev OneContent (sub : List PackedEvent) : Prop :=
  ∀ p ∈ sub, ∀ q ∈ sub, p.id = q.id → p = q

/-- None of the events is a deletion. -/
abbrev NoDeletion (sub : List PackedEvent) : Prop := ∀ p ∈ sub, p.kind ≠ 5

section Iteration

variable {filters : List FilterInfo} {prevId : Option Bytes} {db db' : Db} {ev ev' : EventToWrite}

/-- An iteration with one of the submitted events keeps the stored ones covering. `seen` are the
events handled before it. -/
theorem WriteOutcome.covers (h : WriteOutcome filters prevId db ev db' ev')
    {sub seen : List PackedEvent} (hsub : ∀ p ∈ seen, p ∈ sub) (hev : ev.packed ∈ sub)
    (hone : OneContent sub) (hno : NoDeletion sub) (hprev : ∀ i, prevId = some i → ∃ q ∈ seen, q.id = i)
    (hc : Covers seen db.toStore) : Covers (ev.packed :: seen) db'.toStore := by
  cases h with
  | duplicate hdup =>
    have hseen : ev.packed ∈ seen := by
      rcases hdup with ⟨r, hr, hid⟩ | hid
      · have hrs := hc.submitted r hr
        exact hone r.2 (hsub _ hrs) _ hev hid ▸ hrs
      · obtain ⟨q, hq, hqid⟩ := hprev _ hid
        exact hone q (hsub _ hq) _ hev hqid ▸ hq
    refine ⟨fun r hr => List.mem_cons_of_mem _ (hc.submitted r hr), fun q hq => ?_⟩
    rcases List.mem_cons.1 hq with rfl | hq
    · exact hc.covered _ hseen
    · exact hc.covered q hq
  | deleted hfresh hdel =>
    obtain ⟨r, hr, h5, -⟩ := hdel
    exact absurd h5 (hno r.2 (hsub _ (hc.submitted r hr)))
  | replaced r hfresh hr hsame hb =>
    refine ⟨fun r hr => List.mem_cons_of_mem _ (hc.submitted r hr), fun q hq => ?_⟩
    rcases List.mem_cons.1 hq with rfl | hq
    · refine ⟨r, hr, Or.inr ⟨hsame, ?_⟩⟩
      exact (beats_or_beats (hfresh r hr)).resolve_right (by rw [hb]; exact nofun)
    · exact hc.covered q hq
  | written toDelete hfresh hnodel hbeats htgt =>
    have hout : WriteOutcome filters prevId db ev _ _ :=
      .written toDelete hfresh hnodel hbeats htgt
    have hrows := fun r => hout.mem_rows rfl (r := r)
    refine ⟨fun r hr => ?_, fun q hq => ?_⟩
    · rcases (hrows r).1 hr with rfl | ⟨hr, -⟩
      · exact List.mem_cons_self
      · exact List.mem_cons_of_mem _ (hc.submitted r hr)
    · rcases List.mem_cons.1 hq with rfl | hq
      · exact ⟨_, (hrows _).2 (Or.inl rfl), Or.inl rfl⟩
      · obtain ⟨r, hr, hsup⟩ := hc.covered q hq
        by_cases ht : Targets ev.packed r.2
        · -- the event that covered `q` gives way to the new one, which is above it
          rcases ht with hdel | ⟨hs, hb⟩
          · exact absurd hdel.1 (hno _ hev)
          · exact ⟨_, (hrows _).2 (Or.inl rfl), Supersedes.trans (Or.inr ⟨hs.symm, hb⟩) hsup⟩
        · exact ⟨r, (hrows r).2 (Or.inr ⟨hr, ht⟩), hsup⟩

end Iteration

/-- The same of a whole batch. -/
theorem WriteRun.covers {ord : IndexOrder} {filters : List FilterInfo} {prevId : Option Bytes}
    {db db' : Db} {evs evs' : List EventToWrite} (h : WriteRun ord filters prevId db evs db' evs')
    {sub seen : List PackedEvent} (hsub : ∀ p ∈ seen, p ∈ sub)
    (hevs : ∀ ev ∈ evs, ev.packed ∈ sub) (hone : OneContent sub) (hno : NoDeletion sub)
    (hprev : ∀ i, prevId = some i → ∃ q ∈ seen, q.id = i) (hc : Covers seen db.toStore) :
    ∃ seen', Covers seen' db'.toStore ∧
      ∀ p, p ∈ seen' ↔ p ∈ seen ∨ ∃ ev ∈ evs, ev.packed = p := by
  induction h generalizing seen with
  | nil => exact ⟨seen, hc, by simp⟩
  | @cons prevId db db₁ db' ev ev' rest rest' _ hout hrun ih =>
    have hev : ev.packed ∈ sub := hevs ev (by simp)
    obtain ⟨seen', hc', hmem⟩ := @ih (ev.packed :: seen)
      (by
        intro p hp
        rcases List.mem_cons.1 hp with rfl | hp
        · exact hev
        · exact hsub p hp)
      (fun e he => hevs e (by simp [he]))
      (by
        intro i hi
        exact ⟨ev.packed, by simp, Option.some.inj hi⟩)
      (hout.covers hsub hev hone hno hprev hc)
    refine ⟨seen', hc', fun p => ?_⟩
    rw [hmem, List.mem_cons]
    constructor
    · rintro ((rfl | hp) | ⟨e, he, rfl⟩)
      · exact Or.inr ⟨ev, by simp, rfl⟩
      · exact Or.inl hp
      · exact Or.inr ⟨e, by simp [he], rfl⟩
    · rintro (hp | ⟨e, he, rfl⟩)
      · exact Or.inl (Or.inr hp)
      · rcases List.mem_cons.1 he with rfl | he
        · exact Or.inl (Or.inl rfl)
        · exact Or.inr ⟨e, he, rfl⟩

/-- The databases that a sequence of calls of `writeEvents` leads to, with the events submitted
in them. -/
inductive WriteCalls (ord : IndexOrder) (hex : HexCodec) (text : JsonText) :
    List PackedEvent → Db → Prop
  | init : WriteCalls ord hex text [] Db.init
  | call (S : StdSort) (cache : NegentropyFilterCache) {sub : List PackedEvent} {db db' : Db}
      {evs evs' : List EventToWrite} :
      WriteCalls ord hex text sub db → Submitted hex evs →
      (writeEvents S ord hex text cache db evs).2 = .ok (db', evs') →
      WriteCalls ord hex text (sub ++ evs.map EventToWrite.packed) db'

/-- The ids of the stored events. -/
def Store.ids (st : Store) : Set Bytes := { i | ∃ r ∈ st.event.rows, r.2.id = i }

/-- The ids that remain of the submitted events: those of kinds that replace nothing, and at each
address the one with the greatest `created_at`, or the smallest id among several of these. -/
def winnerIds (sub : List PackedEvent) : Set Bytes :=
  { i | ∃ p ∈ sub, p.id = i ∧ (isReplacing p.kind = true →
    ∀ q ∈ sub, SameAddress p q → q ≠ p → q.createdAt < p.createdAt ∨
      (q.createdAt = p.createdAt ∧ p.id < q.id)) }

section Runs

variable {ord : IndexOrder} {hex : HexCodec} {text : JsonText} {sub : List PackedEvent} {db : Db}

theorem WriteCalls.reachable (h : WriteCalls ord hex text sub db) :
    StoreReachable ord hex text db := by
  induction h with
  | init => exact .refl
  | call S cache _ hsub hok ih => exact ih.tail (.write S cache hsub hok)

theorem Covers.congr {sub sub' : List PackedEvent} {st : Store} (h : Covers sub st)
    (hmem : ∀ p, p ∈ sub ↔ p ∈ sub') : Covers sub' st :=
  ⟨fun r hr => (hmem _).1 (h.submitted r hr), fun q hq => h.covered q ((hmem q).2 hq)⟩

theorem WriteCalls.covers (h : WriteCalls ord hex text sub db) (hone : OneContent sub)
    (hno : NoDeletion sub) : Covers sub db.toStore := by
  induction h with
  | init => exact ⟨by simp [Db.init, Store.empty], by simp⟩
  | @call S cache sub db db' evs evs' hcalls hsub hok ih =>
    have hleft : ∀ p ∈ sub, p ∈ sub ++ evs.map EventToWrite.packed :=
      fun p hp => List.mem_append_left _ hp
    have hc := ih (fun p hp q hq => hone p (hleft p hp) q (hleft q hq))
      (fun p hp => hno p (hleft p hp))
    have hrun := writeEvents_run hcalls.reachable.storeInv hsub.writable hok
    have hprev : ∀ i, (none : Option Bytes) = some i → ∃ q ∈ sub, q.id = i := by rintro i ⟨⟩
    obtain ⟨seen, hc', hmem⟩ := hrun.covers hleft
      (fun ev hev => List.mem_append_right _ (List.mem_map_of_mem (S.mem_sort.1 hev))) hone hno
      hprev hc
    refine hc'.congr fun p => ?_
    rw [hmem, List.mem_append, List.mem_map]
    simp only [S.mem_sort]

/-- The store holds the maximal events of those submitted. -/
theorem WriteCalls.mem_iff_maximal (h : WriteCalls ord hex text sub db) (hone : OneContent sub)
    (hno : NoDeletion sub) (p : PackedEvent) :
    (∃ r ∈ db.event.rows, r.2 = p) ↔ IsMaximal sub p := by
  have hc := h.covers hone hno
  have hinv := h.reachable.storeInv
  constructor
  · rintro ⟨r, hr, rfl⟩
    refine ⟨hc.submitted r hr, fun q hq hsup => ?_⟩
    -- what covers `q` is at the address of `r`, so it is `r`
    obtain ⟨r', hr', hsup'⟩ := hc.covered q hq
    rcases hsup'.trans hsup with heq | ⟨hs, -⟩
    · exact heq ▸ hsup'
    · exact hinv.uniqueAddress r r' hr hr' hs ▸ hsup'
  · rintro ⟨hp, hmax⟩
    obtain ⟨r, hr, hsup⟩ := hc.covered p hp
    have hle : Supersedes p r.2 := hmax (hc.submitted r hr) hsup
    exact ⟨r, hr, hsup.antisymm hle⟩

/-- Maximality in the words of the protocol. -/
theorem isMaximal_iff (hone : OneContent sub) (p : PackedEvent) :
    IsMaximal sub p ↔ p ∈ sub ∧ (isReplacing p.kind = true → ∀ q ∈ sub, SameAddress p q → q ≠ p →
      q.createdAt < p.createdAt ∨ (q.createdAt = p.createdAt ∧ p.id < q.id)) := by
  constructor
  · rintro ⟨hp, hmax⟩
    refine ⟨hp, fun _ q hq hs hne => ?_⟩
    rw [← beats_iff]
    by_contra hb
    have hid : p.id ≠ q.id := fun hid => hne (hone p hp q hq hid).symm
    have hqp : Supersedes q p := Or.inr ⟨hs, (beats_or_beats hid).resolve_left hb⟩
    exact hne (hqp.antisymm (hmax hq hqp))
  · rintro ⟨hp, hwin⟩
    refine ⟨hp, fun q hq hsup => ?_⟩
    rcases hsup with rfl | ⟨hs, hb⟩
    · exact Or.inl rfl
    · by_cases hne : q = p
      · exact Or.inl hne.symm
      · have hpq := beats_iff.2 (hwin hs.1 q hq hs hne)
        rw [beats_asymm hpq] at hb
        cases hb

theorem WriteCalls.ids_eq (h : WriteCalls ord hex text sub db) (hone : OneContent sub)
    (hno : NoDeletion sub) : db.toStore.ids = winnerIds sub := by
  ext i
  have hiff := fun p => (h.mem_iff_maximal hone hno p).trans (isMaximal_iff hone p)
  constructor
  · rintro ⟨r, hr, hid⟩
    obtain ⟨hp, hwin⟩ := (hiff r.2).1 ⟨r, hr, rfl⟩
    exact ⟨r.2, hp, hid, hwin⟩
  · rintro ⟨p, hp, hid, hwin⟩
    obtain ⟨r, hr, rfl⟩ := (hiff p).2 ⟨hp, hwin⟩
    exact ⟨r, hr, hid⟩

end Runs

/-- Replaceable events converge: without deletions the stored ids are a function of the set of
events submitted, and with deletions there is still at most one event at an address. -/
theorem replaceable_events_converge (ord : IndexOrder) (hex : HexCodec) (text : JsonText) :
    (∀ sub db, WriteCalls ord hex text sub db → OneContent sub → NoDeletion sub →
      db.toStore.ids = winnerIds sub) ∧
    (∀ sub sub' db db', WriteCalls ord hex text sub db → WriteCalls ord hex text sub' db' →
      OneContent sub → NoDeletion sub → (∀ p, p ∈ sub ↔ p ∈ sub') →
      db.toStore.ids = db'.toStore.ids) ∧
    ∀ db, StoreReachable ord hex text db → ∀ a b : Nat × PackedEvent,
      a ∈ db.event.rows → b ∈ db.event.rows → SameAddress a.2 b.2 → a = b := by
  refine ⟨fun sub db h hone hno => h.ids_eq hone hno, ?_, fun db h => h.storeInv.uniqueAddress⟩
  intro sub sub' db db' h h' hone hno hmem
  have hone' : OneContent sub' :=
    fun p hp q hq => hone p ((hmem p).2 hp) q ((hmem q).2 hq)
  have hno' : NoDeletion sub' := fun p hp => hno p ((hmem p).2 hp)
  rw [h.ids_eq hone hno, h'.ids_eq hone' hno']
  simp only [winnerIds, hmem]

/-- Two profiles of one author in one batch: the newer one is left. -/
theorem replaceable_events_converge_twoProfiles :
    ∃ db, WriteCalls byteOrder hexCodec emptyObjectText (twoProfiles.map EventToWrite.packed) db ∧
      db.event.rows.map (fun r => r.2.id) = [List.replicate 32 2] ∧
      db.toStore.ids = winnerIds (twoProfiles.map EventToWrite.packed) := by
  have heval : ((writeEvents .insertion byteOrder hexCodec emptyObjectText {} Db.init
      twoProfiles).2.map fun r => r.1.event.rows.map fun r => r.2.id) =
        .ok [List.replicate 32 2] := by decide +kernel
  obtain ⟨⟨db', evs'⟩, hok, heq⟩ := map_eq_ok.1 heval
  have hcalls : WriteCalls byteOrder hexCodec emptyObjectText
      (twoProfiles.map EventToWrite.packed) db' :=
    .call .insertion {} .init submitted_twoProfiles hok
  refine ⟨db', hcalls, heq, ?_⟩
  refine (replaceable_events_converge byteOrder hexCodec emptyObjectText).1 _ db' hcalls ?_ ?_
  · decide +kernel
  · decide +kernel

end Strfry
