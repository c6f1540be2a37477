import Strfry.Cron

/-!
# What a pass of the cron removes

`cronPass` is a pass whose two transactions see the same store. `Expired` says which events are to go, in
exact arithmetic: a dated event once its time has come, and an ephemeral one once its lifetime is over,
but never the newest event.

The cutoff for ephemeral events is a difference of 64-bit integers. When the lifetime is longer than the
time since the epoch it wraps around, and fresh ephemeral events are below it (`Misjudged`).
-/

set_option autoImplicit false

namespace Strfry

open Lib

namespace Store

theorem mem_expirationIndex {st : Store} {e : Entry Bytes} :
    e ∈ st.expirationIndex ↔ ∃ levId p, (levId, p) ∈ st.event.rows ∧ p.expiration ≠ 0 ∧
      e = ⟨[], p.expiration, (levId : Nat)⟩ := by
  simp only [expirationIndex, List.mem_filterMap]
  constructor
  · rintro ⟨r, hr, heq⟩
    split at heq
    · next hne => exact ⟨r.1, r.2, hr, hne, (Option.some.inj heq).symm⟩
    · cases heq
  · rintro ⟨levId, p, hr, hne, rfl⟩
    exact ⟨(levId, p), hr, if_pos hne⟩

/-- The entries whose event a pass collects. -/
def Collected (st : Store) (mostRecent now ephemeralCutoff : Nat) (e : Entry Bytes) : Prop :=
  e.num ≤ now ∧ e.row ≠ mostRecent ∧
    (e.num = 1 → ∃ p, (e.row, p) ∈ st.event.rows ∧ p.createdAt ≤ ephemeralCutoff)

section Loop

variable {st : Store} {mostRecent now ephemeralCutoff : Nat}

/-- The callback along entries in key order: it stops at the first key above the clock. -/
theorem expiredLoop_spec {es : List (Entry Bytes)} (hindex : ∀ e ∈ es, e ∈ st.expirationIndex)
    (hsorted : es.Pairwise fun a b => a.num ≤ b.num) :
    ∃ levIds, st.expiredLoop mostRecent now ephemeralCutoff es = .ok levIds ∧
      ∀ levId, levId ∈ levIds ↔ ∃ e ∈ es, e.row = levId ∧
        st.Collected mostRecent now ephemeralCutoff e := by
  induction es with
  | nil => exact ⟨[], rfl, by simp⟩
  | cons e rest ih =>
    rw [List.pairwise_cons] at hsorted
    obtain ⟨levIds, hrest, hmem⟩ := ih (fun e' he' => hindex e' (List.mem_cons_of_mem _ he')) hsorted.2
    -- the entry is passed over
    have hskip : ¬ st.Collected mostRecent now ephemeralCutoff e → ∀ levId, levId ∈ levIds ↔
        ∃ e' ∈ e :: rest, e'.row = levId ∧ st.Collected mostRecent now ephemeralCutoff e' := by
      intro hno levId
      rw [hmem]
      simp [hno]
    -- the entry is collected
    have htake : st.Collected mostRecent now ephemeralCutoff e → ∀ levId, levId ∈ e.row :: levIds ↔
        ∃ e' ∈ e :: rest, e'.row = levId ∧ st.Collected mostRecent now ephemeralCutoff e' := by
      intro hyes levId
      rw [List.mem_cons, hmem]
      simp [hyes, eq_comm]
    rw [expiredLoop]
    by_cases hlate : e.num > now
    · -- the keys ascend, so nothing behind this one is due either
      refine ⟨[], if_pos hlate, fun levId => ?_⟩
      simp only [List.not_mem_nil, false_iff]
      rintro ⟨e', he', -, hdue, -⟩
      rcases List.mem_cons.mp he' with rfl | he'
      · omega
      · have := hsorted.1 e' he'
        omega
    rw [if_neg hlate]
    by_cases hnewest : e.row = mostRecent
    · rw [if_pos hnewest]
      exact ⟨levIds, hrest, hskip fun h => h.2.1 hnewest⟩
    rw [if_neg hnewest]
    by_cases hephemeral : e.num = 1
    · rw [if_pos hephemeral]
      obtain ⟨p, hp⟩ := row_mem_expirationIndex (hindex e List.mem_cons_self)
      rw [Table.get?_eq_some_iff.2 hp]
      by_cases hold : p.createdAt ≤ ephemeralCutoff
      · refine ⟨e.row :: levIds, ?_, htake ⟨by omega, hnewest, fun _ => ⟨p, hp, hold⟩⟩⟩
        simp only [if_pos hold, hrest]
        rfl
      · refine ⟨levIds, ?_, hskip fun h => ?_⟩
        · simp only [if_neg hold, hrest]
        · obtain ⟨q, hq, hle⟩ := h.2.2 hephemeral
          exact hold (Table.eq_of_mem hp hq ▸ hle)
    · rw [if_neg hephemeral, hrest]
      exact ⟨e.row :: levIds, rfl, htake ⟨by omega, hnewest, fun h => absurd h hephemeral⟩⟩

end Loop

/-- What a pass collects. -/
theorem expiredLevIds_spec (st : Store) (now lifetime : Nat) : ∃ levIds,
    st.expiredLevIds now lifetime = .ok levIds ∧ ∀ levId p, (levId, p) ∈ st.event.rows →
      (levId ∈ levIds ↔ levId ≠ st.event.lastKey ∧ p.expiration ≠ 0 ∧ p.expiration ≤ now ∧
        (p.expiration = 1 → p.createdAt ≤ (now + 2 ^ 64 - lifetime) % 2 ^ 64)) := by
  have hsorted : (ascFrom st.expirationIndex ⟨[], 0, (0 : Nat)⟩).Pairwise
      fun a b => a.num ≤ b.num := by
    refine (pairwise_ascFrom _ _).imp_of_mem fun {a b} ha hb hlt => ?_
    obtain ⟨_, p, -, -, rfl⟩ := mem_expirationIndex.mp (mem_ascFrom.mp ha).1
    obtain ⟨_, q, -, -, rfl⟩ := mem_expirationIndex.mp (mem_ascFrom.mp hb).1
    rcases Entry.lt_iff.mp hlt with h | ⟨-, h | h⟩
    · exact absurd h (lt_irrefl _)
    · exact h.le
    · exact h.1.le
  obtain ⟨levIds, hok, hmem⟩ : ∃ levIds, st.expiredLevIds now lifetime = .ok levIds ∧
      ∀ levId, levId ∈ levIds ↔ ∃ e ∈ ascFrom st.expirationIndex ⟨[], 0, (0 : Nat)⟩,
        e.row = levId ∧ st.Collected st.getMostRecentLevId now
          ((now + 2 ^ 64 - lifetime) % 2 ^ 64) e :=
    expiredLoop_spec (fun e he => (mem_ascFrom.mp he).1) hsorted
  refine ⟨levIds, hok, fun levId p hp => ?_⟩
  rw [hmem]
  constructor
  · rintro ⟨e, he, rfl, hdue, hnewest, hephemeral⟩
    obtain ⟨levId, q, hq, hne, rfl⟩ := mem_expirationIndex.mp (mem_ascFrom.mp he).1
    have hqp : q = p := Table.eq_of_mem hq hp
    subst hqp
    refine ⟨hnewest, hne, hdue, fun hone => ?_⟩
    obtain ⟨q', hq', hle⟩ := hephemeral hone
    exact Table.eq_of_mem hq' hp ▸ hle
  · rintro ⟨hnewest, hne, hdue, hephemeral⟩
    refine ⟨⟨[], p.expiration, (levId : Nat)⟩, ?_, rfl, hdue, hnewest, fun hone =>
      ⟨p, hp, hephemeral hone⟩⟩
    refine mem_ascFrom.mpr ⟨mem_expirationIndex.mpr ⟨levId, p, hp, hne, rfl⟩, ?_⟩
    exact Entry.le_iff.mpr (.inr ⟨rfl, .inl (Nat.pos_of_ne_zero hne)⟩)

end Store

section Pass

/-- A pass of the cron on a store that stays as it is between the two transactions. An exception in the
second one aborts it. -/
def cronPass (hex : HexCodec) (text : JsonText) (db : Db) (now lifetime : Nat) : Except Err Db := do
  let levIds ← db.expiredLevIds now lifetime
  if levIds = [] then .ok db
  else
    let (db', _) ← (db.deleteEvents hex text {} levIds).2
    .ok db'

/-- The store after a pass. -/
def afterPass (hex : HexCodec) (text : JsonText) (db : Db) (now lifetime : Nat) : Db :=
  match cronPass hex text db now lifetime with
  | .ok db' => db'
  | .error _ => db

/-- The events that are to go at the time `now`. -/
def Expired (db : Db) (now lifetime : Nat) (r : Nat × PackedEvent) : Prop :=
  r.1 ≠ db.event.lastKey ∧ ((1 < r.2.expiration ∧ r.2.expiration ≤ now) ∨
    (r.2.expiration = 1 ∧ r.2.createdAt + lifetime ≤ now))

/-- A pass removes the expired events and keeps the others. -/
def RemovesExpired (hex : HexCodec) (text : JsonText) (db : Db) (now lifetime : Nat) : Prop :=
  ∀ r, r ∈ (afterPass hex text db now lifetime).event.rows ↔
    r ∈ db.event.rows ∧ ¬ Expired db now lifetime r

/-- An ephemeral event whose age the pass gets wrong: with a lifetime that is longer than the time since
the epoch one that the wrapped cutoff does not spare, and at the epoch one that is due at once. -/
def Misjudged (now lifetime : Nat) (p : PackedEvent) : Prop :=
  p.expiration = 1 ∧ ((now < lifetime ∧ 0 < now ∧ p.createdAt + lifetime ≤ now + 2 ^ 64) ∨
    (now = 0 ∧ lifetime = 0 ∧ p.createdAt = 0))

variable {hex : HexCodec} {text : JsonText} {db : Db} {now lifetime : Nat}

/-- The filters of the trees compile, so that `deleteEvents` does not throw. -/
def FiltersCompile (hex : HexCodec) (text : JsonText) (db : Db) : Prop :=
  (NegentropyFilterCache.freshen hex text db {}).2 = .ok ()

/-- The events that the two transactions remove when the second one does not throw. -/
def Removed (db : Db) (now lifetime : Nat) (r : Nat × PackedEvent) : Prop :=
  r.1 ≠ db.event.lastKey ∧ r.2.expiration ≠ 0 ∧ r.2.expiration ≤ now ∧
    (r.2.expiration = 1 → r.2.createdAt ≤ (now + 2 ^ 64 - lifetime) % 2 ^ 64)

theorem mem_afterPass (r : Nat × PackedEvent) (hcompile : FiltersCompile hex text db) :
    r ∈ (afterPass hex text db now lifetime).event.rows ↔
      r ∈ db.event.rows ∧ ¬ Removed db now lifetime r := by
  obtain ⟨levIds, hok, hmem⟩ := db.toStore.expiredLevIds_spec now lifetime
  have hcollected : ∀ r, r ∈ db.event.rows → (r.1 ∈ levIds ↔ Removed db now lifetime r) :=
    fun r hr => hmem r.1 r.2 hr
  by_cases hnil : levIds = []
  · have hpass : afterPass hex text db now lifetime = db := by
      simp only [afterPass, cronPass, hok, hnil]
      rfl
    rw [hpass]
    refine ⟨fun hr => ⟨hr, fun h => ?_⟩, And.left⟩
    rw [← hcollected r hr, hnil] at h
    cases h
  · cases hfresh : NegentropyFilterCache.freshen hex text db {} with
    | mk cache res =>
      have hres : res = .ok () := by
        rw [FiltersCompile, hfresh] at hcompile
        exact hcompile
      subst hres
      have hpass : afterPass hex text db now lifetime = (db.deleteLoop cache.filters levIds).1 := by
        simp only [afterPass, cronPass, hok, bind, Except.bind, if_neg hnil, Db.deleteEvents, hfresh]
      rw [hpass, Db.mem_deleteLoop]
      exact and_congr_right fun hr => not_congr (hcollected r hr)

theorem mem_afterPass_of_error (r : Nat × PackedEvent) (hcompile : ¬ FiltersCompile hex text db) :
    r ∈ (afterPass hex text db now lifetime).event.rows ↔ r ∈ db.event.rows := by
  obtain ⟨levIds, hok, -⟩ := db.toStore.expiredLevIds_spec now lifetime
  have hpass : afterPass hex text db now lifetime = db := by
    by_cases hnil : levIds = []
    · simp only [afterPass, cronPass, hok, hnil]
      rfl
    · cases hfresh : NegentropyFilterCache.freshen hex text db {} with
      | mk cache res =>
        cases res with
        | ok u => exact absurd (by rw [FiltersCompile, hfresh]) hcompile
        | error e =>
          simp only [afterPass, cronPass, hok, bind, Except.bind, if_neg hnil, Db.deleteEvents, hfresh]
  rw [hpass]

/-- The cutoff when the lifetime fits into the time since the epoch. -/
theorem cutoff_of_le (hnow : now < 2 ^ 64) (hle : lifetime ≤ now) :
    (now + 2 ^ 64 - lifetime) % 2 ^ 64 = now - lifetime := by
  omega

/-- The cutoff when it does not: the difference wraps around. -/
theorem cutoff_of_lt (hlifetime : lifetime < 2 ^ 64) (hlt : now < lifetime) :
    (now + 2 ^ 64 - lifetime) % 2 ^ 64 = now + 2 ^ 64 - lifetime := by
  omega

/-- Where the pass judges an event as it should. -/
theorem removed_iff_expired (r : Nat × PackedEvent) (hnewest : r.1 ≠ db.event.lastKey)
    (hnow : now < 2 ^ 64) (hlifetime : lifetime < 2 ^ 64) :
    (Removed db now lifetime r ↔ Expired db now lifetime r) ↔ ¬ Misjudged now lifetime r.2 := by
  rw [Removed, Expired, Misjudged, and_iff_right hnewest, and_iff_right hnewest]
  by_cases hone : r.2.expiration = 1
  · have hbody : (r.2.expiration ≠ 0 ∧ r.2.expiration ≤ now ∧
        (r.2.expiration = 1 → r.2.createdAt ≤ (now + 2 ^ 64 - lifetime) % 2 ^ 64)) ↔
        1 ≤ now ∧ r.2.createdAt ≤ (now + 2 ^ 64 - lifetime) % 2 ^ 64 := by
      simp [hone]
    have hspec : ((1 < r.2.expiration ∧ r.2.expiration ≤ now) ∨
        (r.2.expiration = 1 ∧ r.2.createdAt + lifetime ≤ now)) ↔
        r.2.createdAt + lifetime ≤ now := by
      simp [hone]
    rw [hbody, hspec, and_iff_right hone]
    by_cases hle : lifetime ≤ now
    · -- the cutoff is exact
      rw [cutoff_of_le hnow hle]
      omega
    · -- the cutoff has wrapped around
      rw [cutoff_of_lt hlifetime (Nat.not_le.mp hle)]
      omega
  · -- a dated event is judged by its own time
    simp only [hone, false_and, or_false, false_implies, and_true, not_false_eq_true, iff_true]
    omega

/-- A pass removes exactly the expired events when the filters compile and it misjudges no event but
the newest, or when they do not compile and no event is expired. -/
theorem removesExpired_iff (hnow : now < 2 ^ 64) (hlifetime : lifetime < 2 ^ 64) :
    RemovesExpired hex text db now lifetime ↔
      (FiltersCompile hex text db ∧ ∀ r ∈ db.event.rows, r.1 ≠ db.event.lastKey →
        ¬ Misjudged now lifetime r.2) ∨
      (¬ FiltersCompile hex text db ∧ ∀ r ∈ db.event.rows, ¬ Expired db now lifetime r) := by
  by_cases hcompile : FiltersCompile hex text db
  · simp only [RemovesExpired, mem_afterPass _ hcompile, hcompile, true_and, not_true_eq_false,
      false_and, or_false]
    constructor
    · intro h r hr hnewest
      rw [← removed_iff_expired r hnewest hnow hlifetime]
      have := h r
      simp only [hr, true_and] at this
      exact not_iff_not.mp this
    · intro h r
      apply and_congr_right
      intro hr
      by_cases hnewest : r.1 = db.event.lastKey
      · simp [Removed, Expired, hnewest]
      · exact not_congr ((removed_iff_expired r hnewest hnow hlifetime).mpr (h r hr hnewest))
  · simp only [RemovesExpired, mem_afterPass_of_error _ hcompile, hcompile, false_and, false_or,
      not_false_eq_true, true_and]
    exact forall_congr' fun r => by tauto

/-- Two ephemeral events of the author `9`, from the time 1700000000. -/
def freshEphemeral : List EventToWrite :=
  [1, 2].map fun b => ⟨repeatedEvent b 9 1700000000 20000, [], .pending, 0, 0⟩

theorem submitted_freshEphemeral : Submitted hexCodec freshEphemeral := by
  intro ev hev
  obtain ⟨b, -, rfl⟩ := List.mem_map.1 hev
  exact ⟨rfl, fromJson_plainEvent _ _ _ _ _ _⟩

/-- The two events after they were written, and a pass over them. -/
def freshRun (now lifetime : Nat) : Except Err (Db × Db) := do
  let (db, _) ← (writeEvents .insertion byteOrder hexCodec emptyObjectText {} Db.init
    freshEphemeral).2
  let db' ← cronPass hexCodec emptyObjectText db now lifetime
  .ok (db, db')

/-- With a lifetime of five minutes the first event goes a day later, and the newest one stays. -/
theorem removesExpired_iff_next_day : ∃ db,
    StoreReachable byteOrder hexCodec emptyObjectText db ∧ db.event.rows.map Prod.fst = [1, 2] ∧
      (afterPass hexCodec emptyObjectText db 1700086400 300).event.rows.map Prod.fst = [2] ∧
      RemovesExpired hexCodec emptyObjectText db 1700086400 300 := by
  have heval : ((freshRun 1700086400 300).map fun r =>
      ((NegentropyFilterCache.freshen hexCodec emptyObjectText r.1 {}).2.toBool,
        r.1.event.rows.map Prod.fst, r.2.event.rows.map Prod.fst)) = .ok (true, [1, 2], [2]) := by
    decide +kernel
  obtain ⟨⟨db, db'⟩, hrun, heq⟩ := map_eq_ok.1 heval
  obtain ⟨⟨db₁, evs⟩, hwrite, hrun⟩ := bind_eq_ok.1 hrun
  obtain ⟨db₂, hpass, hrun⟩ := bind_eq_ok.1 hrun
  cases hrun
  simp only [Prod.mk.injEq] at heq
  have hreach : StoreReachable byteOrder hexCodec emptyObjectText db :=
    .single (.write .insertion {} submitted_freshEphemeral hwrite)
  have hcompile : FiltersCompile hexCodec emptyObjectText db := by
    rw [FiltersCompile]
    cases hres : (NegentropyFilterCache.freshen hexCodec emptyObjectText db {}).2 with
    | ok u => rfl
    | error e =>
      rw [hres] at heq
      exact absurd heq.1 nofun
  refine ⟨db, hreach, heq.2.1, ?_, (removesExpired_iff (by norm_num) (by norm_num)).mpr
    (.inl ⟨hcompile, fun r _ _ h => ?_⟩)⟩
  · rw [afterPass, hpass]
    exact heq.2.2
  · have := h.2
    omega

/-- With a lifetime of sixty-three years the first event goes a second after it was created. -/
theorem removes_fresh_ephemeral : ∃ db,
    StoreReachable byteOrder hexCodec emptyObjectText db ∧ db.event.rows.map Prod.fst = [1, 2] ∧
      (∀ r ∈ db.event.rows, ¬ Expired db 1700000001 2000000000 r) ∧
      (afterPass hexCodec emptyObjectText db 1700000001 2000000000).event.rows.map Prod.fst = [2] ∧
      ¬ RemovesExpired hexCodec emptyObjectText db 1700000001 2000000000 := by
  have heval : ((freshRun 1700000001 2000000000).map fun r =>
      (r.1.event.rows.map (fun r => (r.1, r.2.createdAt, r.2.expiration)),
        r.2.event.rows.map Prod.fst)) =
        .ok ([(1, 1700000000, 1), (2, 1700000000, 1)], [2]) := by
    decide +kernel
  obtain ⟨⟨db, db'⟩, hrun, heq⟩ := map_eq_ok.1 heval
  obtain ⟨⟨db₁, evs⟩, hwrite, hrun⟩ := bind_eq_ok.1 hrun
  obtain ⟨db₂, hpass, hrun⟩ := bind_eq_ok.1 hrun
  cases hrun
  rw [Prod.mk.injEq] at heq
  have hreach : StoreReachable byteOrder hexCodec emptyObjectText db :=
    .single (.write .insertion {} submitted_freshEphemeral hwrite)
  have hkeys : db.event.rows.map Prod.fst = [1, 2] := by
    have := congrArg (List.map Prod.fst) heq.1
    simpa [List.map_map, Function.comp_def] using this
  have hafter : (afterPass hexCodec emptyObjectText db 1700000001 2000000000).event.rows.map
      Prod.fst = [2] := by
    rw [afterPass, hpass]
    exact heq.2
  have hkept : ∀ r ∈ db.event.rows, ¬ Expired db 1700000001 2000000000 r := by
    intro r hr hexpired
    have hmem := List.mem_map_of_mem (f := fun r : Nat × PackedEvent =>
      (r.1, r.2.createdAt, r.2.expiration)) hr
    rw [heq.1] at hmem
    have hdue := hexpired.2
    simp only [List.mem_cons, Prod.mk.injEq, List.not_mem_nil, or_false] at hmem
    omega
  refine ⟨db, hreach, hkeys, hkept, hafter, fun h => ?_⟩
  obtain ⟨p, hp⟩ : ∃ p, (1, p) ∈ db.event.rows := by
    have hone : 1 ∈ db.event.rows.map Prod.fst := by simp [hkeys]
    obtain ⟨r, hr, h1⟩ := List.mem_map.mp hone
    exact ⟨r.2, h1 ▸ hr⟩
  have hstays := List.mem_map_of_mem (f := Prod.fst) ((h (1, p)).mpr ⟨hp, hkept _ hp⟩)
  rw [hafter] at hstays
  exact absurd hstays (by simp)

end Pass

end Strfry
