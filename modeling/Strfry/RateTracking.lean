import Strfry.RateCaches

/-!
# Forgotten buckets

The bucket of an address or a pubkey may be forgotten, and its key then gets a new one, which is full.
It is forgotten when enough other keys have been used since its own last use. Each use of a key takes a
token out of the global bucket, and `TokenBucket.spent` bounds how many tokens have been taken since a
time. The invariant `Tracked` ties the place of a key in the list to it. If a cache has room for twice
the capacity of the global bucket, then so much time has passed that the forgotten bucket is full
(`Tracked.full_of_last`).

`Inv` is the invariant of the limiter, and `Run.inv` says that it holds along every run.
-/

set_option autoImplicit false

namespace Strfry

open Lib

/-! ## Tokens taken since a time -/

namespace TokenBucket

variable {g b : TokenBucket} {t t' u : ℚ}

/-- A bound on the tokens that have been taken since time `u`, at time `t`. -/
def spent (g : TokenBucket) (t u : ℚ) : ℚ := g.capacity - g.level t + (t - u) * g.refillRate

theorem spent_self_nonneg (g : TokenBucket) (t : ℚ) : 0 ≤ g.spent t t := by
  have := g.level_le_capacity t
  rw [spent, sub_self, zero_mul, add_zero]
  linarith

theorem level_le_add (b : TokenBucket) (h : t ≤ t') :
    b.level t' ≤ b.level t + (t' - t) * b.refillRate :=
  Lib.level_le_add b.refillRate_nonneg h

theorem spent_mono (g : TokenBucket) (h : t ≤ t') (u : ℚ) : g.spent t u ≤ g.spent t' u := by
  have := g.level_le_add h
  unfold spent
  linarith

@[simp] theorem consume_capacity (b : TokenBucket) (t : ℚ) : (b.consume t).2.capacity = b.capacity := by
  by_cases h : 1 ≤ b.level t
  · rw [consume_of_le h]
    rfl
  · rw [consume_of_lt (not_le.1 h)]
    rfl

@[simp] theorem consume_refillRate (b : TokenBucket) (t : ℚ) :
    (b.consume t).2.refillRate = b.refillRate := by
  by_cases h : 1 ≤ b.level t
  · rw [consume_of_le h]
    rfl
  · rw [consume_of_lt (not_le.1 h)]
    rfl

@[simp] theorem consume_lastRefill (b : TokenBucket) (t : ℚ) : (b.consume t).2.lastRefill = t := by
  by_cases h : 1 ≤ b.level t
  · rw [consume_of_le h]
    rfl
  · rw [consume_of_lt (not_le.1 h)]
    rfl

/-- Taking a token adds one. -/
theorem spent_consume (h : 1 ≤ g.level t) (u : ℚ) :
    (g.consume t).2.spent t u = g.spent t u + 1 := by
  unfold spent
  rw [level_consume_of_le h, consume_capacity, consume_refillRate]
  ring

/-- A bucket for this limit, at time `t`. -/
structure Ok (cfg : RateConfig) (perMinute : Nat) (t : ℚ) (b : TokenBucket) : Prop where
  capacity : b.capacity = cfg.capacity perMinute
  refillRate : b.refillRate = perSecond perMinute
  lastRefill : b.lastRefill ≤ t
  nonneg : 0 ≤ b.tokens

variable {cfg : RateConfig} {perMinute : Nat}

theorem Ok.mono (h : b.Ok cfg perMinute t) (hle : t ≤ t') : b.Ok cfg perMinute t' :=
  ⟨h.capacity, h.refillRate, h.lastRefill.trans hle, h.nonneg⟩

theorem Ok.level_nonneg (h : b.Ok cfg perMinute t) (hburst : 0 ≤ cfg.burstMultiplier) :
    0 ≤ b.level t := by
  apply Lib.level_nonneg b.refillRate_nonneg ?_ h.nonneg h.lastRefill
  rw [h.capacity, RateConfig.capacity]
  positivity

theorem Ok.refill (h : b.Ok cfg perMinute t) (hburst : 0 ≤ cfg.burstMultiplier) (hle : t ≤ t') :
    (b.refill t').Ok cfg perMinute t' :=
  ⟨h.capacity, h.refillRate, le_rfl, (h.mono hle).level_nonneg hburst⟩

theorem Ok.consume (h : b.Ok cfg perMinute t) (hburst : 0 ≤ cfg.burstMultiplier) (hle : t ≤ t') :
    (b.consume t').2.Ok cfg perMinute t' := by
  refine ⟨by rw [consume_capacity, h.capacity], by rw [consume_refillRate, h.refillRate],
    by rw [consume_lastRefill], ?_⟩
  by_cases hlevel : 1 ≤ b.level t'
  · rw [consume_of_le hlevel]
    exact sub_nonneg.2 hlevel
  · rw [consume_of_lt (not_le.1 hlevel)]
    exact (h.mono hle).level_nonneg hburst

theorem ok_newBucket (cfg : RateConfig) (perMinute : Nat) (hburst : 0 ≤ cfg.burstMultiplier) (t : ℚ) :
    (cfg.newBucket perMinute t).Ok cfg perMinute t := by
  refine ⟨rfl, rfl, le_rfl, ?_⟩
  show 0 ≤ (perMinute : ℚ) * cfg.burstMultiplier
  positivity

end TokenBucket

namespace RateLimiter

/-! ## Places in the list -/

/-- The bucket has been empty no later than at time `u`, or had at least as much. -/
def FullFrom (u : ℚ) (b : TokenBucket) : Prop :=
  Lib.level b.capacity b.refillRate 0 u b.lastRefill ≤ b.tokens

/-- The buckets of a cache, and the places of their keys: a key at place `i` has been used at a time
since when `i + n` tokens may have been taken out of the global bucket `g`. -/
structure Tracked (cfg : RateConfig) (perMinute : Nat) (g : TokenBucket) (n : ℚ) (t : ℚ)
    (c : LRUBucketCache) : Prop where
  inv : c.Inv
  ok : ∀ k b, c.buckets.lookup k = some b → b.Ok cfg perMinute t
  place : ∀ (i : Nat) k b, c.lruOrder[i]? = some k → c.buckets.lookup k = some b →
    ∃ u ≤ b.lastRefill, FullFrom u b ∧ i + n ≤ g.spent t u

section Tracked

variable {cfg : RateConfig} {perMinute : Nat} {g g' : TokenBucket} {n n' t t' : ℚ} {c : LRUBucketCache}

/-- Time passes, or more tokens are taken. -/
theorem Tracked.mono (h : Tracked cfg perMinute g n t c) (hle : t ≤ t')
    (hspent : ∀ u, g.spent t u + n' ≤ g'.spent t' u + n) : Tracked cfg perMinute g' n' t' c where
  inv := h.inv
  ok k b hb := (h.ok k b hb).mono hle
  place i k b hi hb := by
    obtain ⟨u, hu, hfull, hplace⟩ := h.place i k b hi hb
    refine ⟨u, hu, hfull, ?_⟩
    have := hspent u
    linarith

theorem tracked_empty (cfg : RateConfig) (perMinute : Nat) (g : TokenBucket) (n t : ℚ) :
    Tracked cfg perMinute g n t {} :=
  ⟨LRUBucketCache.inv_empty, by simp, by simp⟩

theorem length_lruOrder (h : c.Inv) : c.lruOrder.length = c.size := by
  have hperm : c.lruOrder.Perm c.buckets.keys := by
    rw [List.perm_ext_iff_of_nodup h.nodup c.buckets.keys_nodup]
    intro k
    rw [h.mem_iff, Map.mem_keys_iff, Option.isSome_iff_exists]
  exact hperm.length_eq

/-- A bucket that was empty at `u` is full after the time for its capacity. -/
theorem FullFrom.full {b : TokenBucket} {u : ℚ} (h : FullFrom u b) (hle : b.lastRefill ≤ t)
    (hlong : b.capacity ≤ (t - u) * b.refillRate) : b.level t = b.capacity := by
  apply le_antisymm (b.level_le_capacity t)
  have hmono : Lib.level b.capacity b.refillRate (Lib.level b.capacity b.refillRate 0 u b.lastRefill)
      b.lastRefill t ≤ b.level t := Lib.level_mono_left h
  rw [Lib.level_level b.refillRate_nonneg hle, Lib.level_eq_cap le_rfl hlong] at hmono
  exact hmono

/-- The oldest bucket of a cache that is full. -/
theorem Tracked.full_of_last (h : Tracked cfg perMinute g 1 t c) (hburst : 0 ≤ cfg.burstMultiplier)
    (hg : g.Ok cfg cfg.globalPerMinute t) (hglobal : 0 < cfg.globalPerMinute) {maxBuckets : Nat}
    (hmax : 2 * cfg.burstMultiplier * cfg.globalPerMinute ≤ maxBuckets) (hsize : maxBuckets ≤ c.size)
    {k : Bytes} {b : TokenBucket} (hlast : c.lruOrder.getLast? = some k)
    (hb : c.buckets.lookup k = some b) : b.level t = b.capacity := by
  have hne : c.lruOrder ≠ [] := by
    intro hnil
    rw [hnil] at hlast
    cases hlast
  have hlen : 0 < c.lruOrder.length := List.length_pos_iff.2 hne
  obtain ⟨u, hu, hfull, hplace⟩ := h.place (c.lruOrder.length - 1) k b
    (by rw [← List.getLast?_eq_getElem?, hlast]) hb
  have hok := h.ok k b hb
  apply hfull.full hok.lastRefill
  -- as many tokens as the cache has places have been taken since `u`
  have hspent : (maxBuckets : ℚ) ≤ g.spent t u := by
    have hcast : ((c.lruOrder.length - 1 : Nat) : ℚ) = c.lruOrder.length - 1 := by
      rw [Nat.cast_sub hlen, Nat.cast_one]
    have hsize' : (maxBuckets : ℚ) ≤ c.lruOrder.length := by
      rw [length_lruOrder h.inv]
      exact_mod_cast hsize
    linarith
  have hnonneg := hg.level_nonneg hburst
  rw [TokenBucket.spent, hg.capacity, hg.refillRate, RateConfig.capacity, perSecond] at hspent
  have hpos : (0 : ℚ) < cfg.globalPerMinute := by exact_mod_cast hglobal
  -- so the time is enough to fill any bucket
  have htime : cfg.burstMultiplier ≤ (t - u) / 60 := by
    have hmul : cfg.globalPerMinute * cfg.burstMultiplier ≤
        cfg.globalPerMinute * ((t - u) / 60) := by linarith
    exact le_of_mul_le_mul_left hmul hpos
  rw [hok.capacity, hok.refillRate, RateConfig.capacity, perSecond]
  have hper : (0 : ℚ) ≤ perMinute := Nat.cast_nonneg _
  have := mul_le_mul_of_nonneg_left htime hper
  linarith

end Tracked

/-! ## A check of one cache -/

section CheckBucket

variable {cfg : RateConfig} {perMinute : Nat} {g : TokenBucket} {t newAt at_ : ℚ} {c : LRUBucketCache}
  (limitType : String) {maxBuckets : Nat} (key : Bytes)

/-- The other keys keep their buckets, up to the oldest one of a full cache. -/
theorem lookup_checkBucket_ne (cfg : RateConfig) (perMinute : Nat) (maxBuckets : Nat)
    (newAt at_ : ℚ) (c : LRUBucketCache) {k : Bytes} (hk : k ≠ key) :
    (checkBucket cfg perMinute limitType maxBuckets newAt at_ key c).2.buckets.lookup k =
        c.buckets.lookup k ∨
      (maxBuckets ≤ c.size ∧ c.lruOrder.getLast? = some k ∧
        (checkBucket cfg perMinute limitType maxBuckets newAt at_ key c).2.buckets.lookup k = none) := by
  unfold checkBucket LRUBucketCache.get
  cases hfound : c.buckets.lookup key with
  | some bucket =>
    left
    simp only [LRUBucketCache.store, LRUBucketCache.touch, Map.lookup_insert, if_neg hk]
  | none =>
    simp only [LRUBucketCache.store, LRUBucketCache.insert, Map.lookup_insert, Map.lookup_tryEmplace,
      if_neg hk]
    split_ifs with hfull
    · rw [LRUBucketCache.lookup_evictOldest]
      split_ifs with hlast
      · exact Or.inr ⟨hfull, hlast, rfl⟩
      · exact Or.inl rfl
    · exact Or.inl rfl

theorem lookup_checkBucket_self (cfg : RateConfig) (perMinute : Nat) (maxBuckets : Nat)
    (newAt at_ : ℚ) (c : LRUBucketCache) :
    (checkBucket cfg perMinute limitType maxBuckets newAt at_ key c).2.buckets.lookup key =
      some ((bucketFor cfg perMinute newAt c key).consume at_).2 := by
  obtain ⟨rest, heq, -⟩ := checkBucket_eq cfg perMinute limitType maxBuckets newAt at_ key c
  rw [heq, LRUBucketCache.store, Map.lookup_insert, if_pos rfl]

/-- The key goes to the front, and the others go back by at most one place. -/
theorem getElem?_checkBucket (cfg : RateConfig) (perMinute : Nat) (maxBuckets : Nat) (newAt at_ : ℚ)
    (c : LRUBucketCache) {i : Nat} {k : Bytes}
    (h : (checkBucket cfg perMinute limitType maxBuckets newAt at_ key c).2.lruOrder[i]? = some k) :
    (i = 0 ∧ k = key) ∨ ∃ j : Nat, c.lruOrder[j]? = some k ∧ i ≤ j + 1 := by
  unfold checkBucket LRUBucketCache.get at h
  cases hfound : c.buckets.lookup key with
  | some bucket =>
    rw [hfound] at h
    exact getElem?_moveToFront h
  | none =>
    simp only [hfound, LRUBucketCache.store, LRUBucketCache.insert] at h
    cases i with
    | zero =>
      left
      simpa [eq_comm] using h
    | succ i =>
      right
      rw [List.getElem?_cons_succ] at h
      refine ⟨i, ?_, le_rfl⟩
      split_ifs at h
      · unfold LRUBucketCache.evictOldest at h
        split at h
        · exact h
        · rw [List.getElem?_dropLast] at h
          split_ifs at h
          exact h
      · exact h

/-- The bucket that a key is checked against is in order. -/
theorem Tracked.ok_bucketFor {n : ℚ} (h : Tracked cfg perMinute g n t c)
    (hburst : 0 ≤ cfg.burstMultiplier) (hle : t ≤ newAt) :
    (bucketFor cfg perMinute newAt c key).Ok cfg perMinute newAt := by
  unfold bucketFor
  cases hfound : c.buckets.lookup key with
  | none => exact TokenBucket.ok_newBucket cfg perMinute hburst newAt
  | some b => exact (h.ok key b hfound).mono hle

/-- A check after a token has been taken out of the global bucket. -/
theorem Tracked.checkBucket (h : Tracked cfg perMinute g 1 t c) (hburst : 0 ≤ cfg.burstMultiplier)
    (hnew : t ≤ newAt) (hat : newAt ≤ at_) : Tracked cfg perMinute g 0 at_
      (checkBucket cfg perMinute limitType maxBuckets newAt at_ key c).2 := by
  have hinv := h.inv.checkBucket cfg perMinute limitType maxBuckets newAt at_ key
  have hself := lookup_checkBucket_self limitType key cfg perMinute maxBuckets newAt at_ c
  have hokself := (h.ok_bucketFor key hburst hnew).consume hburst hat
  have hother : ∀ k b, k ≠ key → (RateLimiter.checkBucket cfg perMinute limitType maxBuckets newAt at_
      key c).2.buckets.lookup k = some b → c.buckets.lookup k = some b := by
    intro k b hk hb
    rcases lookup_checkBucket_ne limitType key cfg perMinute maxBuckets newAt at_ c hk with heq | hnone
    · rw [← heq, hb]
    · rw [hnone.2.2] at hb
      cases hb
  refine ⟨hinv, fun k b hb => ?_, fun i k b hi hb => ?_⟩
  · by_cases hk : k = key
    · rw [hk, hself] at hb
      cases hb
      exact hokself
    · exact (h.ok k b (hother k b hk hb)).mono (hnew.trans hat)
  · by_cases hk : k = key
    · -- the key that is checked is used now, and is at the front
      have hi0 : i = 0 := by
        have hfront : (RateLimiter.checkBucket cfg perMinute limitType maxBuckets newAt at_ key
            c).2.lruOrder[0]? = some key := by
          unfold RateLimiter.checkBucket LRUBucketCache.get
          cases c.buckets.lookup key <;> rfl
        have hlt := (List.getElem?_eq_some_iff.1 hi).1
        exact (List.getElem?_inj hlt hinv.nodup).1 (hi.trans (hk ▸ hfront.symm))
      rw [hk, hself] at hb
      cases hb
      refine ⟨at_, by rw [TokenBucket.consume_lastRefill], ?_, ?_⟩
      · rw [FullFrom, TokenBucket.consume_lastRefill, Lib.level, sub_self, zero_mul, add_zero]
        exact (min_le_right _ _).trans hokself.nonneg
      · rw [hi0, Nat.cast_zero, add_zero]
        exact g.spent_self_nonneg at_
    · obtain ⟨j, hj, hle⟩ := (getElem?_checkBucket limitType key cfg perMinute maxBuckets newAt at_ c
        hi).resolve_left fun h0 => hk h0.2
      obtain ⟨u, hu, hfull, hplace⟩ := h.place j k b hj (hother k b hk hb)
      refine ⟨u, hu, hfull, ?_⟩
      have hmono := g.spent_mono (hnew.trans hat) u
      have hle' : (i : ℚ) ≤ j + 1 := by exact_mod_cast hle
      linarith

/-- The tokens of a key, where a key without a bucket has a full one. -/
def cacheLevel (cfg : RateConfig) (perMinute : Nat) (c : LRUBucketCache) (k : Bytes) (t : ℚ) : ℚ :=
  (bucketFor cfg perMinute t c k).level t

theorem cacheLevel_of_none {k : Bytes} (h : c.buckets.lookup k = none) (t : ℚ) :
    cacheLevel cfg perMinute c k t = cfg.capacity perMinute := by
  rw [cacheLevel, bucketFor, h, Option.getD_none]
  exact TokenBucket.level_make le_rfl

theorem cacheLevel_of_some {k : Bytes} {b : TokenBucket} (h : c.buckets.lookup k = some b) (t : ℚ) :
    cacheLevel cfg perMinute c k t = b.level t := by
  rw [cacheLevel, bucketFor, h, Option.getD_some]

theorem Tracked.cacheLevel_le {n : ℚ} (h : Tracked cfg perMinute g n t c) (k : Bytes) (t' : ℚ) :
    cacheLevel cfg perMinute c k t' ≤ cfg.capacity perMinute := by
  cases hb : c.buckets.lookup k with
  | none => rw [cacheLevel_of_none hb]
  | some b =>
    rw [cacheLevel_of_some hb, ← (h.ok k b hb).capacity]
    exact b.level_le_capacity t'

theorem Tracked.cacheLevel_nonneg {n : ℚ} (h : Tracked cfg perMinute g n t c)
    (hburst : 0 ≤ cfg.burstMultiplier) (k : Bytes) : 0 ≤ cacheLevel cfg perMinute c k t :=
  (h.ok_bucketFor k hburst le_rfl).level_nonneg hburst

/-- While nothing happens, the tokens rise by at most the rate. -/
theorem Tracked.cacheLevel_wait {n t' : ℚ} (h : Tracked cfg perMinute g n t c) (k : Bytes)
    (hle : t ≤ t') : cacheLevel cfg perMinute c k t' ≤
      cacheLevel cfg perMinute c k t + (t' - t) * perSecond perMinute := by
  cases hb : c.buckets.lookup k with
  | none =>
    rw [cacheLevel_of_none hb, cacheLevel_of_none hb]
    have := mul_nonneg (sub_nonneg.2 hle) (perSecond_nonneg perMinute)
    linarith
  | some b =>
    rw [cacheLevel_of_some hb, cacheLevel_of_some hb, ← (h.ok k b hb).refillRate]
    exact b.level_le_add hle

/-- A check takes a token of its key, if there is one, and no key gains one by it: a bucket that is
forgotten is full. -/
theorem Tracked.cacheLevel_checkBucket (h : Tracked cfg perMinute g 1 t c)
    (hburst : 0 ≤ cfg.burstMultiplier) (hg : g.Ok cfg cfg.globalPerMinute t)
    (hglobal : 0 < cfg.globalPerMinute)
    (hmax : 2 * cfg.burstMultiplier * cfg.globalPerMinute ≤ maxBuckets)
    (hnew : t ≤ newAt) (hat : newAt ≤ at_) (k : Bytes) :
    (if k = key ∧ 1 ≤ (bucketFor cfg perMinute newAt c key).level at_ then (1 : ℚ) else 0) ≤
      cacheLevel cfg perMinute c k t - cacheLevel cfg perMinute
        (RateLimiter.checkBucket cfg perMinute limitType maxBuckets newAt at_ key c).2 k at_ +
        (at_ - t) * perSecond perMinute := by
  have hwait := h.cacheLevel_wait k (hnew.trans hat)
  by_cases hk : k = key
  · subst hk
    -- the level of the bucket before the check
    have hbefore : (bucketFor cfg perMinute newAt c k).level at_ = cacheLevel cfg perMinute c k at_ := by
      cases hb : c.buckets.lookup k with
      | none =>
        rw [cacheLevel_of_none hb, bucketFor, hb, Option.getD_none]
        exact TokenBucket.level_make hat
      | some b => rw [cacheLevel_of_some hb, bucketFor, hb, Option.getD_some]
    rw [cacheLevel_of_some (lookup_checkBucket_self limitType k cfg perMinute maxBuckets newAt at_ c)]
    by_cases hlevel : 1 ≤ (bucketFor cfg perMinute newAt c k).level at_
    · rw [if_pos ⟨rfl, hlevel⟩, TokenBucket.level_consume_of_le hlevel, hbefore]
      linarith
    · rw [if_neg fun hand => hlevel hand.2, TokenBucket.level_consume_of_lt (not_le.1 hlevel), hbefore]
      linarith
  · rw [if_neg fun hand => hk hand.1]
    rcases lookup_checkBucket_ne limitType key cfg perMinute maxBuckets newAt at_ c hk with
      heq | ⟨hsize, hlast, hnone⟩
    · have hsame : cacheLevel cfg perMinute (RateLimiter.checkBucket cfg perMinute limitType maxBuckets
          newAt at_ key c).2 k at_ = cacheLevel cfg perMinute c k at_ := by
        rw [cacheLevel, bucketFor, heq]
        rfl
      rw [hsame]
      linarith
    · obtain ⟨b, hb⟩ := Option.isSome_iff_exists.1
        ((h.inv.mem_iff k).1 (List.mem_of_getLast? hlast))
      have hfull := h.full_of_last hburst hg hglobal hmax hsize hlast hb
      have hpos := mul_nonneg (sub_nonneg.2 (hnew.trans hat)) (perSecond_nonneg perMinute)
      rw [cacheLevel_of_none hnone, cacheLevel_of_some hb, hfull, (h.ok k b hb).capacity]
      linarith

end CheckBucket

/-! ## A cleanup of one cache -/

section EraseStale

variable {cfg : RateConfig} {perMinute : Nat} {g : TokenBucket} {n t t' staleSeconds now : ℚ}
  {clock : Nat → ℚ} {c : LRUBucketCache}

/-- A cleanup loses no key, and refills one bucket at most. -/
theorem lookup_eraseStale (hinv : c.Inv) (hstale : 0 ≤ staleSeconds) (hclock : ∀ i, now ≤ clock i)
    (k : Bytes) :
    (c.eraseStale staleSeconds now clock).1.buckets.lookup k = c.buckets.lookup k ∨
      ∃ b, c.buckets.lookup k = some b ∧
        (c.eraseStale staleSeconds now clock).1.buckets.lookup k = some (b.refill (clock 0)) := by
  rcases LRUBucketCache.eraseStale_eq hinv hstale hclock with ⟨-, heq⟩ | ⟨k', b, -, hb, heq⟩
  · exact Or.inl (by rw [heq])
  · rw [heq, LRUBucketCache.store, Map.lookup_insert]
    split_ifs with hk
    · exact Or.inr ⟨b, hk ▸ hb, rfl⟩
    · exact Or.inl rfl

theorem Tracked.eraseStale (h : Tracked cfg perMinute g n t c) (hburst : 0 ≤ cfg.burstMultiplier)
    (hstale : 0 ≤ staleSeconds) (hnow : t ≤ now) (hclock : ∀ i, now ≤ clock i)
    (hle : clock 0 ≤ t') :
    Tracked cfg perMinute g n t' (c.eraseStale staleSeconds now clock).1 := by
  have ht : t ≤ clock 0 := hnow.trans (hclock 0)
  refine ⟨h.inv.eraseStale hstale hclock, fun k b hb => ?_, fun i k b hi hb => ?_⟩
  · rcases lookup_eraseStale h.inv hstale hclock k with heq | ⟨b', hb', heq⟩
    · exact (h.ok k b (heq ▸ hb)).mono (ht.trans hle)
    · rw [heq] at hb
      cases hb
      exact ((h.ok k b' hb').refill hburst ht).mono hle
  · rw [LRUBucketCache.eraseStale_lruOrder h.inv hstale hclock] at hi
    have hmono := fun u => g.spent_mono (ht.trans hle) u
    rcases lookup_eraseStale h.inv hstale hclock k with heq | ⟨b', hb', heq⟩
    · obtain ⟨u, hu, hfull, hplace⟩ := h.place i k b hi (heq ▸ hb)
      exact ⟨u, hu, hfull, hplace.trans (hmono u)⟩
    · obtain ⟨u, hu, hfull, hplace⟩ := h.place i k b' hi hb'
      rw [heq] at hb
      cases hb
      have hlast := (h.ok k b' hb').lastRefill.trans ht
      refine ⟨u, hu.trans hlast, ?_, hplace.trans (hmono u)⟩
      -- what the bucket had at least at its last refill, it has at least now
      have hmin : Lib.level b'.capacity b'.refillRate (Lib.level b'.capacity b'.refillRate 0 u
          b'.lastRefill) b'.lastRefill (clock 0) ≤ b'.level (clock 0) := Lib.level_mono_left hfull
      rw [Lib.level_level b'.refillRate_nonneg hlast] at hmin
      exact hmin

theorem Tracked.cacheLevel_eraseStale (h : Tracked cfg perMinute g n t c) (hstale : 0 ≤ staleSeconds)
    (hclock : ∀ i, now ≤ clock i) (hle : clock 0 ≤ t') (k : Bytes) :
    cacheLevel cfg perMinute (c.eraseStale staleSeconds now clock).1 k t' =
      cacheLevel cfg perMinute c k t' := by
  rcases lookup_eraseStale h.inv hstale hclock k with heq | ⟨b, hb, heq⟩
  · rw [cacheLevel, cacheLevel, bucketFor, bucketFor, heq]
  · rw [cacheLevel_of_some heq, cacheLevel_of_some hb]
    exact TokenBucket.level_refill hle

end EraseStale

/-! ## The limiter -/

/-- Configurations for which the limits hold: every check is made, and a cache has room for twice the
capacity of the global bucket. -/
structure Limits (cfg : RateConfig) : Prop where
  enabled : cfg.enabled = true
  ip : 0 < cfg.perIpPerMinute
  pubkey : 0 < cfg.perPubkeyPerMinute
  global : 0 < cfg.globalPerMinute
  ipBuckets : 2 * cfg.burstMultiplier * cfg.globalPerMinute ≤ cfg.maxIpBuckets
  pubkeyBuckets : 2 * cfg.burstMultiplier * cfg.globalPerMinute ≤ cfg.maxPubkeyBuckets

/-- What holds of a limiter at time `t`. -/
structure Inv (cfg : RateConfig) (t : ℚ) (s : RateLimiter) : Prop where
  config : s.config = cfg
  global : s.globalBucket.Ok cfg cfg.globalPerMinute t
  ip : Tracked cfg cfg.perIpPerMinute s.globalBucket 0 t s.ipCache
  pubkey : Tracked cfg cfg.perPubkeyPerMinute s.globalBucket 0 t s.pubkeyCache

section Limiter

variable {cfg : RateConfig} {t t' : ℚ} {s : RateLimiter}

theorem inv_new (cfg : RateConfig) (hburst : 0 ≤ cfg.burstMultiplier) (t : ℚ) :
    Inv cfg t (new cfg t) where
  config := rfl
  global := TokenBucket.ok_newBucket cfg cfg.globalPerMinute hburst t
  ip := tracked_empty _ _ _ _ _
  pubkey := tracked_empty _ _ _ _ _

theorem Inv.mono (h : Inv cfg t s) (hle : t ≤ t') : Inv cfg t' s where
  config := h.config
  global := h.global.mono hle
  ip := h.ip.mono hle fun u => by
    have := s.globalBucket.spent_mono hle u
    linarith
  pubkey := h.pubkey.mono hle fun u => by
    have := s.globalBucket.spent_mono hle u
    linarith

/-- What a request does to one cache: nothing, or a check of its key. If it is allowed, its key has
been checked and had a token. -/
def CacheStep (cfg : RateConfig) (perMinute : Nat) (limitType : String) (maxBuckets : Nat)
    (newAt at_ : ℚ) (key : Bytes) (allowed : Bool) (c c' : LRUBucketCache) : Prop :=
  (c' = c ∧ (allowed = true → key = [])) ∨
    (c' = (checkBucket cfg perMinute limitType maxBuckets newAt at_ key c).2 ∧
      (allowed = true → 1 ≤ (bucketFor cfg perMinute newAt c key).level at_))

/-- The step of the cache of IP addresses. -/
def IpStep (cfg : RateConfig) (r : Readings) : Bytes → Bool → LRUBucketCache → LRUBucketCache → Prop :=
  CacheStep cfg cfg.perIpPerMinute "per_ip" cfg.maxIpBuckets r.ipNew r.ip

/-- The step of the cache of pubkeys. -/
def PubkeyStep (cfg : RateConfig) (r : Readings) :
    Bytes → Bool → LRUBucketCache → LRUBucketCache → Prop :=
  CacheStep cfg cfg.perPubkeyPerMinute "per_pubkey" cfg.maxPubkeyBuckets r.pubkeyNew r.pubkey

theorem checkPubkey_step (hcfg : Limits cfg) (hconfig : s.config = cfg) (r : Readings)
    (pubkey : Bytes) : PubkeyStep cfg r pubkey (s.checkPubkey r pubkey).1.allowed s.pubkeyCache
      (s.checkPubkey r pubkey).2.pubkeyCache := by
  subst hconfig
  by_cases hpubkey : pubkey = []
  · left
    rw [checkPubkey, if_neg fun h => h.2 hpubkey]
    exact ⟨rfl, fun _ => hpubkey⟩
  · right
    refine ⟨?_, fun hallowed => ?_⟩
    · rw [checkPubkey, if_pos ⟨hcfg.pubkey, hpubkey⟩]
      simp only [refuse]
      split_ifs <;> rfl
    · rw [checkPubkey_allowed, pubkeyChecks, if_pos ⟨hcfg.pubkey, hpubkey⟩,
        List.forall_mem_singleton] at hallowed
      exact hallowed

theorem checkIp_step (hcfg : Limits cfg) (hconfig : s.config = cfg) (r : Readings)
    (ipAddress pubkey : Bytes) :
    IpStep cfg r ipAddress (s.checkIp r ipAddress pubkey).1.allowed s.ipCache
        (s.checkIp r ipAddress pubkey).2.ipCache ∧
      PubkeyStep cfg r pubkey (s.checkIp r ipAddress pubkey).1.allowed s.pubkeyCache
        (s.checkIp r ipAddress pubkey).2.pubkeyCache := by
  unfold checkIp
  split_ifs with hip
  · simp only
    subst hconfig
    split_ifs with hreason
    · exact ⟨Or.inr ⟨rfl, nofun⟩, Or.inl ⟨rfl, nofun⟩⟩
    · have hpass := (reason_eq_iff _ _ _ _ _ _ _ _).1 (not_not.1 hreason)
      refine ⟨Or.inr ⟨(checkPubkey_frame _ r pubkey).2, fun _ => hpass⟩, ?_⟩
      exact checkPubkey_step (s := { s with ipCache := (checkBucket s.config s.config.perIpPerMinute
        "per_ip" s.config.maxIpBuckets r.ipNew r.ip ipAddress s.ipCache).2 }) hcfg rfl r pubkey
  · have hempty : ipAddress = [] := by
      by_contra hne
      exact hip ⟨by rw [hconfig]; exact hcfg.ip, hne⟩
    exact ⟨Or.inl ⟨(checkPubkey_frame s r pubkey).2, fun _ => hempty⟩,
      checkPubkey_step hcfg hconfig r pubkey⟩

/-- A request that the global bucket refuses, and one that it lets pass. -/
inductive Outcome (cfg : RateConfig) (s : RateLimiter) (r : Readings) (ipAddress pubkey : Bytes)
    (allowed : Bool) (s' : RateLimiter) : Prop
  | refused : s.globalBucket.level r.global < 1 → allowed = false → s'.ipCache = s.ipCache →
      s'.pubkeyCache = s.pubkeyCache → Outcome cfg s r ipAddress pubkey allowed s'
  | passed : 1 ≤ s.globalBucket.level r.global → IpStep cfg r ipAddress allowed s.ipCache s'.ipCache →
      PubkeyStep cfg r pubkey allowed s.pubkeyCache s'.pubkeyCache →
      Outcome cfg s r ipAddress pubkey allowed s'

theorem checkAndConsume_outcome (hcfg : Limits cfg) (hconfig : s.config = cfg) (r : Readings)
    (ipAddress pubkey : Bytes) :
    (s.checkAndConsume r ipAddress pubkey).2.globalBucket = (s.globalBucket.consume r.global).2 ∧
      Outcome cfg s r ipAddress pubkey (s.checkAndConsume r ipAddress pubkey).1.allowed
        (s.checkAndConsume r ipAddress pubkey).2 := by
  have henabled : s.config.enabled = true := by rw [hconfig, hcfg.enabled]
  have hglobal : 0 < s.config.globalPerMinute := by rw [hconfig]; exact hcfg.global
  unfold checkAndConsume
  simp only [henabled, hglobal, if_true, TokenBucket.consume_fst, decide_eq_true_eq]
  by_cases hlevel : 1 ≤ s.globalBucket.level r.global
  · rw [if_pos hlevel]
    have hsteps := checkIp_step (s := { s with
      totalRequests := s.totalRequests + 1
      globalBucket := (s.globalBucket.consume r.global).2 }) hcfg hconfig r ipAddress pubkey
    exact ⟨checkIp_global _ r ipAddress pubkey, .passed hlevel hsteps.1 hsteps.2⟩
  · rw [if_neg hlevel]
    exact ⟨rfl, .refused (not_le.1 hlevel) rfl rfl rfl⟩

/-- One cache after a request that the global bucket let pass. -/
theorem Tracked.step {perMinute maxBuckets : Nat} {limitType : String} {newAt at_ : ℚ} {key : Bytes}
    {allowed : Bool} {g : TokenBucket} {c c' : LRUBucketCache} (hburst : 0 ≤ cfg.burstMultiplier)
    (h : Tracked cfg perMinute g 1 t c) (hnew : t ≤ newAt) (hat : newAt ≤ at_) (hle : at_ ≤ t')
    (hstep : CacheStep cfg perMinute limitType maxBuckets newAt at_ key allowed c c') :
    Tracked cfg perMinute g 0 t' c' := by
  rcases hstep with ⟨rfl, -⟩ | ⟨rfl, -⟩
  · apply h.mono (hnew.trans (hat.trans hle))
    intro u
    have := g.spent_mono (hnew.trans (hat.trans hle)) u
    linarith
  · apply (h.checkBucket limitType key hburst hnew hat).mono hle
    intro u
    have := g.spent_mono hle u
    linarith

/-- After the global bucket has let a request pass, one more token has been taken from it. -/
theorem Tracked.consume {perMinute : Nat} {g : TokenBucket} {c : LRUBucketCache}
    (h : Tracked cfg perMinute g 0 t c) (hle : t ≤ t') (hlevel : 1 ≤ g.level t') :
    Tracked cfg perMinute (g.consume t').2 1 t' c := by
  apply h.mono hle
  intro u
  have := g.spent_mono hle u
  rw [TokenBucket.spent_consume hlevel]
  linarith

theorem Inv.check (hcfg : Limits cfg) (hburst : 0 ≤ cfg.burstMultiplier) (h : Inv cfg t s)
    (r : Readings) (ipAddress pubkey : Bytes) (hle : t ≤ r.global) :
    Inv cfg r.pubkey (s.checkAndConsume r ipAddress pubkey).2 := by
  have hconfig := (s.checkAndConsume_cases r ipAddress pubkey).1.trans h.config
  obtain ⟨hglobal, hout⟩ := checkAndConsume_outcome hcfg h.config r ipAddress pubkey
  have hip : r.global ≤ r.ip := r.global_le.trans r.ipNew_le
  have hpubkey : r.global ≤ r.pubkeyNew := hip.trans r.ip_le
  have hend : r.ip ≤ r.pubkey := r.ip_le.trans r.pubkeyNew_le
  have hok := (h.global.consume hburst hle).mono (hip.trans hend)
  cases hout with
  | refused hlt _ hipc hpub =>
    have hinv := h.mono (hle.trans (hip.trans hend))
    have hspent : ∀ u, (s.globalBucket.consume r.global).2.spent r.pubkey u =
        s.globalBucket.spent r.pubkey u := by
      intro u
      unfold TokenBucket.spent
      rw [TokenBucket.consume_of_lt hlt, TokenBucket.level_refill (hip.trans hend)]
      rfl
    refine ⟨hconfig, hglobal ▸ hok, ?_, ?_⟩
    · rw [hglobal, hipc]
      exact hinv.ip.mono le_rfl fun u => by rw [hspent]
    · rw [hglobal, hpub]
      exact hinv.pubkey.mono le_rfl fun u => by rw [hspent]
  | passed hlevel hipc hpub =>
    refine ⟨hconfig, hglobal ▸ hok, ?_, ?_⟩
    · rw [hglobal]
      exact (h.ip.consume hle hlevel).step hburst r.global_le r.ipNew_le hend hipc
    · rw [hglobal]
      exact (h.pubkey.consume hle hlevel).step hburst hpubkey r.pubkeyNew_le le_rfl hpub

theorem Inv.cleanup (hburst : 0 ≤ cfg.burstMultiplier) (h : Inv cfg t s) (r : CleanupReadings)
    (hle : t ≤ r.ipNow) : Inv cfg r.finish (s.cleanup r) := by
  have hstale : (0 : ℚ) ≤ s.config.staleBucketSeconds := Nat.cast_nonneg _
  have hip := (r.ipNow_le 0).trans (r.ipClock_le 0)
  have hend := (r.pubkeyNow_le 0).trans (r.pubkeyClock_le 0)
  exact ⟨h.config, h.global.mono (hle.trans (hip.trans hend)),
    h.ip.eraseStale hburst hstale hle r.ipNow_le ((r.ipClock_le 0).trans hend),
    h.pubkey.eraseStale hburst hstale (hle.trans hip) r.pubkeyNow_le (r.pubkeyClock_le 0)⟩

theorem Run.inv {t₀ : ℚ} {log : List Request} (hcfg : Limits cfg) (hburst : 0 ≤ cfg.burstMultiplier)
    (h : Run t₀ (new cfg t₀) log t s) : Inv cfg t s := by
  induction h with
  | refl => exact inv_new cfg hburst t₀
  | check _ r ipAddress pubkey hle ih => exact ih.check hcfg hburst r ipAddress pubkey hle
  | cleanup _ r hle ih => exact ih.cleanup hburst r hle

end Limiter

end RateLimiter

end Strfry
