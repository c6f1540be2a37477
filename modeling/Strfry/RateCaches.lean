import Strfry.RateChecks

/-!
# The caches of the rate limiter

The list of a cache holds the keys of its buckets, each once (`LRUBucketCache.Inv`).

`eraseStale` is to remove the buckets at the back of the list that have not been used for a while and
are full again. It refills a bucket before it looks at the time of its last refill. That time is then
never in the past, so nothing is ever removed (`eraseStale_lruOrder`).
-/

set_option autoImplicit false

namespace Strfry

open Lib

namespace LRUBucketCache

/-- The list and the map have the same keys. -/
structure Inv (c : LRUBucketCache) : Prop where
  nodup : c.lruOrder.Nodup
  mem_iff : ∀ k, k ∈ c.lruOrder ↔ (c.buckets.lookup k).isSome = true

variable {c : LRUBucketCache} {key : Bytes}

theorem inv_empty : Inv {} := ⟨List.nodup_nil, by simp⟩

theorem Inv.touch (h : c.Inv) (hkey : (c.buckets.lookup key).isSome = true) : (c.touch key).Inv where
  nodup := nodup_moveToFront h.nodup key
  mem_iff k := by
    rw [LRUBucketCache.touch, mem_moveToFront, h.mem_iff]
    refine ⟨?_, Or.inr⟩
    rintro (rfl | hk)
    · exact hkey
    · exact hk

theorem Inv.insert (h : c.Inv) (hkey : c.buckets.lookup key = none) (b : TokenBucket) :
    (c.insert key b).Inv where
  nodup := by
    refine List.nodup_cons.2 ⟨fun hmem => ?_, h.nodup⟩
    rw [h.mem_iff, hkey] at hmem
    cases hmem
  mem_iff k := by
    rw [LRUBucketCache.insert, List.mem_cons, h.mem_iff, Map.lookup_tryEmplace]
    by_cases hk : k = key <;> simp [hk]

theorem Inv.evictOldest (h : c.Inv) : c.evictOldest.Inv := by
  unfold LRUBucketCache.evictOldest
  split
  · exact h
  · rename_i oldest hlast
    have hsplit := List.dropLast_append_getLast? oldest hlast
    have hnodup := h.nodup
    rw [← hsplit, List.nodup_append] at hnodup
    refine ⟨hnodup.1, fun k => ?_⟩
    have hmem := h.mem_iff k
    rw [← hsplit, List.mem_append, List.mem_singleton] at hmem
    rw [Map.lookup_erase]
    by_cases hk : k = oldest
    · subst hk
      simp only [if_true, Option.isSome_none, Bool.false_eq_true, iff_false]
      exact fun hin => hnodup.2.2 k hin k (List.mem_singleton_self k) rfl
    · rw [if_neg hk, ← hmem]
      exact ⟨Or.inl, fun hor => hor.resolve_right hk⟩

theorem Inv.store (h : c.Inv) (hkey : key ∈ c.lruOrder) (b : TokenBucket) : (c.store key b).Inv where
  nodup := h.nodup
  mem_iff k := by
    rw [LRUBucketCache.store, Map.lookup_insert]
    by_cases hk : k = key
    · simp only [hk, if_true, Option.isSome_some, iff_true]
      exact hkey
    · rw [if_neg hk]
      exact h.mem_iff k

theorem lookup_evictOldest (c : LRUBucketCache) (k : Bytes) : c.evictOldest.buckets.lookup k =
    if c.lruOrder.getLast? = some k then none else c.buckets.lookup k := by
  unfold evictOldest
  cases c.lruOrder.getLast? with
  | none => simp
  | some oldest =>
    simp only [Map.lookup_erase, Option.some.injEq, eq_comm]

/-- A key that is used: it is in the list afterwards. -/
theorem Inv.checkBucket (h : c.Inv) (cfg : RateConfig) (perMinute : Nat) (limitType : String)
    (maxBuckets : Nat) (newAt at_ : ℚ) (key : Bytes) :
    (RateLimiter.checkBucket cfg perMinute limitType maxBuckets newAt at_ key c).2.Inv := by
  unfold RateLimiter.checkBucket LRUBucketCache.get
  cases hfound : c.buckets.lookup key with
  | some bucket =>
    have hsome : (c.buckets.lookup key).isSome = true := by
      rw [hfound]
      rfl
    have htouch := h.touch hsome
    exact htouch.store List.mem_cons_self _
  | none =>
    refine Inv.store (Inv.insert ?_ ?_ _) List.mem_cons_self _
    · split_ifs
      · exact h.evictOldest
      · exact h
    · simp only
      split_ifs
      · rw [lookup_evictOldest, hfound, ite_self]
      · exact hfound

/-! ## Cleaning up -/

section EraseStale

variable {staleSeconds now : ℚ} {clock : Nat → ℚ}

/-- The loop stops at the first bucket it finds. -/
theorem eraseStaleLoop_eq (hstale : 0 ≤ staleSeconds) (hclock : ∀ i, now ≤ clock i) {i n : Nat}
    {keys : List Bytes} {buckets : Map Bytes TokenBucket} {b : TokenBucket}
    (hb : buckets.lookup key = some b) :
    eraseStaleLoop staleSeconds now clock i (key :: keys) buckets n =
      (key :: keys, buckets.insert key (b.refill (clock i)), n) := by
  rw [eraseStaleLoop, hb]
  apply if_neg
  rintro ⟨-, hlt⟩
  have : now - clock i ≤ 0 := sub_nonpos.2 (hclock i)
  have hlt' : staleSeconds < now - clock i := hlt
  linarith

/-- A cleanup refills the bucket that has not been used for the longest time, and nothing else. -/
theorem eraseStale_eq (h : c.Inv) (hstale : 0 ≤ staleSeconds) (hclock : ∀ i, now ≤ clock i) :
    (c.lruOrder = [] ∧ c.eraseStale staleSeconds now clock = (⟨[], c.buckets⟩, 0)) ∨
      ∃ k b, c.lruOrder.getLast? = some k ∧ c.buckets.lookup k = some b ∧
        c.eraseStale staleSeconds now clock = (c.store k (b.refill (clock 0)), 0) := by
  unfold eraseStale
  cases hrev : c.lruOrder.reverse with
  | nil => exact Or.inl ⟨List.reverse_eq_nil_iff.1 hrev, rfl⟩
  | cons k keys =>
    right
    have hlast : c.lruOrder.getLast? = some k := by
      rw [List.getLast?_eq_head?_reverse, hrev]
      rfl
    obtain ⟨b, hb⟩ := Option.isSome_iff_exists.1
      ((h.mem_iff k).1 (List.mem_of_getLast? hlast))
    refine ⟨k, b, hlast, hb, ?_⟩
    rw [eraseStaleLoop_eq hstale hclock hb]
    simp only [← hrev, List.reverse_reverse]
    rfl

theorem eraseStale_lruOrder (h : c.Inv) (hstale : 0 ≤ staleSeconds) (hclock : ∀ i, now ≤ clock i) :
    (c.eraseStale staleSeconds now clock).1.lruOrder = c.lruOrder := by
  rcases eraseStale_eq h hstale hclock with ⟨hnil, heq⟩ | ⟨k, b, -, -, heq⟩
  · rw [heq, hnil]
  · rw [heq]
    rfl

theorem Inv.eraseStale (h : c.Inv) (hstale : 0 ≤ staleSeconds) (hclock : ∀ i, now ≤ clock i) :
    (c.eraseStale staleSeconds now clock).1.Inv := by
  rcases eraseStale_eq h hstale hclock with ⟨hnil, heq⟩ | ⟨k, b, hlast, -, heq⟩
  · rw [heq, ← hnil]
    exact h
  · rw [heq]
    exact h.store (List.mem_of_getLast? hlast) _

end EraseStale

end LRUBucketCache

/-! ## Runs -/

/-- A call of `checkAndConsume`, and its result. -/
structure Request where
  readings : Readings
  ipAddress : Bytes
  pubkey : Bytes
  allowed : Bool

namespace RateLimiter

/-- Calls of `checkAndConsume` and `cleanup`, from a state at time `t₀` to one at time `t`, with a clock
that does not go back. -/
inductive Run (t₀ : ℚ) (s₀ : RateLimiter) : List Request → ℚ → RateLimiter → Prop
  | refl : Run t₀ s₀ [] t₀ s₀
  | check {log : List Request} {t : ℚ} {s : RateLimiter} (hrun : Run t₀ s₀ log t s) (r : Readings)
      (ipAddress pubkey : Bytes) (hle : t ≤ r.global) :
      Run t₀ s₀ (log ++ [⟨r, ipAddress, pubkey, (s.checkAndConsume r ipAddress pubkey).1.allowed⟩])
        r.pubkey (s.checkAndConsume r ipAddress pubkey).2
  | cleanup {log : List Request} {t : ℚ} {s : RateLimiter} (hrun : Run t₀ s₀ log t s)
      (r : CleanupReadings) (hle : t ≤ r.ipNow) : Run t₀ s₀ log r.finish (s.cleanup r)

/-- The states of a limiter that has been constructed with `cfg`. -/
def Reachable (cfg : RateConfig) (t : ℚ) (s : RateLimiter) : Prop :=
  ∃ t₀ log, Run t₀ (new cfg t₀) log t s

/-- A check of the pubkey changes the cache of pubkeys by a check of its bucket, or not at all. -/
theorem checkPubkey_cases (s : RateLimiter) (r : Readings) (pubkey : Bytes) :
    (s.checkPubkey r pubkey).2.config = s.config ∧
      ((s.checkPubkey r pubkey).2.pubkeyCache = s.pubkeyCache ∨
        (s.checkPubkey r pubkey).2.pubkeyCache = (checkBucket s.config s.config.perPubkeyPerMinute
          "per_pubkey" s.config.maxPubkeyBuckets r.pubkeyNew r.pubkey pubkey s.pubkeyCache).2) := by
  unfold checkPubkey refuse
  split_ifs
  · simp only
    split_ifs <;> exact ⟨rfl, Or.inr rfl⟩
  · exact ⟨rfl, Or.inl rfl⟩

theorem checkIp_cases (s : RateLimiter) (r : Readings) (ipAddress pubkey : Bytes) :
    (s.checkIp r ipAddress pubkey).2.config = s.config ∧
      ((s.checkIp r ipAddress pubkey).2.ipCache = s.ipCache ∨
        (s.checkIp r ipAddress pubkey).2.ipCache = (checkBucket s.config s.config.perIpPerMinute
          "per_ip" s.config.maxIpBuckets r.ipNew r.ip ipAddress s.ipCache).2) ∧
      ((s.checkIp r ipAddress pubkey).2.pubkeyCache = s.pubkeyCache ∨
        (s.checkIp r ipAddress pubkey).2.pubkeyCache = (checkBucket s.config
          s.config.perPubkeyPerMinute "per_pubkey" s.config.maxPubkeyBuckets r.pubkeyNew r.pubkey
          pubkey s.pubkeyCache).2) := by
  unfold checkIp refuse
  split_ifs
  · simp only
    split_ifs
    · exact ⟨rfl, Or.inr rfl, Or.inl rfl⟩
    · have hcases := checkPubkey_cases { s with ipCache := (checkBucket s.config
        s.config.perIpPerMinute "per_ip" s.config.maxIpBuckets r.ipNew r.ip ipAddress
        s.ipCache).2 } r pubkey
      have hframe := checkPubkey_frame { s with ipCache := (checkBucket s.config
        s.config.perIpPerMinute "per_ip" s.config.maxIpBuckets r.ipNew r.ip ipAddress
        s.ipCache).2 } r pubkey
      exact ⟨hcases.1, Or.inr hframe.2, hcases.2⟩
  · exact ⟨(checkPubkey_cases s r pubkey).1, Or.inl (checkPubkey_frame s r pubkey).2,
      (checkPubkey_cases s r pubkey).2⟩

/-- What a request can do to the caches. -/
theorem checkAndConsume_cases (s : RateLimiter) (r : Readings) (ipAddress pubkey : Bytes) :
    (s.checkAndConsume r ipAddress pubkey).2.config = s.config ∧
      ((s.checkAndConsume r ipAddress pubkey).2.ipCache = s.ipCache ∨
        (s.checkAndConsume r ipAddress pubkey).2.ipCache = (checkBucket s.config
          s.config.perIpPerMinute "per_ip" s.config.maxIpBuckets r.ipNew r.ip ipAddress s.ipCache).2) ∧
      ((s.checkAndConsume r ipAddress pubkey).2.pubkeyCache = s.pubkeyCache ∨
        (s.checkAndConsume r ipAddress pubkey).2.pubkeyCache = (checkBucket s.config
          s.config.perPubkeyPerMinute "per_pubkey" s.config.maxPubkeyBuckets r.pubkeyNew r.pubkey
          pubkey s.pubkeyCache).2) := by
  unfold checkAndConsume refuse
  split_ifs
  · simp only
    split_ifs
    · exact checkIp_cases { s with
        totalRequests := s.totalRequests + 1
        globalBucket := (s.globalBucket.consume r.global).2 } r ipAddress pubkey
    · exact ⟨rfl, Or.inl rfl, Or.inl rfl⟩
    · exact checkIp_cases { s with totalRequests := s.totalRequests + 1 } r ipAddress pubkey
  · exact ⟨rfl, Or.inl rfl, Or.inl rfl⟩

/-- Both caches are in order. -/
structure CachesOk (cfg : RateConfig) (s : RateLimiter) : Prop where
  config : s.config = cfg
  ip : s.ipCache.Inv
  pubkey : s.pubkeyCache.Inv

theorem CachesOk.check {cfg : RateConfig} {s : RateLimiter} (h : s.CachesOk cfg) (r : Readings)
    (ipAddress pubkey : Bytes) : (s.checkAndConsume r ipAddress pubkey).2.CachesOk cfg := by
  obtain ⟨hconfig, hip, hpubkey⟩ := s.checkAndConsume_cases r ipAddress pubkey
  refine ⟨hconfig.trans h.config, ?_, ?_⟩
  · rcases hip with heq | heq <;> rw [heq]
    · exact h.ip
    · exact h.ip.checkBucket _ _ _ _ _ _ _
  · rcases hpubkey with heq | heq <;> rw [heq]
    · exact h.pubkey
    · exact h.pubkey.checkBucket _ _ _ _ _ _ _

theorem CachesOk.cleanup {cfg : RateConfig} {s : RateLimiter} (h : s.CachesOk cfg)
    (r : CleanupReadings) : (s.cleanup r).CachesOk cfg where
  config := h.config
  ip := h.ip.eraseStale (Nat.cast_nonneg _) r.ipNow_le
  pubkey := h.pubkey.eraseStale (Nat.cast_nonneg _) r.pubkeyNow_le

theorem Run.cachesOk {cfg : RateConfig} {t₀ t : ℚ} {s₀ s : RateLimiter} {log : List Request}
    (h : Run t₀ s₀ log t s) (h₀ : s₀.CachesOk cfg) : s.CachesOk cfg := by
  induction h with
  | refl => exact h₀
  | check _ r ipAddress pubkey _ ih => exact ih.check r ipAddress pubkey
  | cleanup _ r _ ih => exact ih.cleanup r

theorem Reachable.cachesOk {cfg : RateConfig} {t : ℚ} {s : RateLimiter} (h : Reachable cfg t s) :
    s.CachesOk cfg := by
  obtain ⟨t₀, log, hrun⟩ := h
  exact hrun.cachesOk ⟨rfl, LRUBucketCache.inv_empty, LRUBucketCache.inv_empty⟩

/-! ## Stale buckets -/

/-- The bucket of the key was last refilled more than `staleSeconds` ago, and holds at least 95% of
its capacity when it is refilled now. -/
def stale (staleSeconds now : ℚ) (c : LRUBucketCache) (key : Bytes) : Bool :=
  (c.buckets.lookup key).any fun b =>
    decide (b.capacity * (95 / 100) ≤ b.level now) && decide (staleSeconds < now - b.lastRefill)

/-- The cache `c'` is `c` without the stale buckets at the back of the list. -/
structure ErasesStaleTail (staleSeconds now : ℚ) (c c' : LRUBucketCache) : Prop where
  lruOrder : c'.lruOrder = c.lruOrder.rdropWhile (stale staleSeconds now c)
  buckets : ∀ k, (c'.buckets.lookup k).isSome = true ↔ k ∈ c'.lruOrder

/-- A cleanup removes the stale buckets at the back of the list exactly when there are none. -/
theorem eraseStale_exact_iff {cfg : RateConfig} {t now : ℚ} {s : RateLimiter}
    (h : Reachable cfg t s) {c : LRUBucketCache} (hc : c = s.ipCache ∨ c = s.pubkeyCache)
    {clock : Nat → ℚ} (hclock : ∀ i, now ≤ clock i) :
    ErasesStaleTail cfg.staleBucketSeconds now c
        (c.eraseStale cfg.staleBucketSeconds now clock).1 ↔
      ∀ k, c.lruOrder.getLast? = some k → stale cfg.staleBucketSeconds now c k = false := by
  have hinv : c.Inv := by
    rcases hc with rfl | rfl
    · exact h.cachesOk.ip
    · exact h.cachesOk.pubkey
  have hstale : (0 : ℚ) ≤ cfg.staleBucketSeconds := Nat.cast_nonneg _
  have hinv' := hinv.eraseStale hstale hclock
  have horder := LRUBucketCache.eraseStale_lruOrder hinv hstale hclock
  have hiff : ErasesStaleTail cfg.staleBucketSeconds now c
      (c.eraseStale cfg.staleBucketSeconds now clock).1 ↔
      c.lruOrder.rdropWhile (stale cfg.staleBucketSeconds now c) = c.lruOrder :=
    ⟨fun he => he.lruOrder.symm.trans horder, fun he => ⟨horder.trans he.symm,
      fun k => (hinv'.mem_iff k).symm⟩⟩
  rw [hiff, List.rdropWhile_eq_self_iff]
  constructor
  · intro hlast k hk
    have hne : c.lruOrder ≠ [] := by
      intro hnil
      rw [hnil] at hk
      cases hk
    rw [List.getLast?_eq_some_getLast hne] at hk
    cases hk
    exact Bool.not_eq_true _ ▸ hlast hne
  · intro hlast hne
    rw [hlast _ (List.getLast?_eq_some_getLast hne)]
    exact nofun

/-- A limiter that has seen one request, at time zero. -/
def afterOne : RateLimiter := ((new {} 0).checkAndConsume (still 0) [1] []).2

theorem reachable_afterOne : Reachable {} 0 afterOne :=
  ⟨0, _, .check .refl (still 0) [1] [] le_rfl⟩

/-- Right after the request there is nothing to remove. -/
theorem eraseStale_exact_afterOne :
    Reachable {} 0 afterOne ∧
      (∀ k, afterOne.ipCache.lruOrder.getLast? = some k →
        stale ({} : RateConfig).staleBucketSeconds 0 afterOne.ipCache k = false) ∧
      ErasesStaleTail ({} : RateConfig).staleBucketSeconds 0 afterOne.ipCache
        (afterOne.ipCache.eraseStale ({} : RateConfig).staleBucketSeconds 0 fun _ => 0).1 := by
  have hlast : ∀ k, afterOne.ipCache.lruOrder.getLast? = some k →
      stale ({} : RateConfig).staleBucketSeconds 0 afterOne.ipCache k = false := by
    intro k hk
    have hk' : afterOne.ipCache.lruOrder.getLast? = some [1] := by decide +kernel
    rw [hk'] at hk
    cases hk
    decide +kernel
  exact ⟨reachable_afterOne, hlast,
    (eraseStale_exact_iff reachable_afterOne (Or.inl rfl) fun _ => le_rfl).2 hlast⟩

/-- After a thousand seconds the bucket is full again, and is not removed. -/
theorem stale_bucket_kept :
    Reachable {} 0 afterOne ∧ afterOne.ipCache.lruOrder = [[1]] ∧
      stale ({} : RateConfig).staleBucketSeconds 1000 afterOne.ipCache [1] = true ∧
      (afterOne.ipCache.eraseStale ({} : RateConfig).staleBucketSeconds 1000
        fun _ => 1000).1.lruOrder = [[1]] ∧
      ¬ ErasesStaleTail ({} : RateConfig).staleBucketSeconds 1000 afterOne.ipCache
        (afterOne.ipCache.eraseStale ({} : RateConfig).staleBucketSeconds 1000 fun _ => 1000).1 := by
  have horder : (afterOne.ipCache.eraseStale ({} : RateConfig).staleBucketSeconds 1000
      fun _ => 1000).1.lruOrder = [[1]] := by decide +kernel
  refine ⟨reachable_afterOne, by decide +kernel, by decide +kernel, horder, fun h => ?_⟩
  have hdrop : afterOne.ipCache.lruOrder.rdropWhile
      (stale ({} : RateConfig).staleBucketSeconds 1000 afterOne.ipCache) = [] := by decide +kernel
  have := h.lruOrder
  rw [horder, hdrop] at this
  cases this

end RateLimiter

end Strfry
