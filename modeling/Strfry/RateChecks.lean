import Strfry.RateLimiter

/-!
# What a check costs

`checks` are the token counts that a request is checked against, in the order of the checks. A request
is allowed when each of them is at least one (`allowed_iff`). The checks come one after the other, and
each one that succeeds takes a token at once. So a request that a later bucket refuses has been
charged to the earlier ones (`uncharged_iff`).
-/

set_option autoImplicit false

namespace Strfry

open Lib

/-! ## Buckets -/

namespace TokenBucket

variable {b : TokenBucket} {t t' : ℚ}

theorem level_le_capacity (b : TokenBucket) (t : ℚ) : b.level t ≤ b.capacity :=
  Lib.level_le _ _ _ _ _

/-- A refill alone changes no later level. -/
theorem level_refill (h : t ≤ t') : (b.refill t).level t' = b.level t' :=
  Lib.level_level b.refillRate_nonneg h

theorem level_make {cap rate now : ℚ} {hrate : 0 ≤ rate} (h : now ≤ t) :
    (make cap rate now hrate).level t = cap :=
  Lib.level_full hrate h

/-- A token is taken when there is one. -/
theorem consume_of_le (h : 1 ≤ b.level t) :
    b.consume t = (true, { b.refill t with
      tokens := b.level t - 1, requestCount := b.requestCount + 1 }) :=
  if_pos h

/-- Otherwise there is only the refill. -/
theorem consume_of_lt (h : b.level t < 1) : b.consume t = (false, b.refill t) :=
  if_neg (not_le.2 h)

theorem consume_fst (b : TokenBucket) (t : ℚ) : (b.consume t).1 = decide (1 ≤ b.level t) := by
  by_cases h : 1 ≤ b.level t
  · rw [consume_of_le h, decide_eq_true h]
  · rw [consume_of_lt (not_le.1 h), decide_eq_false h]

theorem level_consume_of_le (h : 1 ≤ b.level t) : (b.consume t).2.level t = b.level t - 1 := by
  rw [consume_of_le h]
  apply Lib.level_self
  have := b.level_le_capacity t
  show b.level t - 1 ≤ b.capacity
  linarith

theorem level_consume_of_lt (h : b.level t < 1) : (b.consume t).2.level t = b.level t := by
  rw [consume_of_lt h]
  exact level_refill le_rfl

end TokenBucket

/-! ## One cache -/

namespace RateLimiter

/-- The bucket that a key is checked against: its own, or a new one. -/
def bucketFor (cfg : RateConfig) (perMinute : Nat) (newAt : ℚ) (cache : LRUBucketCache)
    (key : Bytes) : TokenBucket :=
  (cache.buckets.lookup key).getD (cfg.newBucket perMinute newAt)

section CheckBucket

variable (cfg : RateConfig) (perMinute : Nat) (limitType : String) (maxBuckets : Nat)
  (newAt at_ : ℚ) (key : Bytes) (cache : LRUBucketCache)

/-- `checkBucket` takes a token out of the bucket of the key. -/
theorem checkBucket_eq : ∃ rest : LRUBucketCache,
    checkBucket cfg perMinute limitType maxBuckets newAt at_ key cache =
      (if 1 ≤ (bucketFor cfg perMinute newAt cache key).level at_ then ""
        else "rate_limit_exceeded: " ++ limitType,
        rest.store key ((bucketFor cfg perMinute newAt cache key).consume at_).2) ∧
      ∀ k b, k ≠ key → rest.buckets.lookup k = some b → cache.buckets.lookup k = some b := by
  unfold checkBucket LRUBucketCache.get bucketFor
  cases hfound : cache.buckets.lookup key with
  | some bucket =>
    refine ⟨cache.touch key, ?_, fun k b _ hb => hb⟩
    simp only [TokenBucket.consume_fst, decide_eq_true_eq, Option.getD_some]
  | none =>
    refine ⟨_, by simp only [TokenBucket.consume_fst, decide_eq_true_eq, Option.getD_none]; rfl, ?_⟩
    intro k b hk hb
    rw [LRUBucketCache.insert, Map.lookup_tryEmplace, if_neg hk] at hb
    -- the cache before the insertion may have lost its oldest bucket
    split_ifs at hb with hfull
    · unfold LRUBucketCache.evictOldest at hb
      split at hb
      · exact hb
      · rw [Map.lookup_erase] at hb
        split_ifs at hb
        exact hb
    · exact hb

theorem reason_eq_iff : (checkBucket cfg perMinute limitType maxBuckets newAt at_ key cache).1 = "" ↔
    1 ≤ (bucketFor cfg perMinute newAt cache key).level at_ := by
  obtain ⟨rest, heq, -⟩ := checkBucket_eq cfg perMinute limitType maxBuckets newAt at_ key cache
  rw [heq]
  split_ifs with h
  · exact ⟨fun _ => h, fun _ => rfl⟩
  · refine ⟨fun hs => ?_, fun hle => absurd hle h⟩
    simp at hs

/-- Without a token, no bucket of the cache is charged. -/
theorem checkBucket_uncharged
    (h : (bucketFor cfg perMinute newAt cache key).level at_ < 1) {k : Bytes} {b : TokenBucket}
    (hb : (checkBucket cfg perMinute limitType maxBuckets newAt at_ key cache).2.buckets.lookup k =
      some b) : b.level at_ = (bucketFor cfg perMinute newAt cache k).level at_ := by
  obtain ⟨rest, heq, hrest⟩ := checkBucket_eq cfg perMinute limitType maxBuckets newAt at_ key cache
  rw [heq, LRUBucketCache.store, Map.lookup_insert] at hb
  split_ifs at hb with hk
  · cases hb
    rw [hk]
    exact TokenBucket.level_consume_of_lt h
  · rw [bucketFor, hrest k b hk hb, Option.getD_some]

/-- With a token, the bucket of the key is. -/
theorem checkBucket_charged (h : 1 ≤ (bucketFor cfg perMinute newAt cache key).level at_) :
    ∃ b, (checkBucket cfg perMinute limitType maxBuckets newAt at_ key cache).2.buckets.lookup key =
        some b ∧ b.level at_ = (bucketFor cfg perMinute newAt cache key).level at_ - 1 := by
  obtain ⟨rest, heq, -⟩ := checkBucket_eq cfg perMinute limitType maxBuckets newAt at_ key cache
  refine ⟨_, ?_, TokenBucket.level_consume_of_le h⟩
  rw [heq, LRUBucketCache.store, Map.lookup_insert, if_pos rfl]

end CheckBucket

/-! ## The three checks -/

section Checks

variable (s : RateLimiter) (r : Readings) (ipAddress pubkey : Bytes)

/-- The tokens that the pubkey has, if it is checked. -/
def pubkeyChecks : List ℚ :=
  if 0 < s.config.perPubkeyPerMinute ∧ pubkey ≠ [] then
    [(bucketFor s.config s.config.perPubkeyPerMinute r.pubkeyNew s.pubkeyCache pubkey).level r.pubkey]
  else []

/-- The tokens that the IP address has, if it is checked. -/
def ipChecks : List ℚ :=
  if 0 < s.config.perIpPerMinute ∧ ipAddress ≠ [] then
    [(bucketFor s.config s.config.perIpPerMinute r.ipNew s.ipCache ipAddress).level r.ip]
  else []

/-- The tokens that are left for all requests together, if they are limited. -/
def globalChecks : List ℚ :=
  if 0 < s.config.globalPerMinute then [s.globalBucket.level r.global] else []

/-- The token counts that a request is checked against. -/
def checks : List ℚ :=
  if s.config.enabled then
    s.globalChecks r ++ (s.ipChecks r ipAddress ++ s.pubkeyChecks r pubkey)
  else []

/-- No bucket has been charged: each has the tokens that a refill alone gives it, and one that is new
is full. -/
structure Uncharged (s s' : RateLimiter) (r : Readings) : Prop where
  global : s'.globalBucket.level r.global = s.globalBucket.level r.global
  ip : ∀ k b, s'.ipCache.buckets.lookup k = some b → b.level r.ip =
    (bucketFor s.config s.config.perIpPerMinute r.ipNew s.ipCache k).level r.ip
  pubkey : ∀ k b, s'.pubkeyCache.buckets.lookup k = some b → b.level r.pubkey =
    (bucketFor s.config s.config.perPubkeyPerMinute r.pubkeyNew s.pubkeyCache k).level r.pubkey

theorem level_bucketFor_of_lookup {cfg : RateConfig} {perMinute : Nat} {newAt t : ℚ}
    {cache : LRUBucketCache} {k : Bytes} {b : TokenBucket} (h : cache.buckets.lookup k = some b) :
    b.level t = (bucketFor cfg perMinute newAt cache k).level t := by
  rw [bucketFor, h, Option.getD_some]

/-- The check of the pubkey leaves the other buckets alone. -/
theorem checkPubkey_frame : (s.checkPubkey r pubkey).2.globalBucket = s.globalBucket ∧
    (s.checkPubkey r pubkey).2.ipCache = s.ipCache := by
  unfold checkPubkey refuse
  split_ifs
  · simp only
    split_ifs <;> exact ⟨rfl, rfl⟩
  · exact ⟨rfl, rfl⟩

theorem checkPubkey_allowed : (s.checkPubkey r pubkey).1.allowed = true ↔
    ∀ l ∈ s.pubkeyChecks r pubkey, 1 ≤ l := by
  unfold checkPubkey pubkeyChecks
  split_ifs with hcheck
  · rw [List.forall_mem_singleton, ← reason_eq_iff s.config s.config.perPubkeyPerMinute "per_pubkey"
      s.config.maxPubkeyBuckets r.pubkeyNew r.pubkey pubkey s.pubkeyCache]
    simp only
    split_ifs with hreason
    · exact ⟨nofun, fun h => absurd h hreason⟩
    · exact ⟨fun _ => not_not.1 hreason, fun _ => rfl⟩
  · simp

/-- A refusal of the pubkey alone costs nothing. -/
theorem checkPubkey_uncharged (h : (s.checkPubkey r pubkey).1.allowed = false) :
    Uncharged s (s.checkPubkey r pubkey).2 r := by
  have hframe := s.checkPubkey_frame r pubkey
  refine ⟨by rw [hframe.1], fun k b hb => ?_, fun k b hb => ?_⟩
  · rw [hframe.2] at hb
    exact level_bucketFor_of_lookup hb
  · have hnot : ¬ ∀ l ∈ s.pubkeyChecks r pubkey, 1 ≤ l := by
      rw [← s.checkPubkey_allowed r pubkey, h]
      exact nofun
    unfold pubkeyChecks at hnot
    split_ifs at hnot with hcheck
    · rw [List.forall_mem_singleton, not_le] at hnot
      apply checkBucket_uncharged _ _ "per_pubkey" s.config.maxPubkeyBuckets _ _ pubkey _ hnot
      rw [← hb, checkPubkey, if_pos hcheck]
      simp only
      split_ifs <;> rfl
    · simp at hnot

/-- The check of the IP address leaves the global bucket alone. -/
theorem checkIp_global :
    (s.checkIp r ipAddress pubkey).2.globalBucket = s.globalBucket := by
  unfold checkIp refuse
  split_ifs
  · simp only
    split_ifs
    · rfl
    · exact (checkPubkey_frame _ r pubkey).1
  · exact (checkPubkey_frame _ r pubkey).1

theorem checkIp_allowed : (s.checkIp r ipAddress pubkey).1.allowed = true ↔
    ∀ l ∈ s.ipChecks r ipAddress ++ s.pubkeyChecks r pubkey, 1 ≤ l := by
  unfold checkIp ipChecks
  split_ifs with hcheck
  · rw [List.forall_mem_append, List.forall_mem_singleton, ← reason_eq_iff s.config
      s.config.perIpPerMinute "per_ip" s.config.maxIpBuckets r.ipNew r.ip ipAddress s.ipCache]
    simp only
    split_ifs with hreason
    · exact ⟨nofun, fun h => absurd h.1 hreason⟩
    · rw [checkPubkey_allowed]
      exact ⟨fun h => ⟨not_not.1 hreason, h⟩, fun h => h.2⟩
  · rw [checkPubkey_allowed, List.nil_append]

/-- A request is allowed when there is a token in every bucket it is checked against. -/
theorem allowed_iff : (s.checkAndConsume r ipAddress pubkey).1.allowed = true ↔
    ∀ l ∈ s.checks r ipAddress pubkey, 1 ≤ l := by
  unfold checkAndConsume checks globalChecks
  split_ifs with henabled hglobal
  · rw [List.forall_mem_append, List.forall_mem_singleton]
    simp only [TokenBucket.consume_fst, decide_eq_true_eq]
    split_ifs with hlevel
    · rw [checkIp_allowed]
      exact ⟨fun h => ⟨hlevel, h⟩, fun h => h.2⟩
    · exact ⟨nofun, fun h => absurd h.1 hlevel⟩
  · simp only [hglobal, if_false]
    rw [checkIp_allowed, List.nil_append]
    rfl
  · simp

/-- A refusal of the IP address, when it is the first check, costs nothing; a refusal of the pubkey
after it does. -/
theorem checkIp_uncharged_iff {l : ℚ} {ls : List ℚ}
    (hl : s.ipChecks r ipAddress ++ s.pubkeyChecks r pubkey = l :: ls)
    (h : (s.checkIp r ipAddress pubkey).1.allowed = false) :
    Uncharged s (s.checkIp r ipAddress pubkey).2 r ↔ l < 1 := by
  unfold checkIp at h ⊢
  unfold ipChecks at hl
  split_ifs at h hl ⊢ with hcheck
  · obtain ⟨rfl, -⟩ := List.cons.inj hl
    have hreason := reason_eq_iff s.config s.config.perIpPerMinute "per_ip" s.config.maxIpBuckets
      r.ipNew r.ip ipAddress s.ipCache
    by_cases hlevel : 1 ≤ (bucketFor s.config s.config.perIpPerMinute r.ipNew s.ipCache
      ipAddress).level r.ip
    · refine ⟨fun hun => ?_, fun hlt => absurd hlevel (not_le.2 hlt)⟩
      obtain ⟨b, hb, hcharged⟩ := checkBucket_charged s.config s.config.perIpPerMinute "per_ip"
        s.config.maxIpBuckets r.ipNew r.ip ipAddress s.ipCache hlevel
      simp only [ne_eq, hreason.2 hlevel, not_true_eq_false, if_false] at hun
      have hcache := (checkPubkey_frame { s with ipCache := (checkBucket s.config
        s.config.perIpPerMinute "per_ip" s.config.maxIpBuckets r.ipNew r.ip ipAddress
        s.ipCache).2 } r pubkey).2
      have := hun.ip ipAddress b (by rw [hcache]; exact hb)
      rw [this] at hcharged
      linarith
    · refine ⟨fun _ => not_le.1 hlevel, fun hlt => ?_⟩
      rw [if_pos (mt hreason.1 hlevel)]
      refine ⟨rfl, fun k b hb => ?_, fun k b hb => level_bucketFor_of_lookup hb⟩
      exact checkBucket_uncharged _ _ "per_ip" s.config.maxIpBuckets _ _ ipAddress _ hlt hb
  · have hun := s.checkPubkey_uncharged r pubkey h
    refine ⟨fun _ => ?_, fun _ => hun⟩
    by_contra hle
    have hall : ∀ x ∈ s.pubkeyChecks r pubkey, 1 ≤ x := by
      rw [List.nil_append] at hl
      have hnil : ls = [] := by
        unfold pubkeyChecks at hl
        split_ifs at hl
        exact (List.cons.inj hl).2.symm
      rw [hl, hnil, List.forall_mem_singleton]
      exact not_lt.1 hle
    rw [(s.checkPubkey_allowed r pubkey).2 hall] at h
    cases h

/-- A refused request is charged to no bucket exactly when the first bucket that it is checked against
has no token, or all of them have one. -/
theorem uncharged_iff :
    ((s.checkAndConsume r ipAddress pubkey).1.allowed = false →
      Uncharged s (s.checkAndConsume r ipAddress pubkey).2 r) ↔
    ∀ l ls, s.checks r ipAddress pubkey = l :: ls → 1 ≤ l → ∀ l' ∈ ls, 1 ≤ l' := by
  have hallowed := s.allowed_iff r ipAddress pubkey
  cases hc : s.checks r ipAddress pubkey with
  | nil =>
    rw [hc] at hallowed
    refine ⟨fun _ => nofun, fun _ h => ?_⟩
    rw [hallowed.2 (by simp)] at h
    cases h
  | cons l ls =>
    rw [hc, List.forall_mem_cons] at hallowed
    -- a refused request costs nothing exactly when the first bucket refuses it
    have key : (s.checkAndConsume r ipAddress pubkey).1.allowed = false →
        (Uncharged s (s.checkAndConsume r ipAddress pubkey).2 r ↔ l < 1) := by
      intro h
      unfold checks globalChecks at hc
      unfold checkAndConsume at h ⊢
      split_ifs at hc with henabled hglobal
      · obtain ⟨rfl, -⟩ := List.cons.inj hc
        rw [if_pos henabled] at h ⊢
        simp only [hglobal, if_true, TokenBucket.consume_fst, decide_eq_true_eq] at h ⊢
        by_cases hlevel : 1 ≤ s.globalBucket.level r.global
        · refine ⟨fun hun => ?_, fun hlt => absurd hlevel (not_le.2 hlt)⟩
          rw [if_pos hlevel] at hun
          have := hun.global
          rw [checkIp_global, TokenBucket.level_consume_of_le hlevel] at this
          linarith
        · refine ⟨fun _ => not_le.1 hlevel, fun hlt => ?_⟩
          rw [if_neg hlevel]
          exact ⟨TokenBucket.level_consume_of_lt hlt, fun k b hb => level_bucketFor_of_lookup hb,
            fun k b hb => level_bucketFor_of_lookup hb⟩
      · rw [if_pos henabled] at h ⊢
        simp only [hglobal, if_false] at h ⊢
        have := checkIp_uncharged_iff { s with totalRequests := s.totalRequests + 1 } r ipAddress
          pubkey hc h
        rw [← this]
        exact ⟨fun hun => ⟨hun.global, hun.ip, hun.pubkey⟩,
          fun hun => ⟨hun.global, hun.ip, hun.pubkey⟩⟩
    constructor
    · rintro h l₀ ls₀ heq hle l' hl'
      obtain ⟨rfl, rfl⟩ := List.cons.inj heq
      by_contra hlt
      have hrefused : (s.checkAndConsume r ipAddress pubkey).1.allowed = false := by
        rw [← Bool.not_eq_true, hallowed]
        exact fun hall => hlt (hall.2 l' hl')
      exact absurd ((key hrefused).1 (h hrefused)) (not_lt.2 hle)
    · intro h hrefused
      rw [key hrefused]
      by_contra hle
      have := hallowed.2 ⟨not_lt.1 hle, h l ls rfl (not_lt.1 hle)⟩
      rw [hrefused] at this
      cases this

end Checks

/-- A limiter that allows each IP address one request. -/
def oneEach : RateConfig := { perIpPerMinute := 1, burstMultiplier := 1 }

/-- Readings of a clock that stands still. -/
def still (t : ℚ) : Readings where
  global := t
  ipNew := t
  ip := t
  pubkeyNew := t
  pubkey := t
  global_le := le_rfl
  ipNew_le := le_rfl
  ip_le := le_rfl
  pubkeyNew_le := le_rfl

/-- The second request of an IP address is refused, and takes a token out of the global bucket. -/
theorem second_request_charged :
    (((new oneEach 0).checkAndConsume (still 0) [1] []).2.checkAndConsume (still 0) [1] []).1 =
        ⟨false, "rate_limit_exceeded: per_ip"⟩ ∧
      ¬ Uncharged ((new oneEach 0).checkAndConsume (still 0) [1] []).2
        (((new oneEach 0).checkAndConsume (still 0) [1] []).2.checkAndConsume (still 0) [1] []).2
        (still 0) := by
  refine ⟨by decide +kernel, fun h => ?_⟩
  have hlevel : (((new oneEach 0).checkAndConsume (still 0) [1] []).2.checkAndConsume (still 0) [1]
      []).2.globalBucket.level 0 = 998 := by decide +kernel
  have hbefore : ((new oneEach 0).checkAndConsume (still 0) [1] []).2.globalBucket.level 0 = 999 := by
    decide +kernel
  have hglobal := h.global
  rw [show (still 0).global = 0 from rfl, hlevel, hbefore] at hglobal
  norm_num at hglobal

end RateLimiter

end Strfry
