import Strfry.Lib.Bytes
import Strfry.Lib.Map
import Strfry.Lib.Recency
import Strfry.Lib.Level

/-!
# The rate limiter

A request is checked against a global bucket, the bucket of its IP address and the bucket of its
pubkey, in this order. Each check refills the bucket and takes a token out of it. The buckets of
addresses and pubkeys are kept in caches of bounded size, in the order of their last use.

Token counts and times are exact rationals. `steady_clock` is read anew at every refill and for every
new bucket; `Readings` are the readings of one call. The mutex makes calls atomic. The empty string is
the address or pubkey of a request that has none.
-/

set_option autoImplicit false

namespace Strfry

open Lib

/-! ## Buckets -/

/-- `TokenBucket`. The rate is a count divided by a number of seconds. -/
structure TokenBucket where
  tokens : ℚ
  capacity : ℚ
  refillRate : ℚ
  lastRefill : ℚ
  requestCount : Nat := 0
  refillRate_nonneg : 0 ≤ refillRate

namespace TokenBucket

/-- The constructor, at the time `now`. -/
def make (cap rate now : ℚ) (hrate : 0 ≤ rate) : TokenBucket where
  tokens := cap
  capacity := cap
  refillRate := rate
  lastRefill := now
  refillRate_nonneg := hrate

/-- `refill`. -/
def refill (b : TokenBucket) (now : ℚ) : TokenBucket :=
  let elapsed := now - b.lastRefill
  { b with
    tokens := min b.capacity (b.tokens + elapsed * b.refillRate)
    lastRefill := now }

/-- `consume`, with the amount of one token that every caller asks for. -/
def consume (b : TokenBucket) (now : ℚ) : Bool × TokenBucket :=
  let b := b.refill now
  if 1 ≤ b.tokens then
    (true, { b with tokens := b.tokens - 1, requestCount := b.requestCount + 1 })
  else (false, b)

/-- The tokens that a refill at time `t` gives. -/
def level (b : TokenBucket) (t : ℚ) : ℚ := (b.refill t).tokens

end TokenBucket

/-! ## Caches -/

/-- `LRUBucketCache`: the keys in the order of last use, the last used first, and the buckets. The
iterator that is stored with a bucket is the place of its key in the list. -/
structure LRUBucketCache where
  lruOrder : List Bytes := []
  buckets : Map Bytes TokenBucket := ∅

namespace LRUBucketCache

/-- `touch`. -/
def touch (c : LRUBucketCache) (key : Bytes) : LRUBucketCache :=
  { c with lruOrder := moveToFront key c.lruOrder }

/-- `get`: the bucket, and the cache in which it has been used. -/
def get (c : LRUBucketCache) (key : Bytes) : Option TokenBucket × LRUBucketCache :=
  match c.buckets.lookup key with
  | none => (none, c)
  | some b => (some b, c.touch key)

/-- `insert`. -/
def insert (c : LRUBucketCache) (key : Bytes) (bucket : TokenBucket) : LRUBucketCache where
  lruOrder := key :: c.lruOrder
  buckets := c.buckets.tryEmplace key bucket

/-- `evictOldest`. -/
def evictOldest (c : LRUBucketCache) : LRUBucketCache :=
  match c.lruOrder.getLast? with
  | none => c
  | some oldestKey => ⟨c.lruOrder.dropLast, c.buckets.erase oldestKey⟩

/-- `size`. -/
def size (c : LRUBucketCache) : Nat := c.buckets.size

/-- Write to the bucket of a key through the pointer that `get` and `insert` return. -/
def store (c : LRUBucketCache) (key : Bytes) (bucket : TokenBucket) : LRUBucketCache :=
  { c with buckets := c.buckets.insert key bucket }

/-- The loop of `eraseStale` over the keys from the back. `clock i` is what the clock shows at the
`i`th refill. -/
def eraseStaleLoop (staleSeconds now : ℚ) (clock : Nat → ℚ) :
    Nat → List Bytes → Map Bytes TokenBucket → Nat → List Bytes × Map Bytes TokenBucket × Nat
  | _, [], buckets, removedCount => ([], buckets, removedCount)
  | i, key :: keys, buckets, removedCount =>
    match buckets.lookup key with
    | none => eraseStaleLoop staleSeconds now clock i keys buckets removedCount
    | some bucket =>
      let bucket := bucket.refill (clock i)
      let timeSinceRefill := now - bucket.lastRefill
      if bucket.capacity * (95 / 100) ≤ bucket.tokens ∧ staleSeconds < timeSinceRefill then
        eraseStaleLoop staleSeconds now clock (i + 1) keys (buckets.erase key) (removedCount + 1)
      else (key :: keys, buckets.insert key bucket, removedCount)

/-- `eraseStale`: the cache, and the number of buckets removed. -/
def eraseStale (staleSeconds now : ℚ) (clock : Nat → ℚ) (c : LRUBucketCache) :
    LRUBucketCache × Nat :=
  let r := eraseStaleLoop staleSeconds now clock 0 c.lruOrder.reverse c.buckets 0
  (⟨r.1.reverse, r.2.1⟩, r.2.2)

end LRUBucketCache

/-! ## The limiter -/

/-- `RateLimiter::Config`, without what only the cleanup thread waits for. -/
structure RateConfig where
  enabled : Bool := true
  perIpPerMinute : Nat := 60
  perPubkeyPerMinute : Nat := 100
  globalPerMinute : Nat := 1000
  burstMultiplier : ℚ := 2
  maxIpBuckets : Nat := 10000
  maxPubkeyBuckets : Nat := 10000
  staleBucketSeconds : Nat := 60

/-- The capacity of a bucket with this limit. -/
def RateConfig.capacity (cfg : RateConfig) (perMinute : Nat) : ℚ := perMinute * cfg.burstMultiplier

/-- The tokens that such a bucket gets each second. -/
def perSecond (perMinute : Nat) : ℚ := perMinute / 60

theorem perSecond_nonneg (perMinute : Nat) : 0 ≤ perSecond perMinute := by
  unfold perSecond
  positivity

/-- A new bucket with this limit. -/
def RateConfig.newBucket (cfg : RateConfig) (perMinute : Nat) (now : ℚ) : TokenBucket :=
  .make (cfg.capacity perMinute) (perSecond perMinute) now (perSecond_nonneg perMinute)

/-- `CheckResult`. -/
structure CheckResult where
  allowed : Bool := true
  reason : String := ""
  deriving DecidableEq

/-- `RateLimiter`. -/
structure RateLimiter where
  config : RateConfig
  ipCache : LRUBucketCache := {}
  pubkeyCache : LRUBucketCache := {}
  globalBucket : TokenBucket
  totalRequests : Nat := 0
  rateLimitedRequests : Nat := 0

/-- The clock readings of a call of `checkAndConsume`: for the global bucket, and for each of the two
caches for a new bucket and for the check. -/
structure Readings where
  global : ℚ
  ipNew : ℚ
  ip : ℚ
  pubkeyNew : ℚ
  pubkey : ℚ
  global_le : global ≤ ipNew
  ipNew_le : ipNew ≤ ip
  ip_le : ip ≤ pubkeyNew
  pubkeyNew_le : pubkeyNew ≤ pubkey

/-- The clock readings of a call of `cleanup`: for each of the two caches at the start of `eraseStale`
and at its refills. -/
structure CleanupReadings where
  ipNow : ℚ
  ipClock : Nat → ℚ
  pubkeyNow : ℚ
  pubkeyClock : Nat → ℚ
  finish : ℚ
  ipNow_le : ∀ i, ipNow ≤ ipClock i
  ipClock_le : ∀ i, ipClock i ≤ pubkeyNow
  pubkeyNow_le : ∀ i, pubkeyNow ≤ pubkeyClock i
  pubkeyClock_le : ∀ i, pubkeyClock i ≤ finish

namespace RateLimiter

/-- The constructor. -/
def new (config : RateConfig) (now : ℚ) : RateLimiter where
  config := config
  globalBucket := config.newBucket config.globalPerMinute now

/-- `checkBucket`: the reason for a refusal, and the cache. The limit determines the capacity and the
rate of a new bucket. -/
def checkBucket (cfg : RateConfig) (perMinute : Nat) (limitType : String) (maxBuckets : Nat)
    (newAt at_ : ℚ) (key : Bytes) (cache : LRUBucketCache) : String × LRUBucketCache :=
  let found := cache.get key
  let r : TokenBucket × LRUBucketCache :=
    match found.1 with
    | some bucket => (bucket, found.2)
    | none =>
      let cache := if maxBuckets ≤ found.2.size then found.2.evictOldest else found.2
      let bucket := cfg.newBucket perMinute newAt
      (bucket, cache.insert key bucket)
  let consumed := r.1.consume at_
  (if consumed.1 then "" else "rate_limit_exceeded: " ++ limitType, r.2.store key consumed.2)

/-- A refusal. -/
def refuse (s : RateLimiter) (reason : String) : CheckResult × RateLimiter :=
  (⟨false, reason⟩, { s with rateLimitedRequests := s.rateLimitedRequests + 1 })

/-- The part of `checkAndConsume` about the pubkey. -/
def checkPubkey (s : RateLimiter) (r : Readings) (pubkey : Bytes) : CheckResult × RateLimiter :=
  if 0 < s.config.perPubkeyPerMinute ∧ pubkey ≠ [] then
    let res := checkBucket s.config s.config.perPubkeyPerMinute "per_pubkey"
      s.config.maxPubkeyBuckets r.pubkeyNew r.pubkey pubkey s.pubkeyCache
    let s := { s with pubkeyCache := res.2 }
    if res.1 ≠ "" then s.refuse res.1 else ({}, s)
  else ({}, s)

/-- The part of `checkAndConsume` from the IP address on. -/
def checkIp (s : RateLimiter) (r : Readings) (ipAddress pubkey : Bytes) :
    CheckResult × RateLimiter :=
  if 0 < s.config.perIpPerMinute ∧ ipAddress ≠ [] then
    let res := checkBucket s.config s.config.perIpPerMinute "per_ip" s.config.maxIpBuckets
      r.ipNew r.ip ipAddress s.ipCache
    let s := { s with ipCache := res.2 }
    if res.1 ≠ "" then s.refuse res.1 else s.checkPubkey r pubkey
  else s.checkPubkey r pubkey

/-- `checkAndConsume`. -/
def checkAndConsume (s : RateLimiter) (r : Readings) (ipAddress pubkey : Bytes) :
    CheckResult × RateLimiter :=
  if s.config.enabled then
    let s := { s with totalRequests := s.totalRequests + 1 }
    if 0 < s.config.globalPerMinute then
      let res := s.globalBucket.consume r.global
      let s := { s with globalBucket := res.2 }
      if res.1 then s.checkIp r ipAddress pubkey else s.refuse "rate_limit_exceeded: global"
    else s.checkIp r ipAddress pubkey
  else ({}, s)

/-- `cleanup`. -/
def cleanup (s : RateLimiter) (r : CleanupReadings) : RateLimiter :=
  let staleSeconds : ℚ := s.config.staleBucketSeconds
  { s with
    ipCache := (s.ipCache.eraseStale staleSeconds r.ipNow r.ipClock).1
    pubkeyCache := (s.pubkeyCache.eraseStale staleSeconds r.pubkeyNow r.pubkeyClock).1 }

end RateLimiter

end Strfry
