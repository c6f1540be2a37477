import Strfry.RateTracking

/-!
# Rate limits over windows of time

The tokens of a bucket are a potential: a request that is charged to it lowers them by one, and they
rise by at most the rate. So a bucket allows at most its capacity and the refill of a window
(`Potential.count_le`). There are three such potentials, the global bucket and the bucket of a key in
each of the two caches; a key without a bucket counts as full.
-/

set_option autoImplicit false

namespace Strfry

open Lib

namespace RateLimiter

/-! ## Windows -/

/-- The request was made within the `T` seconds from `a` on. -/
def within (a T : ℚ) (q : Request) : Bool :=
  decide (a ≤ q.readings.global) && decide (q.readings.pubkey ≤ a + T)

/-- Number of requests of a log that were allowed in a window and satisfy `p`. -/
def allowedWithin (a T : ℚ) (p : Request → Bool) (log : List Request) : Nat :=
  log.countP fun q => within a T q && (q.allowed && p q)

/-- Tokens that a request with `p` needs: it lowers them by one, and they rise by at most the rate. -/
structure Potential (cfg : RateConfig) (p : Request → Bool) (perMinute : Nat)
    (Φ : RateLimiter → ℚ → ℚ) : Prop where
  nonneg : ∀ {t s}, Inv cfg t s → 0 ≤ Φ s t
  le_capacity : ∀ {t s}, Inv cfg t s → Φ s t ≤ cfg.capacity perMinute
  wait : ∀ {t t' s}, Inv cfg t s → t ≤ t' → Φ s t' ≤ Φ s t + (t' - t) * perSecond perMinute
  check : ∀ {t s} (r : Readings) (ipAddress pubkey : Bytes), Inv cfg t s → t ≤ r.global →
    (if (s.checkAndConsume r ipAddress pubkey).1.allowed = true ∧ p ⟨r, ipAddress, pubkey,
        (s.checkAndConsume r ipAddress pubkey).1.allowed⟩ = true then (1 : ℚ) else 0) ≤
      Φ s t - Φ (s.checkAndConsume r ipAddress pubkey).2 r.pubkey +
        (r.pubkey - t) * perSecond perMinute
  cleanup : ∀ {t s} (r : CleanupReadings), Inv cfg t s → t ≤ r.ipNow →
    Φ (s.cleanup r) r.finish ≤ Φ s t + (r.finish - t) * perSecond perMinute

section Windows

variable {cfg : RateConfig} {t₀ t : ℚ} {s : RateLimiter} {log : List Request}

theorem Readings.global_le_pubkey (r : Readings) : r.global ≤ r.pubkey :=
  r.global_le.trans (r.ipNew_le.trans (r.ip_le.trans r.pubkeyNew_le))

/-- The requests of a window, counted along a run: none before the window, at most what the capacity
and the refill since its start give, and at most the bound. -/
structure Counted (cfg : RateConfig) (perMinute : Nat) (Φ : RateLimiter → ℚ → ℚ) (a T t : ℚ)
    (s : RateLimiter) (n : Nat) : Prop where
  before : t < a → n = 0
  within : a ≤ t → (n : ℚ) ≤ cfg.capacity perMinute - Φ s t + (t - a) * perSecond perMinute
  bound : (n : ℚ) ≤ cfg.capacity perMinute + T * perSecond perMinute

section Counted

variable {perMinute n m : Nat} {Φ : RateLimiter → ℚ → ℚ} {a T t' : ℚ} {s' : RateLimiter}

/-- A step that is not counted. -/
theorem Counted.skip (h : Counted cfg perMinute Φ a T t s n) (hle : t ≤ t')
    (hcap : Φ s' t' ≤ cfg.capacity perMinute)
    (hstep : Φ s' t' ≤ Φ s t + (t' - t) * perSecond perMinute) :
    Counted cfg perMinute Φ a T t' s' n := by
  refine ⟨fun hlt => h.before (hle.trans_lt hlt), fun hge => ?_, h.bound⟩
  rcases lt_or_ge t a with hlt | hge'
  · rw [h.before hlt, Nat.cast_zero]
    have := mul_nonneg (sub_nonneg.2 hge) (perSecond_nonneg perMinute)
    linarith
  · have := h.within hge'
    linarith

/-- A step inside the window. What was allowed before counts from the start of the window on. -/
theorem Counted.count (h : Counted cfg perMinute Φ a T t s n) (hge : a ≤ t') (hend : t' ≤ a + T)
    (hcap : Φ s (max t a) ≤ cfg.capacity perMinute) (hnonneg : 0 ≤ Φ s' t')
    (hstep : (m : ℚ) ≤ Φ s (max t a) - Φ s' t' + (t' - max t a) * perSecond perMinute) :
    Counted cfg perMinute Φ a T t' s' (n + m) := by
  have hstart : (n : ℚ) ≤ cfg.capacity perMinute - Φ s (max t a) +
      (max t a - a) * perSecond perMinute := by
    rcases lt_or_ge t a with hlt | hge'
    · rw [h.before hlt, max_eq_right hlt.le, Nat.cast_zero, sub_self, zero_mul, add_zero]
      rw [max_eq_right hlt.le] at hcap
      linarith
    · rw [max_eq_left hge']
      exact h.within hge'
  have hwithin : (n + m : ℚ) ≤ cfg.capacity perMinute - Φ s' t' + (t' - a) * perSecond perMinute := by
    linarith
  refine ⟨fun hlt => absurd hge (not_le.2 hlt), fun _ => ?_, ?_⟩
  · rw [Nat.cast_add]
    exact hwithin
  · have := mul_le_mul_of_nonneg_right (show t' - a ≤ T by linarith) (perSecond_nonneg perMinute)
    rw [Nat.cast_add]
    linarith

end Counted

theorem Potential.counted {p : Request → Bool} {perMinute : Nat} {Φ : RateLimiter → ℚ → ℚ}
    (hΦ : Potential cfg p perMinute Φ) (hcfg : Limits cfg) (hburst : 0 ≤ cfg.burstMultiplier)
    (h : Run t₀ (new cfg t₀) log t s) {a T : ℚ} (hT : 0 ≤ T) :
    Counted cfg perMinute Φ a T t s (allowedWithin a T p log) := by
  induction h with
  | refl =>
    have hinv := inv_new cfg hburst t₀
    have hcap := hΦ.le_capacity hinv
    have hnonneg := hΦ.nonneg hinv
    refine ⟨fun _ => rfl, fun hat => ?_, ?_⟩ <;>
      simp only [allowedWithin, List.countP_nil, Nat.cast_zero]
    · have := mul_nonneg (sub_nonneg.2 hat) (perSecond_nonneg perMinute)
      linarith
    · have := mul_nonneg hT (perSecond_nonneg perMinute)
      linarith
  | @check log t s hrun r ipAddress pubkey hle ih =>
    have hinv := hrun.inv hcfg hburst
    have hinv' := hinv.check hcfg hburst r ipAddress pubkey hle
    have hend := hle.trans (Readings.global_le_pubkey r)
    set q : Request := ⟨r, ipAddress, pubkey, (s.checkAndConsume r ipAddress pubkey).1.allowed⟩
      with hq
    -- the request counts if it is in the window, allowed and one of those that are counted
    have happ : allowedWithin a T p (log ++ [q]) = allowedWithin a T p log +
        if (within a T q && (q.allowed && p q)) = true then 1 else 0 := by
      rw [allowedWithin, List.countP_append, List.countP_singleton]
      rfl
    rw [happ]
    by_cases hin : a ≤ r.global ∧ r.pubkey ≤ a + T
    -- in the window: the potential is read at its start, or at the last step when that was later
    · have hstep := hΦ.check r ipAddress pubkey (hinv.mono (le_max_left t a)) (max_le hle hin.1)
      have hmax : max t a ≤ r.pubkey := (max_le hle hin.1).trans (Readings.global_le_pubkey r)
      refine ih.count ((le_max_right t a).trans hmax) hin.2
        (hΦ.le_capacity (hinv.mono (le_max_left t a))) (hΦ.nonneg hinv') ?_
      refine le_trans (le_of_eq ?_) hstep
      simp [within, hq, hin.1, hin.2]
    · have hzero : (within a T q && (q.allowed && p q)) = false := by
        rw [Bool.and_eq_false_imp]
        intro hw
        rw [within, Bool.and_eq_true, decide_eq_true_eq, decide_eq_true_eq] at hw
        exact absurd hw hin
      rw [hzero, if_neg nofun, Nat.add_zero]
      have hstep := hΦ.check r ipAddress pubkey hinv hle
      refine ih.skip hend (hΦ.le_capacity hinv') ?_
      have hinc : (0 : ℚ) ≤ if q.allowed = true ∧ p q = true then (1 : ℚ) else 0 := by
        split_ifs <;> norm_num
      linarith
  | @cleanup log t s hrun r hle ih =>
    have hinv := hrun.inv hcfg hburst
    have hend : t ≤ r.finish := hle.trans ((r.ipNow_le 0).trans ((r.ipClock_le 0).trans
      ((r.pubkeyNow_le 0).trans (r.pubkeyClock_le 0))))
    exact ih.skip hend (hΦ.le_capacity (hinv.cleanup hburst r hle)) (hΦ.cleanup r hinv hle)

/-- At most the capacity and the refill of the window. -/
theorem Potential.count_le {p : Request → Bool} {perMinute : Nat} {Φ : RateLimiter → ℚ → ℚ}
    (hΦ : Potential cfg p perMinute Φ) (hcfg : Limits cfg) (hburst : 0 ≤ cfg.burstMultiplier)
    (h : Run t₀ (new cfg t₀) log t s) {a T : ℚ} (hT : 0 ≤ T) :
    (allowedWithin a T p log : ℚ) ≤ perMinute * (cfg.burstMultiplier + T / 60) := by
  have := (hΦ.counted hcfg hburst h hT (a := a)).bound
  rw [RateConfig.capacity, perSecond] at this
  linarith

/-! ## The three potentials -/

theorem potential_global (hcfg : Limits cfg) (hburst : 0 ≤ cfg.burstMultiplier) :
    Potential cfg (fun _ => true) cfg.globalPerMinute fun s t => s.globalBucket.level t where
  nonneg h := h.global.level_nonneg hburst
  le_capacity {t s} h := by
    rw [← h.global.capacity]
    exact s.globalBucket.level_le_capacity t
  wait {t t' s} h hle := by
    rw [← h.global.refillRate]
    exact s.globalBucket.level_le_add hle
  check {t s} r ipAddress pubkey h hle := by
    obtain ⟨hglobal, hout⟩ := checkAndConsume_outcome hcfg h.config r ipAddress pubkey
    have hbefore := s.globalBucket.level_le_add hle
    have hafter := (s.globalBucket.consume r.global).2.level_le_add (Readings.global_le_pubkey r)
    rw [TokenBucket.consume_refillRate, h.global.refillRate] at hafter
    rw [h.global.refillRate] at hbefore
    rw [hglobal]
    cases hout with
    | refused hlt hfalse =>
      rw [TokenBucket.level_consume_of_lt hlt] at hafter
      rw [if_neg (by rw [hfalse]; exact fun hand => nomatch hand.1)]
      linarith
    | passed hlevel =>
      rw [TokenBucket.level_consume_of_le hlevel] at hafter
      split_ifs <;> linarith
  cleanup {t s} r h hle := by
    rw [← h.global.refillRate]
    apply s.globalBucket.level_le_add
    exact hle.trans ((r.ipNow_le 0).trans ((r.ipClock_le 0).trans
      ((r.pubkeyNow_le 0).trans (r.pubkeyClock_le 0))))

/-- What a request does to the tokens of a key of one cache. -/
theorem Tracked.cacheLevel_step {perMinute maxBuckets : Nat} {limitType : String} {newAt at_ t' : ℚ}
    {key k : Bytes} {allowed : Bool} {g : TokenBucket} {c c' : LRUBucketCache}
    (hburst : 0 ≤ cfg.burstMultiplier) (h : Tracked cfg perMinute g 1 t c)
    (hg : g.Ok cfg cfg.globalPerMinute t) (hglobal : 0 < cfg.globalPerMinute)
    (hmax : 2 * cfg.burstMultiplier * cfg.globalPerMinute ≤ maxBuckets) (hnew : t ≤ newAt)
    (hat : newAt ≤ at_) (hle : at_ ≤ t') (hk : k ≠ [])
    (hstep : CacheStep cfg perMinute limitType maxBuckets newAt at_ key allowed c c') :
    (if allowed = true ∧ key = k then (1 : ℚ) else 0) ≤ cacheLevel cfg perMinute c k t -
      cacheLevel cfg perMinute c' k t' + (t' - t) * perSecond perMinute := by
  rcases hstep with ⟨rfl, hempty⟩ | ⟨rfl, hpass⟩
  · rw [if_neg fun hand : allowed = true ∧ key = k => hk (hand.2 ▸ hempty hand.1)]
    have := h.cacheLevel_wait k (hnew.trans (hat.trans hle))
    linarith
  · have hcheck := h.cacheLevel_checkBucket limitType key hburst hg hglobal hmax hnew hat k
    have htracked : Tracked cfg perMinute g 0 at_ (RateLimiter.checkBucket cfg perMinute limitType
        maxBuckets newAt at_ key c).2 := h.checkBucket limitType key hburst hnew hat
    have hwait := htracked.cacheLevel_wait k hle
    have hinc : (if allowed = true ∧ key = k then (1 : ℚ) else 0) ≤
        if k = key ∧ 1 ≤ (bucketFor cfg perMinute newAt c key).level at_ then (1 : ℚ) else 0 := by
      by_cases hand : allowed = true ∧ key = k
      · rw [if_pos hand, if_pos ⟨hand.2.symm, hpass hand.1⟩]
      · rw [if_neg hand]
        split_ifs <;> norm_num
    linarith

theorem potential_ip (hcfg : Limits cfg) (hburst : 0 ≤ cfg.burstMultiplier) {k : Bytes} (hk : k ≠ []) :
    Potential cfg (fun q => decide (q.ipAddress = k)) cfg.perIpPerMinute
      fun s t => cacheLevel cfg cfg.perIpPerMinute s.ipCache k t where
  nonneg h := h.ip.cacheLevel_nonneg hburst k
  le_capacity {t _} h := h.ip.cacheLevel_le k t
  wait h hle := h.ip.cacheLevel_wait k hle
  check {t s} r ipAddress pubkey h hle := by
    have hwait := h.ip.cacheLevel_wait k hle
    cases (checkAndConsume_outcome hcfg h.config r ipAddress pubkey).2 with
    | refused _ hfalse hip =>
      rw [hip, if_neg (by rw [hfalse]; exact fun hand => nomatch hand.1)]
      have := h.ip.cacheLevel_wait k (hle.trans (Readings.global_le_pubkey r))
      linarith
    | passed hlevel hip =>
      have := (h.ip.consume hle hlevel).cacheLevel_step hburst (h.global.consume hburst hle)
        hcfg.global hcfg.ipBuckets r.global_le r.ipNew_le (r.ip_le.trans r.pubkeyNew_le) hk hip
      simp only [decide_eq_true_eq]
      linarith
  cleanup {t s} r h hle := by
    have hend := (r.pubkeyNow_le 0).trans (r.pubkeyClock_le 0)
    rw [cleanup, h.ip.cacheLevel_eraseStale (Nat.cast_nonneg _) r.ipNow_le
      ((r.ipClock_le 0).trans hend)]
    exact h.ip.cacheLevel_wait k (hle.trans ((r.ipNow_le 0).trans ((r.ipClock_le 0).trans hend)))

theorem potential_pubkey (hcfg : Limits cfg) (hburst : 0 ≤ cfg.burstMultiplier) {k : Bytes}
    (hk : k ≠ []) :
    Potential cfg (fun q => decide (q.pubkey = k)) cfg.perPubkeyPerMinute
      fun s t => cacheLevel cfg cfg.perPubkeyPerMinute s.pubkeyCache k t where
  nonneg h := h.pubkey.cacheLevel_nonneg hburst k
  le_capacity {t _} h := h.pubkey.cacheLevel_le k t
  wait h hle := h.pubkey.cacheLevel_wait k hle
  check {t s} r ipAddress pubkey h hle := by
    have hwait := h.pubkey.cacheLevel_wait k hle
    cases (checkAndConsume_outcome hcfg h.config r ipAddress pubkey).2 with
    | refused _ hfalse _ hpubkey =>
      rw [hpubkey, if_neg (by rw [hfalse]; exact fun hand => nomatch hand.1)]
      have := h.pubkey.cacheLevel_wait k (hle.trans (Readings.global_le_pubkey r))
      linarith
    | passed hlevel _ hpubkey =>
      have := (h.pubkey.consume hle hlevel).cacheLevel_step hburst (h.global.consume hburst hle)
        hcfg.global hcfg.pubkeyBuckets (r.global_le.trans (r.ipNew_le.trans r.ip_le)) r.pubkeyNew_le
        le_rfl hk hpubkey
      simp only [decide_eq_true_eq]
      linarith
  cleanup {t s} r h hle := by
    have hnow := (r.ipNow_le 0).trans (r.ipClock_le 0)
    rw [cleanup, h.pubkey.cacheLevel_eraseStale (Nat.cast_nonneg _) r.pubkeyNow_le
      (r.pubkeyClock_le 0)]
    exact h.pubkey.cacheLevel_wait k (hle.trans (hnow.trans ((r.pubkeyNow_le 0).trans
      (r.pubkeyClock_le 0))))

/-! ## The result -/

/-- A bucket that is in `c` and no longer in `c'` is full at time `t`. -/
def DiscardsOnlyFull (t : ℚ) (c c' : LRUBucketCache) : Prop :=
  ∀ k b, c.buckets.lookup k = some b → c'.buckets.lookup k = none → b.level t = b.capacity

theorem Tracked.discardsOnlyFull {perMinute maxBuckets : Nat} {limitType : String} {newAt at_ : ℚ}
    {key : Bytes} {allowed : Bool} {g : TokenBucket} {c c' : LRUBucketCache}
    (hburst : 0 ≤ cfg.burstMultiplier) (h : Tracked cfg perMinute g 1 t c)
    (hg : g.Ok cfg cfg.globalPerMinute t) (hglobal : 0 < cfg.globalPerMinute)
    (hmax : 2 * cfg.burstMultiplier * cfg.globalPerMinute ≤ maxBuckets)
    (hstep : CacheStep cfg perMinute limitType maxBuckets newAt at_ key allowed c c') :
    DiscardsOnlyFull t c c' := by
  intro k b hb hnone
  rcases hstep with ⟨rfl, -⟩ | ⟨rfl, -⟩
  · rw [hb] at hnone
    cases hnone
  · have hk : k ≠ key := by
      rintro rfl
      rw [lookup_checkBucket_self] at hnone
      cases hnone
    rcases lookup_checkBucket_ne limitType key cfg perMinute maxBuckets newAt at_ c hk with
      heq | ⟨hsize, hlast, -⟩
    · rw [← heq, hnone] at hb
      cases hb
    · exact h.full_of_last hburst hg hglobal hmax hsize hlast hb

/-- A cleanup discards nothing. -/
theorem discardsOnlyFull_eraseStale {c : LRUBucketCache} (hinv : c.Inv) {staleSeconds now : ℚ}
    {clock : Nat → ℚ} (hstale : 0 ≤ staleSeconds) (hclock : ∀ i, now ≤ clock i) (t : ℚ) :
    DiscardsOnlyFull t c (c.eraseStale staleSeconds now clock).1 := by
  intro k b hb hnone
  rcases lookup_eraseStale hinv hstale hclock k with heq | ⟨b', -, heq⟩
  · rw [← heq, hnone] at hb
    cases hb
  · rw [hnone] at heq
    cases heq

/-- Where the capacity is negative nothing is ever allowed, and no cache is used. -/
structure Shut (cfg : RateConfig) (s : RateLimiter) (log : List Request) : Prop where
  config : s.config = cfg
  capacity : s.globalBucket.capacity = cfg.capacity cfg.globalPerMinute
  refused : ∀ q ∈ log, q.allowed = false
  ip : s.ipCache.buckets = ∅
  pubkey : s.pubkeyCache.buckets = ∅

theorem level_lt_of_burst_neg (hcfg : Limits cfg) (hburst : cfg.burstMultiplier < 0)
    {g : TokenBucket} (hg : g.capacity = cfg.capacity cfg.globalPerMinute) (t : ℚ) : g.level t < 1 := by
  have hle := g.level_le_capacity t
  have hpos : (0 : ℚ) < cfg.globalPerMinute := by exact_mod_cast hcfg.global
  have := mul_neg_of_pos_of_neg hpos hburst
  rw [hg, RateConfig.capacity] at hle
  linarith

theorem buckets_eraseStale {c : LRUBucketCache} (hinv : c.Inv) (hc : c.buckets = ∅)
    {staleSeconds now : ℚ} {clock : Nat → ℚ} (hstale : 0 ≤ staleSeconds)
    (hclock : ∀ i, now ≤ clock i) : (c.eraseStale staleSeconds now clock).1.buckets = ∅ := by
  rcases LRUBucketCache.eraseStale_eq hinv hstale hclock with ⟨-, heq⟩ | ⟨k, b, -, hb, -⟩
  · rw [heq]
    exact hc
  · rw [hc] at hb
    cases hb

theorem Run.shut (hcfg : Limits cfg) (hburst : cfg.burstMultiplier < 0)
    (h : Run t₀ (new cfg t₀) log t s) : Shut cfg s log := by
  induction h with
  | refl => exact ⟨rfl, rfl, nofun, rfl, rfl⟩
  | @check log t s hrun r ipAddress pubkey hle ih =>
    obtain ⟨hglobal, hout⟩ := checkAndConsume_outcome hcfg ih.config r ipAddress pubkey
    have hlt := level_lt_of_burst_neg hcfg hburst ih.capacity r.global
    cases hout with
    | refused _ hfalse hip hpubkey =>
      refine ⟨(s.checkAndConsume_cases r ipAddress pubkey).1.trans ih.config, ?_, fun q hq => ?_,
        by rw [hip, ih.ip], by rw [hpubkey, ih.pubkey]⟩
      · rw [hglobal, TokenBucket.consume_capacity, ih.capacity]
      · rcases List.mem_append.1 hq with hq | hq
        · exact ih.refused q hq
        · rw [List.mem_singleton.1 hq]
          exact hfalse
    | passed hlevel => exact absurd hlevel (not_le.2 hlt)
  | @cleanup log t s hrun r hle ih =>
    have hok : s.CachesOk cfg :=
      hrun.cachesOk ⟨rfl, LRUBucketCache.inv_empty, LRUBucketCache.inv_empty⟩
    exact ⟨ih.config, ih.capacity, ih.refused,
      buckets_eraseStale hok.ip ih.ip (Nat.cast_nonneg _) r.ipNow_le,
      buckets_eraseStale hok.pubkey ih.pubkey (Nat.cast_nonneg _) r.pubkeyNow_le⟩

/-- A bound that holds where the capacity is not negative holds without this condition, if nothing is
to be allowed where it is negative. -/
theorem allowedWithin_le {p : Request → Bool} {bound a T : ℚ} (hcfg : Limits cfg)
    (h : Run t₀ (new cfg t₀) log t s)
    (hle : 0 ≤ cfg.burstMultiplier → (allowedWithin a T p log : ℚ) ≤ bound) :
    (allowedWithin a T p log : ℚ) ≤ max 0 bound := by
  rcases lt_or_ge cfg.burstMultiplier 0 with hneg | hpos
  · have hzero : allowedWithin a T p log = 0 := by
      rw [allowedWithin, List.countP_eq_zero]
      intro q hq
      simp [(h.shut hcfg hneg).refused q hq]
    rw [hzero, Nat.cast_zero]
    exact le_max_left _ _
  · exact (hle hpos).trans (le_max_right _ _)

/-- The limits hold over every window: of `T` seconds at most the capacity and what `T` seconds refill,
for all requests together, for each IP address and for each pubkey. A bucket is discarded only when it
is full. -/
theorem rate_limits_hold (hcfg : Limits cfg) (h : Run t₀ (new cfg t₀) log t s) :
    (∀ a T : ℚ, 0 ≤ T →
      (allowedWithin a T (fun _ => true) log : ℚ) ≤
          max 0 (cfg.globalPerMinute * (cfg.burstMultiplier + T / 60)) ∧
        (∀ ip, ip ≠ [] → (allowedWithin a T (fun q => decide (q.ipAddress = ip)) log : ℚ) ≤
          max 0 (cfg.perIpPerMinute * (cfg.burstMultiplier + T / 60))) ∧
        ∀ pubkey, pubkey ≠ [] → (allowedWithin a T (fun q => decide (q.pubkey = pubkey)) log : ℚ) ≤
          max 0 (cfg.perPubkeyPerMinute * (cfg.burstMultiplier + T / 60))) ∧
    (∀ (r : Readings) ipAddress pubkey, t ≤ r.global →
      DiscardsOnlyFull r.global s.ipCache (s.checkAndConsume r ipAddress pubkey).2.ipCache ∧
        DiscardsOnlyFull r.global s.pubkeyCache (s.checkAndConsume r ipAddress pubkey).2.pubkeyCache) ∧
    ∀ r : CleanupReadings, t ≤ r.ipNow →
      DiscardsOnlyFull r.ipNow s.ipCache (s.cleanup r).ipCache ∧
        DiscardsOnlyFull r.pubkeyNow s.pubkeyCache (s.cleanup r).pubkeyCache := by
  have hok : s.CachesOk cfg :=
    h.cachesOk ⟨rfl, LRUBucketCache.inv_empty, LRUBucketCache.inv_empty⟩
  refine ⟨fun a T hT => ⟨?_, fun ip hip => ?_, fun pubkey hpubkey => ?_⟩,
    fun r ipAddress pubkey hle => ?_, fun r _ => ⟨fun k b hb hnone => ?_, fun k b hb hnone => ?_⟩⟩
  · exact allowedWithin_le hcfg h fun hburst => (potential_global hcfg hburst).count_le hcfg hburst h hT
  · exact allowedWithin_le hcfg h fun hburst => (potential_ip hcfg hburst hip).count_le hcfg hburst h hT
  · exact allowedWithin_le hcfg h fun hburst =>
      (potential_pubkey hcfg hburst hpubkey).count_le hcfg hburst h hT
  -- with a negative burst nothing is ever allowed, and the caches stay empty
  · rcases lt_or_ge cfg.burstMultiplier 0 with hneg | hburst
    · have hshut := h.shut hcfg hneg
      constructor <;> intro k b hb
      · rw [hshut.ip] at hb
        cases hb
      · rw [hshut.pubkey] at hb
        cases hb
    · have hinv := h.inv hcfg hburst
      have hg := hinv.global.consume hburst hle
      cases (checkAndConsume_outcome hcfg hinv.config r ipAddress pubkey).2 with
      | refused _ _ hip hpubkey =>
        rw [hip, hpubkey]
        constructor <;> intro k b hb hnone <;> rw [hb] at hnone <;> cases hnone
      | passed hlevel hip hpubkey =>
        exact ⟨(hinv.ip.consume hle hlevel).discardsOnlyFull hburst hg hcfg.global hcfg.ipBuckets hip,
          (hinv.pubkey.consume hle hlevel).discardsOnlyFull hburst hg hcfg.global hcfg.pubkeyBuckets
            hpubkey⟩
  · exact discardsOnlyFull_eraseStale hok.ip (Nat.cast_nonneg _) r.ipNow_le r.ipNow k b hb hnone
  · exact discardsOnlyFull_eraseStale hok.pubkey (Nat.cast_nonneg _) r.pubkeyNow_le r.pubkeyNow k b hb
      hnone

end Windows

theorem limits_oneEach : Limits oneEach := by
  refine ⟨rfl, ?_, ?_, ?_, ?_, ?_⟩ <;> norm_num [oneEach]

/-- Two requests of an IP address at once, of which the second is refused, and one a minute later. -/
theorem rate_limits_hold_ofThree :
    Limits oneEach ∧ ∃ log s, Run 0 (new oneEach 0) log 60 s ∧
      log.map Request.allowed = [true, false, true] ∧
      (allowedWithin 0 60 (fun _ => true) log : ℚ) ≤ max 0 (oneEach.globalPerMinute *
        (oneEach.burstMultiplier + 60 / 60)) ∧
      (allowedWithin 0 60 (fun q => decide (q.ipAddress = [1])) log : ℚ) ≤
        max 0 (oneEach.perIpPerMinute * (oneEach.burstMultiplier + 60 / 60)) := by
  have hrun : Run 0 (new oneEach 0) _ 60 _ := .check (.check (.check .refl (still 0) [1] [] le_rfl)
    (still 0) [1] [] le_rfl) (still 60) [1] [] (by norm_num [still])
  have hall := (rate_limits_hold limits_oneEach hrun).1 0 60 (by norm_num)
  exact ⟨limits_oneEach, _, _, hrun, by decide +kernel, hall.1, hall.2.1 [1] (by decide)⟩

/-- With a negative burst multiplier the bound is negative for a short window, in which no request is
allowed. An IP address that is empty is not limited. -/
theorem rate_bounds_fail :
    (∃ cfg : RateConfig, Limits cfg ∧ cfg.burstMultiplier = -1 ∧ Run 0 (new cfg 0) [] 0 (new cfg 0) ∧
      ¬ (allowedWithin 0 0 (fun _ => true) [] : ℚ) ≤
        cfg.globalPerMinute * (cfg.burstMultiplier + 0 / 60)) ∧
    Limits oneEach ∧ ∃ log s, Run 0 (new oneEach 0) log 0 s ∧
      ¬ (allowedWithin 0 0 (fun q => decide (q.ipAddress = [])) log : ℚ) ≤
        oneEach.perIpPerMinute * (oneEach.burstMultiplier + 0 / 60) := by
  refine ⟨⟨{ burstMultiplier := -1 }, ?_, rfl, .refl, ?_⟩, ?_, ?_⟩
  · refine ⟨rfl, ?_, ?_, ?_, ?_, ?_⟩ <;> norm_num
  · norm_num [allowedWithin]
  · exact limits_oneEach
  · refine ⟨_, _, .check (.check .refl (still 0) [] [] le_rfl) (still 0) [] [] le_rfl, ?_⟩
    have htwo : allowedWithin 0 0 (fun q => decide (q.ipAddress = [])) ([] ++ [⟨still 0, [], [],
        ((new oneEach 0).checkAndConsume (still 0) [] []).1.allowed⟩] ++ [⟨still 0, [], [],
        (((new oneEach 0).checkAndConsume (still 0) [] []).2.checkAndConsume (still 0) []
          []).1.allowed⟩]) = 2 := by decide +kernel
    rw [htwo]
    norm_num [oneEach]

end RateLimiter

end Strfry
