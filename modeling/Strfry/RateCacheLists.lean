import Strfry.RateLimiter

/-!
# The list behind a rate cache

A bucket is stored with an iterator, the place of its key in `lruOrder`, and `touch` moves the node at
that place to the front. Here the nodes have addresses, and an iterator is an address; an operation
through an iterator that leads to no node is `none`. `LinkedBucketCache.Linked` says that list and map
hold the same keys and that every iterator leads to the node of its own key. It is what each operation
relies on, and each keeps it (`consistent_of_reach`). Without the addresses this is `LRUBucketCache`
(`Forgets.checkBucket`).

The address of a new node is up to the allocator, so it is an argument of `insert`.
-/

set_option autoImplicit false

namespace Strfry

open Lib

/-- A node of `lruOrder`. -/
structure LruNode where
  addr : Nat
  key : Bytes
  deriving DecidableEq

/-- `LRUBucketCache`, with the nodes of the list and the iterators to them. -/
structure LinkedBucketCache where
  lruOrder : List LruNode := []
  buckets : Map Bytes (TokenBucket × Nat) := ∅

namespace LinkedBucketCache

/-- `touch`: the node is spliced to the front. -/
def touch (c : LinkedBucketCache) (it : Nat) : Option LinkedBucketCache :=
  match c.lruOrder.find? fun node => node.addr = it with
  | none => none
  | some node => some { c with lruOrder := moveToFront node c.lruOrder }

/-- `get`: whether there is a bucket, and the cache in which it has been used. -/
def get (c : LinkedBucketCache) (key : Bytes) : Option (Bool × LinkedBucketCache) :=
  match c.buckets.lookup key with
  | none => some (false, c)
  | some (_, it) => (c.touch it).map fun c => (true, c)

/-- `insert`. -/
def insert (c : LinkedBucketCache) (key : Bytes) (bucket : TokenBucket) (addr : Nat) :
    LinkedBucketCache where
  lruOrder := ⟨addr, key⟩ :: c.lruOrder
  buckets := c.buckets.tryEmplace key (bucket, addr)

/-- `evictOldest`. -/
def evictOldest (c : LinkedBucketCache) : LinkedBucketCache :=
  match c.lruOrder.getLast? with
  | none => c
  | some oldest => ⟨c.lruOrder.dropLast, c.buckets.erase oldest.key⟩

/-- `size`. -/
def size (c : LinkedBucketCache) : Nat := c.buckets.size

/-- The eviction of `checkBucket`. -/
def makeRoom (c : LinkedBucketCache) (maxBuckets : Nat) : LinkedBucketCache :=
  if maxBuckets ≤ c.size then c.evictOldest else c

/-- `consume`, through the pointer that `get` and `insert` return. -/
def consume (c : LinkedBucketCache) (key : Bytes) (at_ : ℚ) : Option (Bool × LinkedBucketCache) :=
  match c.buckets.lookup key with
  | none => none
  | some (bucket, it) =>
    some ((bucket.consume at_).1,
      { c with buckets := c.buckets.insert key ((bucket.consume at_).2, it) })

/-- `checkBucket`, with the address of the node of a new key. -/
def checkBucket (cfg : RateConfig) (perMinute : Nat) (limitType : String) (maxBuckets : Nat)
    (newAt at_ : ℚ) (addr : Nat) (key : Bytes) (c : LinkedBucketCache) :
    Option (String × LinkedBucketCache) := do
  let found ← c.get key
  let c :=
    if found.1 then found.2
    else (found.2.makeRoom maxBuckets).insert key (cfg.newBucket perMinute newAt) addr
  let consumed ← c.consume key at_
  some (if consumed.1 then "" else "rate_limit_exceeded: " ++ limitType, consumed.2)

/-- The loop of `eraseStale` over the nodes from the back. -/
def eraseStaleLoop (staleSeconds now : ℚ) (clock : Nat → ℚ) :
    Nat → List LruNode → Map Bytes (TokenBucket × Nat) → Nat →
      List LruNode × Map Bytes (TokenBucket × Nat) × Nat
  | _, [], buckets, removedCount => ([], buckets, removedCount)
  | i, node :: nodes, buckets, removedCount =>
    match buckets.lookup node.key with
    | none => eraseStaleLoop staleSeconds now clock i nodes buckets removedCount
    | some (bucket, it) =>
      let bucket := bucket.refill (clock i)
      let timeSinceRefill := now - bucket.lastRefill
      if bucket.capacity * (95 / 100) ≤ bucket.tokens ∧ staleSeconds < timeSinceRefill then
        eraseStaleLoop staleSeconds now clock (i + 1) nodes (buckets.erase node.key)
          (removedCount + 1)
      else (node :: nodes, buckets.insert node.key (bucket, it), removedCount)

/-- `eraseStale`: the cache, and the number of buckets removed. -/
def eraseStale (staleSeconds now : ℚ) (clock : Nat → ℚ) (c : LinkedBucketCache) :
    LinkedBucketCache × Nat :=
  let r := eraseStaleLoop staleSeconds now clock 0 c.lruOrder.reverse c.buckets 0
  (⟨r.1.reverse, r.2.1⟩, r.2.2)

/-! ## List and map -/

/-- The keys in the order of the list. -/
def keys (c : LinkedBucketCache) : List Bytes := c.lruOrder.map LruNode.key

/-- The nodes are those of the keys of the map, and the iterators lead to them. -/
structure Linked (c : LinkedBucketCache) : Prop where
  addrs : (c.lruOrder.map LruNode.addr).Nodup
  keys : c.keys.Nodup
  mem_iff : ∀ node, node ∈ c.lruOrder ↔ ∃ b, c.buckets.lookup node.key = some (b, node.addr)

section Linked

variable {c : LinkedBucketCache} {key : Bytes} {b : TokenBucket} {it : Nat}

theorem linked_empty : Linked {} where
  addrs := List.nodup_nil
  keys := List.nodup_nil
  mem_iff node := by simp

theorem Linked.mem_keys_iff (h : c.Linked) {k : Bytes} :
    k ∈ c.keys ↔ (c.buckets.lookup k).isSome = true := by
  rw [LinkedBucketCache.keys, List.mem_map]
  constructor
  · rintro ⟨node, hnode, rfl⟩
    obtain ⟨b, hb⟩ := (h.mem_iff node).mp hnode
    rw [hb]
    rfl
  · intro hk
    obtain ⟨⟨b, it⟩, hb⟩ := Option.isSome_iff_exists.mp hk
    exact ⟨⟨it, k⟩, (h.mem_iff ⟨it, k⟩).mpr ⟨b, hb⟩, rfl⟩

/-- The list is as long as the map. -/
theorem Linked.size_eq (h : c.Linked) : c.size = c.lruOrder.length := by
  have hperm : c.buckets.keys.Perm c.keys := by
    apply (List.perm_ext_iff_of_nodup c.buckets.keys_nodup h.keys).mpr
    intro k
    rw [h.mem_keys_iff, Map.mem_keys_iff, Option.isSome_iff_exists]
  rw [size, Map.size, hperm.length_eq, LinkedBucketCache.keys, List.length_map]

/-- An iterator leads to the node of its key. -/
theorem Linked.find?_eq (h : c.Linked) (hb : c.buckets.lookup key = some (b, it)) :
    c.lruOrder.find? (fun node => node.addr = it) = some ⟨it, key⟩ := by
  have hmem : (⟨it, key⟩ : LruNode) ∈ c.lruOrder := (h.mem_iff ⟨it, key⟩).mpr ⟨b, hb⟩
  cases hfind : c.lruOrder.find? fun node => node.addr = it with
  | none => exact absurd (decide_eq_true rfl) (List.find?_eq_none.mp hfind _ hmem)
  | some node =>
    -- two nodes with one address are the same
    have haddr : node.addr = it := by simpa using List.find?_some hfind
    have heq : node = ⟨it, key⟩ :=
      List.inj_on_of_nodup_map h.addrs (List.mem_of_find?_eq_some hfind) hmem haddr
    rw [heq]

/-- A change of a bucket, with its iterator left as it is. -/
theorem Linked.store (h : c.Linked) (hb : c.buckets.lookup key = some (b, it)) (b' : TokenBucket) :
    Linked { c with buckets := c.buckets.insert key (b', it) } where
  addrs := h.addrs
  keys := h.keys
  mem_iff node := by
    rw [h.mem_iff, Map.lookup_insert]
    by_cases hk : node.key = key
    · rw [if_pos hk, hk, hb]
      -- the old bucket and the new one have the same iterator
      constructor
      · rintro ⟨_, heq⟩
        exact ⟨b', by rw [(Prod.mk.inj (Option.some.inj heq)).2]⟩
      · rintro ⟨_, heq⟩
        exact ⟨b, by rw [(Prod.mk.inj (Option.some.inj heq)).2]⟩
    · rw [if_neg hk]

theorem Linked.consume (h : c.Linked) (hb : c.buckets.lookup key = some (b, it)) (at_ : ℚ) :
    ∃ c', c.consume key at_ = some ((b.consume at_).1, c') ∧ c'.Linked ∧ c'.lruOrder = c.lruOrder ∧
      c'.buckets = c.buckets.insert key ((b.consume at_).2, it) := by
  refine ⟨_, ?_, h.store hb (b.consume at_).2, rfl, rfl⟩
  rw [LinkedBucketCache.consume, hb]

/-- A use through the iterator of a key. -/
theorem Linked.touch (h : c.Linked) (hb : c.buckets.lookup key = some (b, it)) :
    ∃ c', c.touch it = some c' ∧ c'.Linked ∧ c'.keys = moveToFront key c.keys ∧
      c'.buckets = c.buckets := by
  have hmem : (⟨it, key⟩ : LruNode) ∈ c.lruOrder := (h.mem_iff ⟨it, key⟩).mpr ⟨b, hb⟩
  have hperm : (moveToFront ⟨it, key⟩ c.lruOrder).Perm c.lruOrder := (List.perm_cons_erase hmem).symm
  refine ⟨{ c with lruOrder := moveToFront ⟨it, key⟩ c.lruOrder }, ?_, ⟨?_, ?_, ?_⟩, ?_, rfl⟩
  · rw [LinkedBucketCache.touch, h.find?_eq hb]
  · exact (hperm.map LruNode.addr).nodup_iff.mpr h.addrs
  · exact (hperm.map LruNode.key).nodup_iff.mpr h.keys
  · intro node
    rw [hperm.mem_iff]
    exact h.mem_iff node
  · exact map_moveToFront h.keys hmem

/-- A new key, in a node at a free address. -/
theorem Linked.insert (h : c.Linked) (hkey : c.buckets.lookup key = none) (b : TokenBucket) {addr : Nat}
    (hfresh : ∀ node ∈ c.lruOrder, node.addr ≠ addr) : (c.insert key b addr).Linked where
  addrs := by
    refine List.nodup_cons.mpr ⟨fun hmem => ?_, h.addrs⟩
    obtain ⟨node, hnode, haddr⟩ := List.mem_map.mp hmem
    exact hfresh node hnode haddr
  keys := by
    refine List.nodup_cons.mpr ⟨fun hmem => ?_, h.keys⟩
    have hsome := h.mem_keys_iff.mp hmem
    rw [hkey] at hsome
    cases hsome
  mem_iff node := by
    rw [LinkedBucketCache.insert, List.mem_cons, h.mem_iff, Map.lookup_tryEmplace]
    obtain ⟨addr', key'⟩ := node
    by_cases hk : key' = key
    · -- the only node with this key is the new one
      subst hk
      rw [if_pos rfl, hkey, Option.getD_none]
      constructor
      · rintro (heq | ⟨_, heq⟩)
        · rw [LruNode.mk.inj heq |>.1]
          exact ⟨b, rfl⟩
        · cases heq
      · rintro ⟨_, heq⟩
        rw [(Prod.mk.inj (Option.some.inj heq)).2]
        exact Or.inl rfl
    · rw [if_neg hk]
      refine ⟨fun hor => hor.resolve_left ?_, Or.inr⟩
      exact fun heq => hk (LruNode.mk.inj heq).2

/-- The last node goes, and its bucket. -/
theorem Linked.dropBack {order : List LruNode} {node : LruNode} {buckets : Map Bytes (TokenBucket × Nat)}
    (h : Linked ⟨order ++ [node], buckets⟩) : Linked ⟨order, buckets.erase node.key⟩ where
  addrs := by
    have haddrs := h.addrs
    rw [List.map_append, List.nodup_append] at haddrs
    exact haddrs.1
  keys := by
    have hkeys := h.keys
    rw [LinkedBucketCache.keys, List.map_append, List.nodup_append] at hkeys
    exact hkeys.1
  mem_iff other := by
    have hkeys := h.keys
    rw [LinkedBucketCache.keys, List.map_append, List.nodup_append] at hkeys
    have hmem := h.mem_iff other
    rw [List.mem_append, List.mem_singleton] at hmem
    rw [Map.lookup_erase]
    by_cases hk : other.key = node.key
    · simp only [if_pos hk, reduceCtorEq, exists_false, iff_false]
      intro hin
      exact hkeys.2.2 _ (List.mem_map_of_mem hin) _ (List.mem_singleton_self _) hk
    · rw [if_neg hk, ← hmem]
      refine ⟨Or.inl, fun hor => hor.resolve_right ?_⟩
      rintro rfl
      exact hk rfl

theorem Linked.evictOldest (h : c.Linked) : c.evictOldest.Linked := by
  rw [LinkedBucketCache.evictOldest]
  cases hlast : c.lruOrder.getLast? with
  | none => exact h
  | some oldest =>
    have hsplit := List.dropLast_append_getLast? oldest hlast
    apply Linked.dropBack
    rw [hsplit]
    exact h

theorem keys_evictOldest (c : LinkedBucketCache) : c.evictOldest.keys = c.keys.dropLast := by
  rw [evictOldest]
  cases hlast : c.lruOrder.getLast? with
  | none =>
    rw [List.getLast?_eq_none_iff] at hlast
    rw [keys, hlast]
    rfl
  | some oldest => exact List.map_dropLast

theorem lookup_evictOldest (c : LinkedBucketCache) (k : Bytes) : c.evictOldest.buckets.lookup k =
    if c.keys.getLast? = some k then none else c.buckets.lookup k := by
  rw [evictOldest, keys, List.getLast?_map]
  cases c.lruOrder.getLast? with
  | none => rfl
  | some oldest =>
    simp only [Map.lookup_erase, Option.map_some, Option.some.injEq, eq_comm]

/-- The loop removes nodes from the back, each with its bucket. -/
theorem Linked.eraseStaleLoop (staleSeconds now : ℚ) (clock : Nat → ℚ) (i : Nat) {nodes : List LruNode}
    {buckets : Map Bytes (TokenBucket × Nat)} (h : Linked ⟨nodes.reverse, buckets⟩) (n : Nat) :
    Linked ⟨(eraseStaleLoop staleSeconds now clock i nodes buckets n).1.reverse,
        (eraseStaleLoop staleSeconds now clock i nodes buckets n).2.1⟩ ∧
      (eraseStaleLoop staleSeconds now clock i nodes buckets n).1 <:+ nodes := by
  induction nodes generalizing i buckets n with
  | nil => exact ⟨h, List.suffix_rfl⟩
  | cons node nodes ih =>
    rw [List.reverse_cons] at h
    have hmem : node ∈ nodes.reverse ++ [node] := List.mem_append_right _ (List.mem_singleton_self _)
    obtain ⟨b, hb⟩ := (h.mem_iff node).mp hmem
    have hb' : buckets.lookup node.key = some (b, node.addr) := hb
    rw [LinkedBucketCache.eraseStaleLoop, hb']
    dsimp only
    split
    · obtain ⟨hlinked, hsuffix⟩ := ih (i + 1) h.dropBack (n + 1)
      exact ⟨hlinked, hsuffix.trans (List.suffix_cons node nodes)⟩
    · refine ⟨?_, List.suffix_rfl⟩
      rw [List.reverse_cons]
      exact h.store hb _

theorem Linked.eraseStale (h : c.Linked) (staleSeconds now : ℚ) (clock : Nat → ℚ) :
    (c.eraseStale staleSeconds now clock).1.Linked ∧
      (c.eraseStale staleSeconds now clock).1.keys <+: c.keys := by
  have hrev : Linked ⟨c.lruOrder.reverse.reverse, c.buckets⟩ := by
    rw [List.reverse_reverse]
    exact h
  obtain ⟨hlinked, hsuffix⟩ := hrev.eraseStaleLoop staleSeconds now clock 0 0
  refine ⟨hlinked, ?_⟩
  have hinit := List.reverse_prefix.mpr hsuffix
  rw [List.reverse_reverse] at hinit
  exact hinit.map LruNode.key

/-! ## One check -/

/-- The key that was used longest ago. -/
def LeastRecent (uses : List Bytes) (c : LinkedBucketCache) (k : Bytes) : Prop :=
  k ∈ c.keys ∧ ∀ j ∈ c.keys, j ≠ k → usesSince uses j < usesSince uses k

/-- The bucket of a key, or else the new one. -/
def bucketOr (c : LinkedBucketCache) (key : Bytes) (new : TokenBucket) : TokenBucket :=
  ((c.buckets.lookup key).map Prod.fst).getD new

/-- What a check does: the key is used and its bucket is now `b`, and unless it had a bucket already, the
oldest key of a full cache goes. -/
structure Checks (maxBuckets : Nat) (key : Bytes) (b : TokenBucket) (c c' : LinkedBucketCache) : Prop where
  linked : c'.Linked
  bucket : ∃ it, c'.buckets.lookup key = some (b, it)
  keys : c'.keys = if key ∈ c.keys then moveToFront key c.keys
    else key :: if maxBuckets ≤ c.size then c.keys.dropLast else c.keys
  others : ∀ k, k ≠ key → c'.buckets.lookup k =
    if key ∉ c.keys ∧ maxBuckets ≤ c.size ∧ c.keys.getLast? = some k then none else c.buckets.lookup k

variable {maxBuckets addr : Nat}

theorem Linked.makeRoom (h : c.Linked) (maxBuckets : Nat) :
    (c.makeRoom maxBuckets).Linked ∧
      (c.makeRoom maxBuckets).keys = (if maxBuckets ≤ c.size then c.keys.dropLast else c.keys) ∧
      ∀ k, (c.makeRoom maxBuckets).buckets.lookup k =
        if maxBuckets ≤ c.size ∧ c.keys.getLast? = some k then none else c.buckets.lookup k := by
  rw [LinkedBucketCache.makeRoom]
  split
  · rename_i hfull
    refine ⟨h.evictOldest, c.keys_evictOldest, fun k => ?_⟩
    rw [lookup_evictOldest]
    simp only [hfull, true_and]
  · rename_i hroom
    refine ⟨h, rfl, fun k => ?_⟩
    simp only [hroom, false_and, if_false]

/-- No iterator leads astray, and the check does what it says. -/
theorem Linked.checkBucket (h : c.Linked) (cfg : RateConfig) (perMinute : Nat) (limitType : String)
    (newAt at_ : ℚ) (key : Bytes)
    (hfresh : ∀ node ∈ (c.makeRoom maxBuckets).lruOrder, node.addr ≠ addr) :
    ∃ c', checkBucket cfg perMinute limitType maxBuckets newAt at_ addr key c =
        some (if ((c.bucketOr key (cfg.newBucket perMinute newAt)).consume at_).1 then ""
          else "rate_limit_exceeded: " ++ limitType, c') ∧
      Checks maxBuckets key ((c.bucketOr key (cfg.newBucket perMinute newAt)).consume at_).2 c c' := by
  rw [bucketOr]
  cases hfound : c.buckets.lookup key with
  | some entry =>
    obtain ⟨b, it⟩ := entry
    have hmem : key ∈ c.keys := by
      rw [h.mem_keys_iff, hfound]
      rfl
    -- a hit: the node goes to the front, and the bucket is charged where it is
    obtain ⟨c₁, htouch, hlinked₁, hkeys₁, hbuckets₁⟩ := h.touch hfound
    have hfound₁ : c₁.buckets.lookup key = some (b, it) := by rw [hbuckets₁, hfound]
    obtain ⟨c', hconsume, hlinked, horder, hbuckets⟩ := hlinked₁.consume hfound₁ at_
    refine ⟨c', ?_, hlinked, ⟨it, ?_⟩, ?_, fun k hk => ?_⟩
    · rw [LinkedBucketCache.checkBucket, LinkedBucketCache.get, hfound]
      simp only [htouch, hconsume, Option.map_some, Option.bind_eq_bind, Option.bind_some, if_true,
        Option.getD_some]
    · rw [hbuckets, Map.lookup_insert, if_pos rfl]
      rfl
    · rw [if_pos hmem, ← hkeys₁, LinkedBucketCache.keys, horder, LinkedBucketCache.keys]
    · rw [hbuckets, Map.lookup_insert, if_neg hk, hbuckets₁, if_neg fun hand => hand.1 hmem]
  | none =>
    have hmem : key ∉ c.keys := by
      rw [h.mem_keys_iff, hfound]
      exact nofun
    -- a miss: the oldest goes if the cache is full, and the new node is put in front
    obtain ⟨hroom, hkeysRoom, hlookupRoom⟩ := h.makeRoom maxBuckets
    have hnone : (c.makeRoom maxBuckets).buckets.lookup key = none := by
      rw [hlookupRoom, hfound, ite_self]
    have hinserted := hroom.insert hnone (cfg.newBucket perMinute newAt) hfresh
    have hfound₁ : ((c.makeRoom maxBuckets).insert key (cfg.newBucket perMinute newAt) addr).buckets.lookup
        key = some (cfg.newBucket perMinute newAt, addr) := by
      rw [LinkedBucketCache.insert, Map.lookup_tryEmplace, if_pos rfl, hnone, Option.getD_none]
    obtain ⟨c', hconsume, hlinked, horder, hbuckets⟩ := hinserted.consume hfound₁ at_
    refine ⟨c', ?_, hlinked, ⟨addr, ?_⟩, ?_, fun k hk => ?_⟩
    · rw [LinkedBucketCache.checkBucket, LinkedBucketCache.get, hfound]
      simp only [hconsume, Option.bind_eq_bind, Option.bind_some, Bool.false_eq_true, if_false,
        Option.map_none, Option.getD_none]
    · rw [hbuckets, Map.lookup_insert, if_pos rfl]
      rfl
    · rw [if_neg hmem, ← hkeysRoom, LinkedBucketCache.keys, horder]
      rfl
    · rw [hbuckets, Map.lookup_insert, if_neg hk, LinkedBucketCache.insert, Map.lookup_tryEmplace,
        if_neg hk, hlookupRoom]
      simp only [hmem, not_false_eq_true, true_and]

end Linked

/-! ## Runs -/

/-- The caches that calls of `checkBucket` and `eraseStale` lead to, with the keys that have been used,
the latest first. -/
inductive Reach (maxBuckets : Nat) : List Bytes → LinkedBucketCache → Prop
  | new : Reach maxBuckets [] {}
  | checkBucket {uses : List Bytes} {c c' : LinkedBucketCache} {reason : String}
      (h : Reach maxBuckets uses c) (cfg : RateConfig) (perMinute : Nat) (limitType : String)
      (newAt at_ : ℚ) (addr : Nat) (key : Bytes)
      (hfresh : ∀ node ∈ (c.makeRoom maxBuckets).lruOrder, node.addr ≠ addr)
      (hstep : checkBucket cfg perMinute limitType maxBuckets newAt at_ addr key c = some (reason, c')) :
      Reach maxBuckets (key :: uses) c'
  | eraseStale {uses : List Bytes} {c : LinkedBucketCache} (h : Reach maxBuckets uses c)
      (staleSeconds now : ℚ) (clock : Nat → ℚ) :
      Reach maxBuckets uses (c.eraseStale staleSeconds now clock).1

/-- List and map hold the same keys, the iterators lead to the nodes of their keys, and the list is in
the order of last use. -/
structure Consistent (uses : List Bytes) (c : LinkedBucketCache) : Prop where
  once : c.keys.Nodup
  same : ∀ k, k ∈ c.keys ↔ (c.buckets.lookup k).isSome = true
  iterator : ∀ k b it, c.buckets.lookup k = some (b, it) →
    c.lruOrder.filter (fun node => node.addr = it) = [⟨it, k⟩]
  recent : SortedByUse uses c.keys

/-- What a run keeps. -/
structure Kept (maxBuckets : Nat) (uses : List Bytes) (c : LinkedBucketCache) : Prop where
  linked : c.Linked
  recent : SortedByUse uses c.keys
  size_le : c.size ≤ maxBuckets

section Run

variable {maxBuckets : Nat} {uses : List Bytes} {c c' : LinkedBucketCache} {key : Bytes}

theorem length_keys (h : c.Linked) : c.keys.length = c.size := by
  rw [h.size_eq, keys, List.length_map]

theorem Kept.check (hmax : 1 ≤ maxBuckets) (h : Kept maxBuckets uses c)
    {b : TokenBucket} (hc : Checks maxBuckets key b c c') : Kept maxBuckets (key :: uses) c' := by
  have hlen := length_keys h.linked
  have hle := h.size_le
  have hroom : (if maxBuckets ≤ c.size then c.keys.dropLast else c.keys).Sublist c.keys := by
    split
    · exact List.dropLast_sublist _
    · exact List.Sublist.refl _
  refine ⟨hc.linked, ?_, ?_⟩
  · rw [hc.keys]
    split
    · exact h.recent.moveToFront h.linked.keys key
    · rename_i hnew
      apply SortedByUse.use (h.recent.sublist hroom)
      exact fun hmem => hnew (hroom.subset hmem)
  · rw [← length_keys hc.linked, hc.keys]
    split
    · rename_i hmem
      rw [length_moveToFront hmem]
      omega
    · rw [List.length_cons]
      split
      · rw [List.length_dropLast]
        omega
      · omega

theorem Kept.eraseStale (h : Kept maxBuckets uses c) (staleSeconds now : ℚ) (clock : Nat → ℚ) :
    Kept maxBuckets uses (c.eraseStale staleSeconds now clock).1 := by
  obtain ⟨hlinked, hinit⟩ := h.linked.eraseStale staleSeconds now clock
  refine ⟨hlinked, h.recent.sublist hinit.sublist, ?_⟩
  rw [← length_keys hlinked]
  exact (hinit.length_le.trans (length_keys h.linked).le).trans h.size_le

theorem Reach.kept (hmax : 1 ≤ maxBuckets) (h : Reach maxBuckets uses c) : Kept maxBuckets uses c := by
  induction h with
  | new => exact ⟨linked_empty, List.Pairwise.nil, Nat.zero_le _⟩
  | checkBucket _ cfg perMinute limitType newAt at_ addr key hfresh hstep ih =>
    obtain ⟨c', hstep', hchecks⟩ := ih.linked.checkBucket cfg perMinute limitType newAt at_ key hfresh
    rw [hstep] at hstep'
    cases hstep'
    exact ih.check hmax hchecks
  | eraseStale _ staleSeconds now clock ih => exact ih.eraseStale staleSeconds now clock

theorem Kept.consistent (h : Kept maxBuckets uses c) : Consistent uses c where
  once := h.linked.keys
  same k := h.linked.mem_keys_iff
  iterator k b it hb := by
    have hmem : (⟨it, k⟩ : LruNode) ∈ c.lruOrder := (h.linked.mem_iff ⟨it, k⟩).mpr ⟨b, hb⟩
    have hnd : c.lruOrder.Nodup := h.linked.keys.of_map LruNode.key
    have hone : ∀ node ∈ c.lruOrder, node.addr = it → node = ⟨it, k⟩ := fun node hnode haddr =>
      List.inj_on_of_nodup_map h.linked.addrs hnode hmem haddr
    apply List.perm_singleton.mp
    apply (List.perm_ext_iff_of_nodup (hnd.filter _) (List.nodup_singleton _)).mpr
    intro node
    rw [List.mem_filter, decide_eq_true_eq, List.mem_singleton]
    constructor
    · exact fun hand => hone node hand.1 hand.2
    · rintro rfl
      exact ⟨hmem, rfl⟩
  recent := h.recent

/-- The last key of the list is the one used longest ago. -/
theorem leastRecent_iff (hrecent : SortedByUse uses c.keys) {k : Bytes} :
    LeastRecent uses c k ↔ c.keys.getLast? = some k := by
  have hlast : ∀ k, c.keys.getLast? = some k → LeastRecent uses c k := by
    intro k hk
    have hsplit := List.dropLast_append_getLast? k hk
    refine ⟨List.mem_of_getLast? hk, fun j hj hne => ?_⟩
    have hpair : SortedByUse uses (c.keys.dropLast ++ [k]) := by
      rw [hsplit]
      exact hrecent
    rw [← hsplit, List.mem_append, List.mem_singleton] at hj
    exact (List.pairwise_append.mp hpair).2.2 j (hj.resolve_right hne) k (List.mem_singleton_self k)
  refine ⟨fun hleast => ?_, hlast k⟩
  have hne : c.keys ≠ [] := List.ne_nil_of_mem hleast.1
  obtain ⟨oldest, holdest⟩ : ∃ oldest, c.keys.getLast? = some oldest :=
    ⟨_, List.getLast?_eq_some_getLast hne⟩
  by_cases heq : oldest = k
  · rw [holdest, heq]
  · -- each would be older than the other
    have hlt := hleast.2 oldest (List.mem_of_getLast? holdest) heq
    have hgt := (hlast oldest holdest).2 k hleast.1 (Ne.symm heq)
    exact absurd hlt hgt.asymm

/-- In every run list and map are consistent, the cache is not too large, no iterator leads astray, and a
check on a full cache removes at most the key that was used longest ago. -/
theorem consistent_of_reach (hmax : 1 ≤ maxBuckets) (h : Reach maxBuckets uses c) :
    Consistent uses c ∧ c.size ≤ maxBuckets ∧
      ∀ (cfg : RateConfig) (perMinute : Nat) (limitType : String) (newAt at_ : ℚ) (addr : Nat)
        (key : Bytes), (∀ node ∈ (c.makeRoom maxBuckets).lruOrder, node.addr ≠ addr) →
        ∃ reason c', checkBucket cfg perMinute limitType maxBuckets newAt at_ addr key c =
            some (reason, c') ∧ (c'.buckets.lookup key).isSome = true ∧
          (c.size = maxBuckets → ∀ k, k ≠ key →
            (key ∉ c.keys ∧ LeastRecent uses c k → c'.buckets.lookup k = none) ∧
            (¬ (key ∉ c.keys ∧ LeastRecent uses c k) →
              c'.buckets.lookup k = c.buckets.lookup k)) := by
  have hkept := h.kept hmax
  refine ⟨hkept.consistent, hkept.size_le, ?_⟩
  intro cfg perMinute limitType newAt at_ addr key hfresh
  obtain ⟨c', hstep, hchecks⟩ := hkept.linked.checkBucket cfg perMinute limitType newAt at_ key hfresh
  refine ⟨_, c', hstep, ?_, fun hfull k hk => ?_⟩
  · obtain ⟨it, hit⟩ := hchecks.bucket
    rw [hit]
    rfl
  · rw [leastRecent_iff hkept.recent, hchecks.others k hk]
    have hle : maxBuckets ≤ c.size := hfull.ge
    constructor
    · rintro ⟨hnew, hlast⟩
      exact if_pos ⟨hnew, hle, hlast⟩
    · intro hnot
      exact if_neg fun hand => hnot ⟨hand.1, hand.2.2⟩

end Run

/-- Checks one after another, each with an address that is free. -/
def checks (maxBuckets : Nat) : List (ℚ × Nat × Bytes) → LinkedBucketCache → Option LinkedBucketCache
  | [], c => some c
  | (at_, addr, key) :: rest, c =>
    if ∀ node ∈ (c.makeRoom maxBuckets).lruOrder, node.addr ≠ addr then
      (checkBucket {} 60 "per_ip" maxBuckets at_ at_ addr key c).bind fun r => checks maxBuckets rest r.2
    else none

theorem reach_checks {maxBuckets : Nat} {uses : List Bytes} {c c' : LinkedBucketCache}
    {xs : List (ℚ × Nat × Bytes)} (h : Reach maxBuckets uses c) (hrun : checks maxBuckets xs c = some c') :
    Reach maxBuckets ((xs.map fun x => x.2.2).reverse ++ uses) c' := by
  induction xs generalizing uses c with
  | nil =>
    cases hrun
    exact h
  | cons x xs ih =>
    obtain ⟨at_, addr, key⟩ := x
    rw [checks] at hrun
    split at hrun
    · rename_i hfresh
      obtain ⟨⟨reason, c₁⟩, hstep, hrest⟩ := Option.bind_eq_some_iff.mp hrun
      have hreach := ih (h.checkBucket {} 60 "per_ip" at_ at_ addr key hfresh hstep) hrest
      rw [List.map_cons, List.reverse_cons, List.append_assoc]
      exact hreach
    · cases hrun

/-- A cache with room for two buckets. The first one is used again, so it is the second that makes room for the
third. -/
theorem consistent_of_reach_two : ∃ c, Reach 2 [[3], [1], [2], [1]] c ∧ c.keys = [[3], [1]] ∧
    Consistent [[3], [1], [2], [1]] c ∧ c.size ≤ 2 ∧
    ∀ (cfg : RateConfig) (perMinute : Nat) (limitType : String) (newAt at_ : ℚ) (addr : Nat)
      (key : Bytes), (∀ node ∈ (c.makeRoom 2).lruOrder, node.addr ≠ addr) →
      ∃ reason c', checkBucket cfg perMinute limitType 2 newAt at_ addr key c = some (reason, c') ∧
        (c'.buckets.lookup key).isSome = true ∧
        (c.size = 2 → ∀ k, k ≠ key →
          (key ∉ c.keys ∧ LeastRecent [[3], [1], [2], [1]] c k → c'.buckets.lookup k = none) ∧
          (¬ (key ∉ c.keys ∧ LeastRecent [[3], [1], [2], [1]] c k) →
            c'.buckets.lookup k = c.buckets.lookup k)) := by
  have heval : (checks 2 [(0, 7, [1]), (1, 8, [2]), (2, 9, [1]), (3, 9, [3])] {}).map keys =
      some [[3], [1]] := by decide +kernel
  obtain ⟨c, hrun, hkeys⟩ := Option.map_eq_some_iff.mp heval
  have hreach := reach_checks Reach.new hrun
  exact ⟨c, hreach, hkeys, consistent_of_reach (by decide) hreach⟩

/-! ## Without the nodes -/

/-- The cache `a` is `c` without the addresses. -/
structure Forgets (c : LinkedBucketCache) (a : LRUBucketCache) : Prop where
  lruOrder : a.lruOrder = c.keys
  lookup : ∀ k, a.buckets.lookup k = (c.buckets.lookup k).map Prod.fst

section Forgets

variable {c : LinkedBucketCache} {a : LRUBucketCache}

theorem Forgets.size_eq (h : Forgets c a) : a.size = c.size := by
  rw [LRUBucketCache.size, size, Map.size_eq_ncard, Map.size_eq_ncard]
  congr 1
  ext k
  simp only [Set.mem_ofPred_eq, h.lookup, Option.isSome_map]

theorem Forgets.evictOldest (h : Forgets c a) : Forgets c.evictOldest a.evictOldest := by
  rw [LRUBucketCache.evictOldest, h.lruOrder]
  refine ⟨?_, fun k => ?_⟩
  · rw [keys_evictOldest]
    cases hlast : c.keys.getLast? with
    | none => rw [h.lruOrder, List.getLast?_eq_none_iff.mp hlast, List.dropLast_nil]
    | some oldest => rfl
  · rw [lookup_evictOldest]
    cases hlast : c.keys.getLast? with
    | none =>
      rw [if_neg nofun]
      exact h.lookup k
    | some oldest =>
      simp only [Map.lookup_erase, Option.some.injEq, h.lookup]
      by_cases hk : k = oldest
      · rw [if_pos hk, if_pos hk.symm, Option.map_none]
      · rw [if_neg hk, if_neg (Ne.symm hk)]

/-- A check does the same with and without the addresses. -/
theorem Forgets.checkBucket (hf : Forgets c a) (h : c.Linked) (cfg : RateConfig) (perMinute : Nat)
    (limitType : String) {maxBuckets : Nat} (newAt at_ : ℚ) {addr : Nat} (key : Bytes)
    (hfresh : ∀ node ∈ (c.makeRoom maxBuckets).lruOrder, node.addr ≠ addr) :
    ∃ c', checkBucket cfg perMinute limitType maxBuckets newAt at_ addr key c =
        some ((RateLimiter.checkBucket cfg perMinute limitType maxBuckets newAt at_ key a).1, c') ∧
      Forgets c' (RateLimiter.checkBucket cfg perMinute limitType maxBuckets newAt at_ key a).2 := by
  obtain ⟨c', hstep, hchecks⟩ := h.checkBucket cfg perMinute limitType newAt at_ key hfresh
  have hlookup := hf.lookup key
  have hkeys := hchecks.keys
  have hothers := hchecks.others
  obtain ⟨it, hbucket⟩ := hchecks.bucket
  rw [bucketOr, ← hlookup] at hstep hbucket
  rw [RateLimiter.checkBucket, LRUBucketCache.get]
  -- both models find the key, or both make room for it
  cases hfound : a.buckets.lookup key with
  | some b =>
    have hmem : key ∈ c.keys := by
      rw [h.mem_keys_iff, ← Option.isSome_map (f := Prod.fst), ← hlookup, hfound]
      rfl
    rw [hfound, Option.getD_some] at hstep hbucket
    refine ⟨c', hstep, ?_, fun k => ?_⟩
    · rw [hkeys, if_pos hmem, ← hf.lruOrder]
      rfl
    · show AList.lookup k (a.buckets.insert key (b.consume at_).2) = _
      rw [Map.lookup_insert]
      by_cases hk : k = key
      · rw [if_pos hk, hk, hbucket, Option.map_some]
      · rw [if_neg hk, hothers k hk, if_neg fun hand => hand.1 hmem, hf.lookup]
  | none =>
    have hmem : key ∉ c.keys := by
      rw [h.mem_keys_iff, ← Option.isSome_map (f := Prod.fst), ← hlookup, hfound]
      exact nofun
    rw [hfound, Option.getD_none] at hstep hbucket
    refine ⟨c', hstep, ?_, fun k => ?_⟩
    · rw [hkeys, if_neg hmem, ← hf.size_eq]
      show key :: (if maxBuckets ≤ a.size then a.evictOldest else a).lruOrder = _
      split
      · rw [hf.evictOldest.lruOrder, keys_evictOldest]
      · rw [hf.lruOrder]
    · show AList.lookup k ((Map.tryEmplace (if maxBuckets ≤ a.size then a.evictOldest else a).buckets key
        (cfg.newBucket perMinute newAt)).insert key ((cfg.newBucket perMinute newAt).consume at_).2) = _
      rw [Map.lookup_insert, Map.lookup_tryEmplace]
      by_cases hk : k = key
      · rw [if_pos hk, hk, hbucket, Option.map_some]
      · rw [if_neg hk, if_neg hk, hothers k hk, ← hf.size_eq]
        split
        · rename_i hfull
          rw [hf.evictOldest.lookup, lookup_evictOldest]
          simp only [hmem, hfull, not_false_eq_true, true_and]
        · rename_i hroom
          rw [if_neg fun hand => hroom hand.2.1, hf.lookup]

theorem Forgets.eraseStaleLoop (staleSeconds now : ℚ) (clock : Nat → ℚ) (i : Nat) (nodes : List LruNode)
    {buckets : Map Bytes (TokenBucket × Nat)} {buckets' : Map Bytes TokenBucket}
    (h : ∀ k, buckets'.lookup k = (buckets.lookup k).map Prod.fst) (n : Nat) :
    let r := eraseStaleLoop staleSeconds now clock i nodes buckets n
    let r' := LRUBucketCache.eraseStaleLoop staleSeconds now clock i (nodes.map LruNode.key) buckets' n
    r'.1 = r.1.map LruNode.key ∧ (∀ k, r'.2.1.lookup k = (r.2.1.lookup k).map Prod.fst) ∧
      r'.2.2 = r.2.2 := by
  induction nodes generalizing i buckets buckets' n with
  | nil => exact ⟨rfl, h, rfl⟩
  | cons node nodes ih =>
    rw [List.map_cons, LinkedBucketCache.eraseStaleLoop, LRUBucketCache.eraseStaleLoop, h]
    cases hfound : buckets.lookup node.key with
    | none => exact ih i h n
    | some entry =>
      obtain ⟨b, it⟩ := entry
      dsimp only [Option.map_some]
      split
      · refine ih (i + 1) (fun k => ?_) (n + 1)
        rw [Map.lookup_erase, Map.lookup_erase, h]
        split <;> rfl
      · refine ⟨rfl, fun k => ?_, rfl⟩
        rw [Map.lookup_insert, Map.lookup_insert, h]
        split <;> rfl

/-- A cleanup does the same with and without the addresses. -/
theorem Forgets.eraseStale (h : Forgets c a) (staleSeconds now : ℚ) (clock : Nat → ℚ) :
    Forgets (c.eraseStale staleSeconds now clock).1 (a.eraseStale staleSeconds now clock).1 ∧
      (a.eraseStale staleSeconds now clock).2 = (c.eraseStale staleSeconds now clock).2 := by
  obtain ⟨horder, hlookup, hcount⟩ :=
    Forgets.eraseStaleLoop staleSeconds now clock 0 c.lruOrder.reverse h.lookup 0
  have hrev : c.lruOrder.reverse.map LruNode.key = a.lruOrder.reverse := by
    rw [h.lruOrder, keys, List.map_reverse]
  rw [hrev] at horder hlookup hcount
  refine ⟨⟨?_, hlookup⟩, hcount⟩
  rw [LRUBucketCache.eraseStale, LinkedBucketCache.eraseStale, keys, List.map_reverse, ← horder]

end Forgets

end LinkedBucketCache

end Strfry
