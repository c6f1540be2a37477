import Strfry.DBQuerySpec

/-!
# Queries answer their filters

`Answers g` says that a query for the group `g` makes the right callbacks, on every snapshot and
however it is cut into slices. It holds of every group whose plans have at most `2 ^ 24` cursors
(`answers_of_numCursors_le`).

With more cursors the scan index of a candidate does not fit its 24 bits. The entries of cursor
`2 ^ 24` are counted on cursor zero; that cursor underflows, cursor `2 ^ 24` is never refilled, and
what it has not collected at first is lost (`not_answers_of_lt_numCursors`). Only a list of kinds
can be that long: the other sets have a buffer of 64 KiB, and check it.
-/

set_option autoImplicit false

namespace Strfry

open Lib

/-- `process` called again and again on one snapshot, until it returns true. -/
def runSlices (S : StdSort) (ord : IndexOrder) (st : Store) :
    List Nat → DBQuery → Option (DBQuery × List Nat × Bool)
  | [], q => some (q, [], false)
  | n :: slices, q =>
    match q.process S ord st n with
    | none => none
    | some (q', calls, true) => some (q', calls, true)
    | some (q', calls, false) =>
      (runSlices S ord st slices q').map fun r => (r.1, calls ++ r.2.1, r.2.2)

/-- The callbacks are those that the filters ask for: each event of an answer once, and in
descending order if there is one filter. -/
structure AnswersExactly (st : Store) (g : NostrFilterGroup) (latest : WithTop Nat)
    (calls : List Nat) : Prop where
  once : calls.Nodup
  mem_iff : ∀ levId, levId ∈ calls ↔ ∃ f ∈ g.filters, levId ∈ answer st f latest
  order : ∀ f, g.filters = [f] → calls = answer st f latest

/-- A query for the group, as `DBQuery` is constructed. -/
def DBQuery.new (sub : Subscription) : DBQuery := { sub := sub }

/-- Queries for the group make the right callbacks: on every snapshot, for every sequence of slices
after which the query is complete, and it is complete once the slices are long enough. -/
def Answers (g : NostrFilterGroup) : Prop :=
  ∀ (S : StdSort) (ord : IndexOrder) (st : Store) (sub : Subscription), SnapshotOk st →
    sub.filterGroup = g →
    (∀ slices, ∃ q calls complete,
      runSlices S ord st slices (.new sub) = some (q, calls, complete) ∧
        (complete = true → AnswersExactly st g sub.latestEventId calls)) ∧
    ∃ n, ∀ slices : List Nat, n ≤ slices.sum → ∃ q calls,
      runSlices S ord st slices (.new sub) = some (q, calls, true)

/-! ## Enough bits for the scan index -/

section Enough

variable {S : StdSort} {ord : IndexOrder} {st : Store} {q : DBQuery} {calls : List Nat}

theorem runSlices_spec (S : StdSort) (hst : SnapshotOk st)
    (hcur : ∀ f ∈ q.filters, DBScan.numCursors f ≤ 2 ^ 24) (h : QueryInv ord st q calls)
    (slices : List Nat) :
    ∃ q' new complete, runSlices S ord st slices q = some (q', new, complete) ∧
      (complete = true → calls ++ new = delivered st q.sub.latestEventId [] q.filters) ∧
      (complete = false → q'.work ord st + slices.sum ≤ q.work ord st ∧
        (0 < q'.work ord st ∨ slices = [])) := by
  induction slices generalizing q calls with
  | nil => exact ⟨q, [], false, rfl, nofun, fun _ => ⟨le_rfl, Or.inr rfl⟩⟩
  | cons n slices ih =>
    obtain ⟨q₁, new, complete, hproc, hspec⟩ := process_spec S hst hcur h n
    cases complete with
    | true =>
      refine ⟨q₁, new, true, by simp only [runSlices, hproc], hspec.all, nofun⟩
    | false =>
      have hfilters : q₁.filters = q.filters := by rw [DBQuery.filters, hspec.sub]
      obtain ⟨q', new', complete, hrun, hall, hwork⟩ := ih (hfilters ▸ hcur) hspec.inv
      obtain ⟨hle, hpos⟩ := hspec.work rfl
      refine ⟨q', new ++ new', complete, ?_, ?_, ?_⟩
      · simp only [runSlices, hproc, hrun, Option.map_some]
      · intro hb
        rw [← List.append_assoc, hall hb, hspec.sub, hfilters]
      · intro hb
        obtain ⟨hle', hcase⟩ := hwork hb
        refine ⟨by rw [List.sum_cons]; omega, Or.inl ?_⟩
        rcases hcase with hpos' | rfl
        · exact hpos'
        · cases hrun
          exact hpos

/-- With at most `2 ^ 24` cursors a plan, queries answer the filters. -/
theorem answers_of_numCursors_le {g : NostrFilterGroup}
    (hcur : ∀ f ∈ g.filters, DBScan.numCursors f ≤ 2 ^ 24) : Answers g := by
  rintro S ord st sub hst rfl
  have hstart : QueryInv ord st (.new sub) [] :=
    queryInv_start hst hcur (Nat.zero_le _) rfl rfl rfl rfl
  have hrun := runSlices_spec S hst hcur hstart
  refine ⟨fun slices => ?_, (DBQuery.new sub).work ord st + 1, fun slices hle => ?_⟩
  · obtain ⟨q', new, complete, hok, hall, -⟩ := hrun slices
    refine ⟨q', new, complete, hok, fun hb => ?_⟩
    have hnew : new = delivered st sub.latestEventId [] sub.filterGroup.filters := hall hb
    subst hnew
    refine ⟨nodup_delivered List.nodup_nil _, fun levId => ?_, fun f hf => ?_⟩
    · rw [mem_delivered]
      simp
    · rw [hf, delivered, delivered, List.nil_append, List.filter_eq_self]
      exact fun _ _ => rfl
  · obtain ⟨q', new, complete, hok, -, hwork⟩ := hrun slices
    cases complete with
    | true => exact ⟨q', new, hok⟩
    | false =>
      obtain ⟨hle', -⟩ := hwork rfl
      omega

end Enough

/-! ## Too few bits for the scan index -/

/-- A filter that can match an event with a timestamp of 40 bits, and is allowed to return one. -/
def CanAnswer (f : NostrFilter) : Prop :=
  0 < f.limit ∧ f.since ≤ f.until_ ∧ f.since < 2 ^ 40

/-- The strings of a plan with more than `2 ^ 24` cursors are distinct, and an event of some author
and kind has one entry in the index, under the string of cursor `2 ^ 24`. -/
theorem exists_template {f : NostrFilter} (hf : f.WF) (h : 2 ^ 24 < DBScan.numCursors f) :
    (DBScan.plan f).2.2.Nodup ∧ ∃ b, (DBScan.plan f).2.2[2 ^ 24]? = some b ∧
      ∃ pubkey kind, pubkey.length = 32 ∧ kind < 2 ^ 64 ∧
        (∀ p : PackedEvent, p.pubkey = pubkey → p.kind = kind →
          p.indexKeys (DBScan.plan f).1 = [(b, p.createdAt)]) ∧
        ∀ p : PackedEvent, p.pubkey = pubkey → p.kind = kind → f.since ≤ p.createdAt →
          p.createdAt ≤ f.until_ → f.doesMatch p = true := by
  unfold DBScan.numCursors at h
  have hb : ∃ b, (DBScan.plan f).2.2[2 ^ 24]? = some b := ⟨_, List.getElem?_eq_getElem h⟩
  obtain ⟨b, hb⟩ := hb
  have hmem := List.mem_of_getElem? hb
  cases DBScan.planCase f with
  | id s _ hp =>
    rw [hp] at h
    exact absurd h (not_lt.2 s.length_elems_le)
  | tag t _ _ hp =>
    rw [hp, List.length_map] at h
    exact absurd h (not_lt.2 t.2.length_elems_le)
  | pubkey a _ _ _ hp =>
    rcases hp with hp | ⟨-, hp⟩ <;> rw [hp] at h <;> exact absurd h (not_lt.2 a.length_elems_le)
  | createdAt _ _ _ _ hp =>
    rw [hp] at h
    norm_num at h
  | kind k hids htags ha hk hp =>
    rw [hp] at hmem hb ⊢
    obtain ⟨n, hn, rfl⟩ := List.mem_map.1 hmem
    refine ⟨?_, _, hb, List.replicate 32 0, n, by simp, k.items_lt n hn, ?_, ?_⟩
    · refine List.Nodup.map_on ?_ k.nodup_items
      exact fun x hx y hy hxy => le64_injective (k.items_lt x hx) (k.items_lt y hy) hxy
    · intro p _ hkind
      rw [PackedEvent.indexKeys, hkind]
    · intro p _ hkind hsince huntil
      rw [f.doesMatch_iff]
      refine ⟨hf.canMatch, ⟨hsince, huntil⟩, by simp [hids], by simp [ha], ?_, by simp [htags]⟩
      intro k' hk'
      cases hk.symm.trans hk'
      exact hkind ▸ hn
  | pubkeyKind a k hids htags ha hk _ hp =>
    rw [hp] at hmem hb ⊢
    obtain ⟨x, hx, hmem'⟩ := List.mem_flatMap.1 hmem
    obtain ⟨n, hn, rfl⟩ := List.mem_map.1 hmem'
    refine ⟨?_, _, hb, x, n, hf.authors_size a ha x hx, k.items_lt n hn, ?_, ?_⟩
    · rw [List.nodup_flatMap]
      refine ⟨fun y _ => List.Nodup.map_on ?_ k.nodup_items, a.nodup_elems.imp_of_mem ?_⟩
      · intro m hm m' hm' heq
        exact le64_injective (k.items_lt m hm) (k.items_lt m' hm') (List.append_cancel_left heq)
      · intro y z hy hz hyz c hc hc'
        obtain ⟨m, -, rfl⟩ := List.mem_map.1 hc
        obtain ⟨m', -, heq⟩ := List.mem_map.1 hc'
        exact hyz (List.append_inj heq
          ((hf.authors_size a ha z hz).trans (hf.authors_size a ha y hy).symm)).1.symm
    · intro p hpk hkind
      rw [PackedEvent.indexKeys, hpk, hkind]
    · intro p hpk hkind hsince huntil
      rw [f.doesMatch_iff]
      refine ⟨hf.canMatch, ⟨hsince, huntil⟩, by simp [hids], ?_, ?_, by simp [htags]⟩
      · intro a' ha'
        cases ha.symm.trans ha'
        exact hpk ▸ hx
      · intro k' hk'
        cases hk.symm.trans hk'
        exact hkind ▸ hn

/-- An event of the author and kind, with a timestamp and an id of its own. -/
def templateEvent (pubkey : Bytes) (kind createdAt : Nat) (hpk : pubkey.length = 32)
    (hk : kind < 2 ^ 64) (hc : createdAt < 2 ^ 40) (n : Nat) : PackedEvent where
  id := leBytes 32 n
  pubkey := pubkey
  createdAt := createdAt
  kind := kind
  expiration := 0
  tags := []
  id_size := length_leBytes 32 n
  pubkey_size := hpk
  createdAt_lt := hc.trans (by norm_num)
  kind_lt := hk
  expiration_lt := by norm_num
  tags_size := PackedEventTagBuilder.noTags_size

/-- A table with rows `1` to `n`. -/
def countedTable {α : Type} (v : Nat → α) (n : Nat) : Table α where
  rows := (List.range n).map fun i => (i + 1, v i)
  sorted := by
    rw [List.pairwise_map]
    exact (List.pairwise_lt_range).imp fun h => Nat.succ_lt_succ h

theorem mem_countedTable {α : Type} {v : Nat → α} {n : Nat} {r : Nat × α} :
    r ∈ (countedTable v n).rows ↔ ∃ i < n, r = (i + 1, v i) := by
  simp only [countedTable, List.mem_map, List.mem_range]
  constructor
  · rintro ⟨i, hi, rfl⟩
    exact ⟨i, hi, rfl⟩
  · rintro ⟨i, hi, rfl⟩
    exact ⟨i, hi, rfl⟩

/-- A scan with too many cursors, on a store in which only cursor `2 ^ 24` finds something. What is
in its queue is counted on cursor zero, which has no entries and so never reaches zero again. -/
structure Overflowed (f : NostrFilter) (s : DBScan) : Prop where
  plan : DBScan.SamePlan (.make f) s
  le : s.nextInitIndex ≤ s.cursors.length
  fresh : ∀ i, s.nextInitIndex ≤ i →
    s.cursors[i]? = ((DBScan.plan f).2.2[i]?).map ScanCursor.start
  queue : ∀ x ∈ s.eventQueue, x.scanIndex = 0 ∧ 2 ≤ x.levId
  early : s.nextInitIndex ≤ 2 ^ 24 → s.eventQueue = []
  zero : ∃ c popped, s.cursors[0]? = some c ∧ c.outstanding < 2 ^ 64 ∧
    (c.outstanding + popped) % 2 ^ 64 = 0 ∧ popped + s.eventQueue.length ≤ 50 ∧
    (s.nextInitIndex < s.cursors.length → popped = 0)

/-- The stores of the failing runs: the entries of cursor `2 ^ 24` that are collected at first do not
include event `1`, and the other cursors have no entries. -/
structure OverflowStore (ord : IndexOrder) (st : Store) (f : NostrFilter) (b : Bytes) : Prop where
  snapshot : SnapshotOk st
  other : ∀ b' ∈ (DBScan.plan f).2.2, b' ≠ b →
    (ScanCursor.start b').remaining ord st (DBScan.plan f).1 f = []
  taken : ∀ e ∈ ((ScanCursor.start b).remaining ord st (DBScan.plan f).1 f).take
    (DBScan.make f).initialScanDepth, 2 ≤ e.row

section Overflow

variable {S : StdSort} {ord : IndexOrder} {st : Store} {f : NostrFilter} {b : Bytes} {s : DBScan}

/-- A bound on the iterations left. -/
def overflowWork (s : DBScan) : Nat :=
  100 * (s.cursors.length - s.nextInitIndex) + s.eventQueue.length

theorem initialScanDepth_le (s : DBScan) : s.initialScanDepth ≤ 50 := by
  unfold DBScan.initialScanDepth
  omega

theorem Overflowed.init (S : StdSort) (hf : f.WF) (hnd : (DBScan.plan f).2.2.Nodup)
    (hb : (DBScan.plan f).2.2[2 ^ 24]? = some b) (hst : OverflowStore ord st f b)
    (h : Overflowed f s) (hlt : s.nextInitIndex < s.cursors.length) :
    ∃ s', s.initStep S ord st = some s' ∧ Overflowed f s' ∧ overflowWork s' < overflowWork s := by
  obtain ⟨c, hc⟩ : ∃ c, s.cursors[s.nextInitIndex]? = some c := ⟨_, List.getElem?_eq_getElem hlt⟩
  obtain ⟨b', hb', hcb⟩ := Option.map_eq_some_iff.1 ((h.fresh _ le_rfl).symm.trans hc)
  have hmem : b' ∈ (DBScan.plan f).2.2 := List.mem_of_getElem? hb'
  have hidx : s.indexDbi = (DBScan.plan f).1 := h.plan.indexDbi
  have hsf : s.f = f := h.plan.f
  have hdepth : s.initialScanDepth = (DBScan.make f).initialScanDepth := by
    rw [DBScan.initialScanDepth, DBScan.initialScanDepth, hsf, h.plan.length_eq]
    rfl
  have hok : c.Ok ord s.indexDbi := ⟨by
    rintro pos hpos
    rw [← hcb] at hpos ⊢
    cases hpos
    exact .refl _⟩
  have hkey : KeyExact st s.indexDbi c.search := by
    rw [hidx, ← hcb]
    exact DBScan.keyExact_plan hf st hmem
  obtain ⟨c', hcol, -, hsearch, -, hout, -⟩ := c.collect_spec (f := s.f) hst.snapshot.levId_pos
    hok hkey s.nextInitIndex s.initialScanDepth
  have hcount : c.outstanding = 0 := by
    rw [← hcb]
    rfl
  -- what the cursor collects is counted on cursor zero
  have htaken : ∀ x ∈ s.taken ord st c s.nextInitIndex s.initialScanDepth,
      s.nextInitIndex = 2 ^ 24 ∧ x.scanIndex = 0 ∧ 2 ≤ x.levId := by
    intro x hx
    obtain ⟨e, he, rfl⟩ := List.mem_map.1 hx
    rw [hidx, hsf, ← hcb, hdepth] at he
    have hbb : b' = b := by
      by_contra hne
      rw [hst.other b' hmem hne] at he
      simp at he
    subst hbb
    have hnext : s.nextInitIndex = 2 ^ 24 := by
      obtain ⟨hlt₁, hget₁⟩ := List.getElem?_eq_some_iff.1 hb'
      obtain ⟨hlt₂, hget₂⟩ := List.getElem?_eq_some_iff.1 hb
      exact (hnd.getElem_inj_iff).1 (hget₁.trans hget₂.symm)
    have hnum := hst.snapshot.num_lt (mem_remaining.1 (List.mem_of_mem_take he)).1
    refine ⟨hnext, ?_, hst.taken e he⟩
    rw [CandidateEvent.scanIndex_make hnum, hnext, Nat.mod_self]
  have hlen : (s.taken ord st c s.nextInitIndex s.initialScanDepth).length ≤ 50 := by
    rw [DBScan.taken, List.length_map, List.length_take]
    have := initialScanDepth_le s
    omega
  have hperm : (if s.nextInitIndex + 1 = s.cursors.length then
      S.sort CandidateEvent.cmp
        (s.eventQueue ++ s.taken ord st c s.nextInitIndex s.initialScanDepth)
      else s.eventQueue ++ s.taken ord st c s.nextInitIndex s.initialScanDepth).Perm
      (s.eventQueue ++ s.taken ord st c s.nextInitIndex s.initialScanDepth) := by
    split_ifs
    · exact S.perm _ _
    · exact List.Perm.refl _
  have hnil : s.nextInitIndex ≠ 2 ^ 24 →
      s.taken ord st c s.nextInitIndex s.initialScanDepth = [] := by
    intro hne
    rw [List.eq_nil_iff_forall_not_mem]
    exact fun x hx => hne (htaken x hx).1
  refine ⟨{ s with
      cursors := s.cursors.set s.nextInitIndex c'
      nextInitIndex := s.nextInitIndex + 1
      eventQueue := if s.nextInitIndex + 1 = s.cursors.length then
          S.sort CandidateEvent.cmp
            (s.eventQueue ++ s.taken ord st c s.nextInitIndex s.initialScanDepth)
        else s.eventQueue ++ s.taken ord st c s.nextInitIndex s.initialScanDepth }, ?_, ?_, ?_⟩
  · rw [DBScan.initStep, DBScan.collectAt, hc]
    simp only [hcol]
    rfl
  · have hset : ∀ j, (s.cursors.set s.nextInitIndex c')[j]? =
        if s.nextInitIndex = j then some c' else s.cursors[j]? := by
      intro j
      rw [List.getElem?_set]
      split_ifs <;> rfl
    refine ⟨h.plan.trans ⟨rfl, rfl, rfl, ?_⟩, ?_, ?_, ?_, ?_, ?_⟩
    · exact ScanCursor.map_search_set hc hsearch
    · rw [List.length_set]
      exact hlt
    · intro i hi
      change s.nextInitIndex + 1 ≤ i at hi
      rw [hset, if_neg (by omega)]
      exact h.fresh i (by omega)
    · intro x hx
      rcases List.mem_append.1 (hperm.mem_iff.1 hx) with hx | hx
      · exact h.queue x hx
      · exact (htaken x hx).2
    · intro hle
      change s.nextInitIndex + 1 ≤ 2 ^ 24 at hle
      refine List.Perm.eq_nil (hperm.trans ?_)
      rw [h.early (by omega), hnil (by omega)]
      exact List.Perm.refl _
    · obtain ⟨c₀, popped, hc₀, ho, hsum, hle, hzero⟩ := h.zero
      have hpop := hzero hlt
      subst hpop
      have hlen' : (s.eventQueue ++ s.taken ord st c s.nextInitIndex
          s.initialScanDepth).length ≤ 50 := by
        by_cases hnext : s.nextInitIndex = 2 ^ 24
        · rw [h.early hnext.le, List.nil_append]
          exact hlen
        · rw [hnil hnext, List.append_nil]
          omega
      by_cases hfirst : s.nextInitIndex = 0
      · have htaken0 := hnil (by rw [hfirst]; norm_num)
        refine ⟨c', 0, by rw [hset, if_pos hfirst], ?_, ?_, ?_, fun _ => rfl⟩
        · rw [hout]
          exact Nat.mod_lt _ (by norm_num)
        · rw [DBScan.taken, List.map_eq_nil_iff] at htaken0
          rw [hout, hcount, htaken0]
          rfl
        · rw [hperm.length_eq]
          omega
      · refine ⟨c₀, 0, by rw [hset, if_neg hfirst]; exact hc₀, ho, hsum, ?_, fun _ => rfl⟩
        rw [hperm.length_eq]
        omega
  · show 100 * ((s.cursors.set s.nextInitIndex c').length - (s.nextInitIndex + 1)) +
      List.length _ < 100 * (s.cursors.length - s.nextInitIndex) + s.eventQueue.length
    rw [hperm.length_eq, List.length_set, List.length_append]
    omega

/-- Once the cursors are initialised, cursor zero only counts further down. -/
theorem Overflowed.pop (ord : IndexOrder) (st : Store) (h : Overflowed f s)
    (hnext : s.nextInitIndex = s.cursors.length)
    {ev : CandidateEvent} {rest : List CandidateEvent} (hq : s.eventQueue = ev :: rest) :
    ∃ s', { s with eventQueue := rest }.settle ord st ev.scanIndex = some s' ∧
      Overflowed f s' ∧ overflowWork s' < overflowWork s := by
  obtain ⟨c, popped, hc, ho, hsum, hle, -⟩ := h.zero
  rw [hq, List.length_cons] at hle
  have hout : (c.outstanding + (2 ^ 64 - 1)) % 2 ^ 64 ≠ 0 := by omega
  have hev : ev.scanIndex = 0 := (h.queue ev (by rw [hq]; exact List.mem_cons_self)).1
  have hpos : 0 < s.cursors.length := (List.getElem?_eq_some_iff.1 hc).1
  rw [hev]
  refine ⟨{ s with
      eventQueue := rest
      cursors := s.cursors.set 0
        { c with outstanding := (c.outstanding + (2 ^ 64 - 1)) % 2 ^ 64 } }, ?_, ?_, ?_⟩
  · rw [DBScan.settle]
    simp only [hc, if_neg hout]
  · refine ⟨h.plan.trans ⟨rfl, rfl, rfl, ?_⟩, ?_, ?_, ?_, ?_, ?_⟩
    · exact ScanCursor.map_search_set hc rfl
    · rw [List.length_set]
      exact h.le
    · intro i hi
      change s.nextInitIndex ≤ i at hi
      rw [List.getElem?_set_ne (by omega)]
      exact h.fresh i hi
    · intro x hx
      exact h.queue x (by rw [hq]; exact List.mem_cons_of_mem _ hx)
    · intro hle'
      have := h.early hle'
      rw [hq] at this
      cases this
    · refine ⟨_, popped + 1, List.getElem?_set_self hpos, Nat.mod_lt _ (by norm_num), ?_, ?_, ?_⟩
      · show ((c.outstanding + (2 ^ 64 - 1)) % 2 ^ 64 + (popped + 1)) % 2 ^ 64 = 0
        omega
      · show popped + 1 + rest.length ≤ 50
        omega
      · intro hlt
        rw [List.length_set] at hlt
        exact absurd hlt (by rw [hnext]; exact lt_irrefl _)
  · show 100 * ((s.cursors.set 0 _).length - s.nextInitIndex) + rest.length < _
    rw [overflowWork, List.length_set, hq, List.length_cons]
    omega

/-- Such a scan never passes event `1` on. -/
theorem Overflowed.iter {σ : Type} (S : StdSort) (hf : f.WF) (hnd : (DBScan.plan f).2.2.Nodup)
    (hb : (DBScan.plan f).2.2[2 ^ 24]? = some b) (hst : OverflowStore ord st f b)
    (h : Overflowed f s) (handleEvent : σ → Nat → Bool × σ) (state : σ) :
    ∃ t, (t = state ∨ ∃ levId, 2 ≤ levId ∧ t = (handleEvent state levId).2) ∧
      (s.iter S ord st handleEvent state = .done t ∨
        ∃ s', s.iter S ord st handleEvent state = .next s' t ∧ Overflowed f s' ∧
          overflowWork s' < overflowWork s) := by
  unfold DBScan.iter
  by_cases hlt : s.nextInitIndex < s.cursors.length
  · obtain ⟨s', hs', hov, hwork⟩ := h.init S hf hnd hb hst hlt
    exact ⟨state, Or.inl rfl, Or.inr ⟨s', by rw [if_pos hlt, hs'], hov, hwork⟩⟩
  · have hnext : s.nextInitIndex = s.cursors.length := le_antisymm h.le (not_lt.1 hlt)
    rw [if_neg hlt]
    cases hq : s.eventQueue with
    | nil => exact ⟨state, Or.inl rfl, Or.inl rfl⟩
    | cons ev rest =>
      obtain ⟨s', hs', hov, hwork⟩ := h.pop ord st hnext hq
      have hlev := (h.queue ev (by rw [hq]; exact List.mem_cons_self)).2
      simp only [hs']
      generalize hres : (if s.doSend st ev then handleEvent state ev.levId else (false, state)) = r
      have hstate : r.2 = state ∨ ∃ levId, 2 ≤ levId ∧ r.2 = (handleEvent state levId).2 := by
        rw [← hres]
        split
        · exact Or.inr ⟨ev.levId, hlev, rfl⟩
        · exact Or.inl rfl
      refine ⟨r.2, hstate, ?_⟩
      split
      · exact Or.inl rfl
      · exact Or.inr ⟨s', rfl, hov, hwork⟩

theorem DBQuery.eq_of_mem_handleEvent_calls {limit levId l : Nat} {latest : WithTop Nat}
    {full curr : Finset Nat}
    (h : l ∈ (handleEvent limit latest ⟨full, curr, []⟩ levId).2.calls) : l = levId := by
  unfold handleEvent at h
  split at h
  · cases h
  split at h
  · cases h
  · simp only at h
    split at h
    · cases h
    · exact List.mem_singleton.1 h

/-- The query completes, and event `1` is not among its callbacks. -/
theorem overflow_process (S : StdSort) (hf : f.WF) (hnd : (DBScan.plan f).2.2.Nodup)
    (hb : (DBScan.plan f).2.2[2 ^ 24]? = some b) (hst : OverflowStore ord st f b) (n : Nat)
    {q : DBQuery} (hfilters : q.filters = [f]) (hidx : q.filterGroupIndex = 0)
    (h : Overflowed f (q.scanner.getD (.make f)))
    (hn : overflowWork (q.scanner.getD (.make f)) < n) :
    ∃ q' calls, q.process S ord st n = some (q', calls, true) ∧ ∀ levId ∈ calls, 2 ≤ levId := by
  induction n generalizing q with
  | zero => exact absurd hn (Nat.not_lt_zero _)
  | succ n ih =>
    have hget : q.sub.filterGroup.filters[q.filterGroupIndex]? = some f := by
      rw [show q.sub.filterGroup.filters = [f] from hfilters, hidx]
      rfl
    obtain ⟨t, hstate, hit⟩ := h.iter S hf hnd hb hst
      (DBQuery.handleEvent f.limit q.sub.latestEventId) ⟨q.sentEventsFull, q.sentEventsCurr, []⟩
    have hcalls : ∀ levId ∈ t.calls, 2 ≤ levId := by
      rcases hstate with rfl | ⟨levId, hle, rfl⟩
      · exact fun _ hmem => (List.not_mem_nil hmem).elim
      · intro l hmem
        rw [DBQuery.eq_of_mem_handleEvent_calls hmem]
        exact hle
    rcases hit with hit | ⟨s', hit, hov, hwork⟩
    · let q' : DBQuery :=
        { q with
          scanner := none
          filterGroupIndex := q.filterGroupIndex + 1
          sentEventsFull := t.full
          sentEventsCurr := ∅ }
      have hnone : q'.filters[q'.filterGroupIndex]? = none := by
        show q.filters[q.filterGroupIndex + 1]? = none
        rw [hfilters, hidx]
        rfl
      refine ⟨q', t.calls, ?_, hcalls⟩
      simp only [DBQuery.process, hget, DBQuery.step, hit]
      rw [show DBQuery.process S ord st n _ = some (q', [], true) from process_of_none hnone n]
      simp
    · let q₁ : DBQuery :=
        { q with scanner := some s', sentEventsFull := t.full, sentEventsCurr := t.curr }
      obtain ⟨q', calls, hq', hnot⟩ := ih (q := q₁) hfilters hidx hov
        (by simp only [q₁, Option.getD_some]; omega)
      refine ⟨q', t.calls ++ calls, ?_, List.forall_mem_append.2 ⟨hcalls, hnot⟩⟩
      simp only [DBQuery.process, hget, DBQuery.step, hit]
      rw [show DBQuery.process S ord st n _ = some (q', calls, true) from hq']
      rfl

theorem overflowed_make (hpos : 0 < DBScan.numCursors f) : Overflowed f (.make f) := by
  have hlen : (DBScan.make f).cursors.length = DBScan.numCursors f := by
    rw [DBScan.make, List.length_map, DBScan.numCursors]
  refine ⟨.refl _, Nat.zero_le _, fun i _ => ?_, fun x hx => absurd hx List.not_mem_nil,
    fun _ => rfl, ?_⟩
  · rw [DBScan.make, List.getElem?_map]
  · have hlt : 0 < (DBScan.plan f).2.2.length := hpos
    refine ⟨.start (DBScan.plan f).2.2[0], 0, ?_, by simp [ScanCursor.start], rfl,
      by simp [DBScan.make], fun _ => rfl⟩
    rw [DBScan.make, List.getElem?_map, List.getElem?_eq_getElem hlt]
    rfl

end Overflow

section Failing

variable {f : NostrFilter} {b pubkey : Bytes} {kind : Nat}

/-- A store with more events of one author and kind than a cursor collects at first. -/
def overflowStore (f : NostrFilter) (pubkey : Bytes) (kind : Nat) (hpk : pubkey.length = 32)
    (hk : kind < 2 ^ 64) (hc : f.since < 2 ^ 40) : Store where
  event := countedTable (templateEvent pubkey kind f.since hpk hk hc)
    ((DBScan.make f).initialScanDepth + 1)
  eventPayload := countedTable (fun _ => [0]) ((DBScan.make f).initialScanDepth + 1)

theorem overflowStore_spec (ord : IndexOrder) (hpk : pubkey.length = 32) (hk : kind < 2 ^ 64)
    (hcan : CanAnswer f)
    (hkeys : ∀ p : PackedEvent, p.pubkey = pubkey → p.kind = kind →
      p.indexKeys (DBScan.plan f).1 = [(b, p.createdAt)]) :
    OverflowStore ord (overflowStore f pubkey kind hpk hk hcan.2.2) f b := by
  have hidx : ∀ e, e ∈ (overflowStore f pubkey kind hpk hk hcan.2.2).index (DBScan.plan f).1 ↔
      ∃ i < (DBScan.make f).initialScanDepth + 1, e = ⟨b, f.since, ((i + 1 : Nat) : WithTop Nat)⟩ := by
    intro e
    rw [Store.mem_index]
    constructor
    · rintro ⟨levId, p, hr, hkey, hv⟩
      obtain ⟨i, hi, heq⟩ := mem_countedTable.1 hr
      obtain ⟨rfl, rfl⟩ := Prod.mk.inj heq
      rw [hkeys _ rfl rfl, List.mem_singleton, Prod.mk.injEq] at hkey
      refine ⟨i, hi, ?_⟩
      cases e
      simp_all [templateEvent]
    · rintro ⟨i, hi, rfl⟩
      refine ⟨i + 1, _, mem_countedTable.2 ⟨i, hi, rfl⟩, ?_, rfl⟩
      rw [hkeys _ rfl rfl]
      exact List.mem_singleton_self _
  refine ⟨⟨?_, ?_⟩, ?_, ?_⟩
  · intro r hr
    obtain ⟨i, -, rfl⟩ := mem_countedTable.1 hr
    exact Nat.succ_pos i
  · intro r hr
    obtain ⟨i, -, rfl⟩ := mem_countedTable.1 hr
    exact hcan.2.2
  · intro b' _ hne
    rw [List.eq_nil_iff_forall_not_mem]
    intro e he
    obtain ⟨hi, ⟨hkey, -⟩, -⟩ := mem_remaining.1 he
    obtain ⟨i, -, rfl⟩ := (hidx e).1 hi
    exact hne hkey.symm
  · intro e he
    have hpos : ∀ x ∈ (ScanCursor.start b).remaining ord
        (overflowStore f pubkey kind hpk hk hcan.2.2) (DBScan.plan f).1 f,
        x.num = f.since ∧ 1 ≤ x.row := by
      intro x hx
      obtain ⟨i, -, rfl⟩ := (hidx x).1 (mem_remaining.1 hx).1
      exact ⟨rfl, Nat.succ_pos i⟩
    have hlen : (DBScan.make f).initialScanDepth < ((ScanCursor.start b).remaining ord
        (overflowStore f pubkey kind hpk hk hcan.2.2) (DBScan.plan f).1 f).length := by
      let es : List (Entry Bytes) := (List.range ((DBScan.make f).initialScanDepth + 1)).map
        fun i => ⟨b, f.since, ((i + 1 : Nat) : WithTop Nat)⟩
      have hes : es.Nodup := by
        refine List.Nodup.map ?_ List.nodup_range
        intro i j hij
        have hval : ((i + 1 : Nat) : WithTop Nat) = ((j + 1 : Nat) : WithTop Nat) :=
          congrArg Entry.val hij
        exact Nat.succ.inj (Nat.cast_injective hval)
      have hsub : es ⊆ (ScanCursor.start b).remaining ord
          (overflowStore f pubkey kind hpk hk hcan.2.2) (DBScan.plan f).1 f := by
        intro x hx
        obtain ⟨i, hi, rfl⟩ := List.mem_map.1 hx
        refine mem_remaining.2 ⟨(hidx _).2 ⟨i, List.mem_range.1 hi, rfl⟩, ⟨rfl, le_rfl, ?_⟩, _, rfl, ?_⟩
        · exact Or.inr hcan.2.1
        · refine (entryLe_iff_of_key_eq (by rfl)).2 (Or.inl ?_)
          exact hcan.2.2.trans (by norm_num [maxU64])
      have := (List.subperm_of_subset hes hsub).length_le
      rw [List.length_map, List.length_range] at this
      exact this
    -- an entry follows, and its levId is smaller
    have hpair : ((ScanCursor.start b).remaining ord
        (overflowStore f pubkey kind hpk hk hcan.2.2) (DBScan.plan f).1 f).Pairwise
        fun x y => y.rank < x.rank := rank_remaining
    rw [← List.take_append_drop (DBScan.make f).initialScanDepth
      ((ScanCursor.start b).remaining ord _ (DBScan.plan f).1 f), List.pairwise_append] at hpair
    obtain ⟨y, hy⟩ := List.exists_mem_of_ne_nil _
      (fun hnil => absurd (List.drop_eq_nil_iff.1 hnil) (not_le.2 hlen))
    have hlt := hpair.2.2 e he y hy
    obtain ⟨hye, hyrow⟩ := hpos y (List.mem_of_mem_drop hy)
    obtain ⟨hee, -⟩ := hpos e (List.mem_of_mem_take he)
    rw [Entry.rank, Entry.rank, Prod.Lex.toLex_lt_toLex, hye, hee] at hlt
    rcases hlt with hlt | ⟨-, hlt⟩
    · exact absurd hlt (lt_irrefl _)
    · change y.row < e.row at hlt
      omega

/-- With more than `2 ^ 24` cursors a query misses an event. -/
theorem not_answers_of_lt_numCursors {g : NostrFilterGroup} (hg : g.filters = [f])
    (hcan : CanAnswer f) (hcur : 2 ^ 24 < DBScan.numCursors f) : ¬ Answers g := by
  intro hans
  have hf : f.WF := g.wf f (by rw [hg]; exact List.mem_singleton_self f)
  obtain ⟨hnd, b, hb, pubkey, kind, hpk, hk, hkeys, hmatch⟩ := exists_template hf hcur
  have hst := overflowStore_spec byteOrder hpk hk hcan hkeys
  have hsub : ∃ subId : SubId, subId.sv = [97] := ⟨⟨[97], by decide, by decide, by decide⟩, rfl⟩
  obtain ⟨subId, -⟩ := hsub
  let sub : Subscription := ⟨1, subId, g, (1 : Nat)⟩
  obtain ⟨q', calls', hproc, hnot⟩ := overflow_process .insertion hf hnd hb hst
    (overflowWork (.make f) + 1) (q := .new sub) hg rfl
    (overflowed_make (lt_trans (by norm_num) hcur)) (Nat.lt_succ_self _)
  obtain ⟨q, calls, complete, hrun, hexact⟩ :=
    (hans .insertion byteOrder _ sub hst.snapshot rfl).1 [overflowWork (.make f) + 1]
  simp only [runSlices, hproc] at hrun
  obtain ⟨rfl, rfl, rfl⟩ : q' = q ∧ calls' = calls ∧ true = complete := by simpa using hrun
  -- event `1` is in the answer
  have hrow : (1, templateEvent pubkey kind f.since hpk hk hcan.2.2 0) ∈
      newestMatching (overflowStore f pubkey kind hpk hk hcan.2.2) f (1 : Nat) := by
    refine mem_newestMatching.2 (mem_matchingRows.2 ⟨mem_countedTable.2 ⟨0, Nat.succ_pos _, rfl⟩,
      hmatch _ rfl rfl le_rfl hcan.2.1, le_rfl⟩)
  have honly : ∀ r ∈ newestMatching (overflowStore f pubkey kind hpk hk hcan.2.2) f (1 : Nat),
      r.1 = 1 := by
    intro r hr
    obtain ⟨hr, -, hle⟩ := mem_matchingRows.1 (mem_newestMatching.1 hr)
    obtain ⟨i, -, rfl⟩ := mem_countedTable.1 hr
    rw [Nat.cast_le] at hle
    simp at hle
    simp [hle]
  have hanswer : 1 ∈ answer (overflowStore f pubkey kind hpk hk hcan.2.2) f (1 : Nat) := by
    rw [answer]
    cases hl : newestMatching (overflowStore f pubkey kind hpk hk hcan.2.2) f (1 : Nat) with
    | nil => rw [hl] at hrow; cases hrow
    | cons r rs =>
      obtain ⟨n, hn⟩ := Nat.exists_eq_succ_of_ne_zero (Nat.pos_iff_ne_zero.1 hcan.1)
      rw [hn, List.take_succ_cons, List.map_cons, honly r (by rw [hl]; exact List.mem_cons_self)]
      exact List.mem_cons_self
  have hone := hnot 1
    (((hexact rfl).mem_iff 1).2 ⟨f, by rw [hg]; exact List.mem_singleton_self f, hanswer⟩)
  omega

end Failing

/-- A query answers every group whose plans have at most `2 ^ 24` cursors; a filter that can match
alone is answered only then. -/
theorem query_answers_iff_numCursors_le (g : NostrFilterGroup) :
    ((∀ f ∈ g.filters, DBScan.numCursors f ≤ 2 ^ 24) → Answers g) ∧
    ∀ f : NostrFilter, g.filters = [f] → CanAnswer f →
      (Answers g ↔ DBScan.numCursors f ≤ 2 ^ 24) := by
  refine ⟨answers_of_numCursors_le, fun f hg hcan => ⟨fun hans => ?_, fun hle => ?_⟩⟩
  · by_contra hlt
    exact not_answers_of_lt_numCursors hg hcan (not_le.1 hlt) hans
  · refine answers_of_numCursors_le fun f' hf' => ?_
    rw [hg, List.mem_singleton] at hf'
    exact hf' ▸ hle

/-! ## A list of kinds that is too long -/

/-- The filter that lists the kinds below `n`. -/
def kindsFilter (n : Nat) : Json :=
  .object [(ascii "kinds", .array ((List.range n).map fun k => .unsigned (UInt64.ofNat k)))]

theorem kindsFilter_make {n : Nat} (hpos : 0 < n) (hle : n ≤ 2 ^ 64) (hex : HexCodec)
    {limit : Nat} (hlimit : 0 < limit) :
    ∃ f k, NostrFilter.make hex (kindsFilter n) limit = .ok f ∧ f.neverMatch = false ∧
      f.ids = none ∧ f.tags = [] ∧ f.authors = none ∧ f.kinds = some k ∧ k.items.length = n ∧
      CanAnswer f ∧ ∀ ev : PackedEvent, f.doesMatch ev = true ↔ ev.kind < n := by
  have hmap : ∀ l : List Nat, (l.map fun k => Json.unsigned (UInt64.ofNat k)).mapM Json.getUnsigned =
      .ok (l.map UInt64.ofNat) := by
    intro l
    induction l with
    | nil => rfl
    | cons a l ih =>
      rw [List.map_cons, List.mapM_cons, ih]
      rfl
  have hkinds : FilterSetUint.make (.array ((List.range n).map fun k =>
      .unsigned (UInt64.ofNat k))) = .ok (.ofArray ((List.range n).map UInt64.ofNat)) := by
    simp only [FilterSetUint.make, Json.getArray, bind, Except.bind, hmap]
  have hne : ((List.range n).map fun k => Json.unsigned (UInt64.ofNat k)) ≠ [] := by
    simpa using Nat.pos_iff_ne_zero.1 hpos
  obtain ⟨x, xs, hxs⟩ := List.exists_cons_of_ne_nil hne
  refine ⟨{ kinds := some (.ofArray ((List.range n).map UInt64.ofNat))
            limit := if maxU64 > limit then limit else maxU64
            indexOnlyScans := true },
    .ofArray ((List.range n).map UInt64.ofNat), ?_, rfl, rfl, rfl, rfl, rfl, ?_, ?_, ?_⟩
  · have hstep : addMember hex {} (ascii "kinds", .array ((List.range n).map fun k =>
        .unsigned (UInt64.ofNat k))) =
        .ok ⟨{ kinds := some (.ofArray ((List.range n).map UInt64.ofNat)) }, 1⟩ := by
      rw [addMember]
      simp only [hxs]
      unfold addField
      rw [← hxs, if_neg (by decide), if_neg (by decide), if_pos rfl]
      simp only [bind, Except.bind, hkinds]
    simp only [kindsFilter, NostrFilter.make, List.foldlM_cons, List.foldlM_nil, bind, Except.bind,
      hstep, pure, Except.pure, finishFilter]
    rfl
  · have hnd : (((List.range n).map UInt64.ofNat).map UInt64.toNat).Nodup := by
      rw [List.map_map]
      refine List.Nodup.map_on ?_ List.nodup_range
      intro a ha b hb hab
      have ha' : a < 2 ^ 64 := (List.mem_range.1 ha).trans_le hle
      have hb' : b < 2 ^ 64 := (List.mem_range.1 hb).trans_le hle
      simp only [Function.comp_apply, UInt64.toNat_ofNat'] at hab
      rwa [Nat.mod_eq_of_lt ha', Nat.mod_eq_of_lt hb'] at hab
    rw [FilterSetUint.ofArray]
    simp only
    rw [(List.perm_insertionSort _ _).length_eq, List.dedup_eq_self.2 hnd, List.length_map,
      List.length_map, List.length_range]
  · refine ⟨?_, Nat.zero_le _, by norm_num⟩
    show 0 < if maxU64 > limit then limit else maxU64
    split
    · exact hlimit
    · norm_num [maxU64]
  · intro ev
    have hmem : ev.kind ∈ (FilterSetUint.ofArray ((List.range n).map UInt64.ofNat)).items ↔ ev.kind < n := by
      simp only [FilterSetUint.ofArray, List.mem_insertionSort, List.mem_dedup, List.mem_map,
        List.mem_range, exists_exists_and_eq_and, UInt64.toNat_ofNat']
      constructor
      · rintro ⟨k, hk, heq⟩
        rw [Nat.mod_eq_of_lt (hk.trans_le hle)] at heq
        exact heq ▸ hk
      · exact fun hk => ⟨ev.kind, hk, Nat.mod_eq_of_lt ev.kind_lt⟩
    have htimes := NostrFilter.doesMatchTimes_iff
      { kinds := some (.ofArray ((List.range n).map UInt64.ofNat))
        limit := if maxU64 > limit then limit else maxU64
        indexOnlyScans := true } ev.createdAt
    have hcreated : ev.createdAt ≤ maxU64 := by
      have := ev.createdAt_lt
      rw [maxU64]
      omega
    rw [NostrFilter.doesMatch, htimes.mpr ⟨Nat.zero_le _, hcreated⟩]
    simp [FilterSetUint.doesMatch_iff, hmem]

theorem unlimited_kindsFilter (n : Nat) : (kindsFilter n).Unlimited := by
  apply Json.unlimited_object
  show ascii "limit" ∉ [ascii "kinds"]
  decide

/-- Queries for the filter that lists kind `0` are answered. -/
theorem query_answers_kindsFilter_one :
    ∃ g f, NostrFilterGroup.unwrapped hexCodec (kindsFilter 1) maxU64 = .ok g ∧
      g.filters = [f] ∧ CanAnswer f ∧ DBScan.numCursors f ≤ 2 ^ 24 ∧ Answers g := by
  obtain ⟨f, k, hmake, hnm, hids, htags, ha, hk, hlen, hcan, -⟩ :=
    kindsFilter_make (n := 1) (by norm_num) (by norm_num) hexCodec
      (show 0 < maxU64 by norm_num [maxU64])
  obtain ⟨g, hg, hfilters⟩ := NostrFilterGroup.unwrapped_object hmake hnm
  have hcur : DBScan.numCursors f ≤ 2 ^ 24 := by
    rw [DBScan.numCursors_of_kinds hids htags ha hk, hlen]
    norm_num
  exact ⟨g, f, hg, hfilters, hcan, hcur,
    ((query_answers_iff_numCursors_le g).2 f hfilters hcan).2 hcur⟩

/-- The query for a filter with `2 ^ 24 + 1` kinds misses an event. -/
theorem query_misses_event_of_many_kinds :
    ∃ g, NostrFilterGroup.unwrapped hexCodec (kindsFilter (2 ^ 24 + 1)) maxU64 = .ok g ∧
      ¬ Answers g := by
  obtain ⟨f, k, hmake, hnm, hids, htags, ha, hk, hlen, hcan, -⟩ :=
    kindsFilter_make (n := 2 ^ 24 + 1) (by norm_num) (by norm_num) hexCodec
      (show 0 < maxU64 by norm_num [maxU64])
  obtain ⟨g, hg, hfilters⟩ := NostrFilterGroup.unwrapped_object hmake hnm
  refine ⟨g, hg, not_answers_of_lt_numCursors hfilters hcan ?_⟩
  rw [DBScan.numCursors_of_kinds hids htags ha hk, hlen]
  exact Nat.lt_succ_self _

end Strfry
