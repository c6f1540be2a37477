import Strfry.ScanCursor

/-!
# Iterations of a scan

`pending` are the ranks (timestamp and levId) of all entries a scan has still to hand out: those in
the queue, and those ahead of its cursors. An iteration that initialises a cursor leaves `pending`
as it is, up to order; an iteration that takes an event off the queue removes that event
(`iter_spec`). `ScanInv` is what makes this so: `outstanding` counts the entries of a cursor in the
queue, and a cursor that is still active has some. It does not mention a snapshot.

On a fixed snapshot the queue is in descending order, and the entries ahead of a cursor are below
those it has in the queue (`OrderInv`). Hence the head of the queue is the greatest of `pending`.

The scan index of a candidate has 24 bits. `ScanInv` asks for at most `2 ^ 24` cursors.
-/

set_option autoImplicit false

namespace Strfry

open Lib

/-! ## Candidates -/

namespace CandidateEvent

theorem shiftLeft_mod (scanIndex : Nat) :
    (scanIndex <<< 40) % 2 ^ 64 = (scanIndex % 2 ^ 24) <<< 40 := by
  rw [Nat.shiftLeft_eq, Nat.shiftLeft_eq, show (2 : Nat) ^ 64 = 2 ^ 24 * 2 ^ 40 by norm_num,
    Nat.mul_mod_mul_right]

theorem packed_make {levId created scanIndex : Nat} (hc : created < 2 ^ 40) :
    (make levId created scanIndex).packed = (scanIndex % 2 ^ 24) * 2 ^ 40 + created := by
  rw [make, shiftLeft_mod, ← Nat.shiftLeft_add_eq_or_of_lt hc, Nat.shiftLeft_eq]

theorem created_make {levId created scanIndex : Nat} (hc : created < 2 ^ 40) :
    (make levId created scanIndex).created = created := by
  rw [CandidateEvent.created, packed_make hc, show 0xFFFFFFFFFF = 2 ^ 40 - 1 by norm_num,
    Nat.and_two_pow_sub_one_eq_mod]
  omega

/-- The scan index comes back modulo `2 ^ 24`. -/
theorem scanIndex_make {levId created scanIndex : Nat} (hc : created < 2 ^ 40) :
    (make levId created scanIndex).scanIndex = scanIndex % 2 ^ 24 := by
  rw [CandidateEvent.scanIndex, packed_make hc, Nat.shiftRight_eq_div_pow]
  omega

/-- Timestamp and levId: what `cmp` compares. -/
def rank (c : CandidateEvent) : Nat ×ₗ Nat := toLex (c.created, c.levId)

theorem cmp_eq (a b : CandidateEvent) : cmp a b = decide (b.rank < a.rank) := by
  unfold cmp
  rw [← Bool.coe_iff_coe, decide_eq_true_eq, rank, rank, Prod.Lex.toLex_lt_toLex]
  split
  · rename_i h
    simp [h]
  · rename_i h
    simp [Ne.symm h]

theorem strictWeak_cmp : StrictWeak cmp where
  asymm a b h := by
    rw [cmp_eq, decide_eq_true_eq] at h
    rw [cmp_eq, decide_eq_false_iff_not]
    exact h.asymm
  negTrans a b c hab hbc := by
    rw [cmp_eq, decide_eq_false_iff_not, not_lt] at hab hbc ⊢
    exact hab.trans hbc

end CandidateEvent

/-- The rank of an entry. -/
def Lib.Entry.rank (e : Entry Bytes) : Nat ×ₗ Nat := toLex (e.num, e.row)

theorem CandidateEvent.rank_make {e : Entry Bytes} (scanIndex : Nat) (hc : e.num < 2 ^ 40) :
    (CandidateEvent.make e.row e.num scanIndex).rank = e.rank := by
  rw [CandidateEvent.rank, CandidateEvent.created_make hc]
  rfl

/-! ## The state of a scan -/

/-- Replacing an element of a list by one with less in it. -/
theorem perm_flatMap_set {α β : Type} {l : List α} {i : Nat} {a b : α} {g : α → List β}
    {t : List β} (h : l[i]? = some a) (hab : (t ++ g b).Perm (g a)) :
    (t ++ (l.set i b).flatMap g).Perm (l.flatMap g) := by
  induction l generalizing i with
  | nil => cases h
  | cons x l ih =>
    cases i with
    | zero =>
      cases h
      rw [List.set_cons_zero, List.flatMap_cons, List.flatMap_cons, ← List.append_assoc]
      exact hab.append_right _
    | succ i =>
      rw [List.set_cons_succ, List.flatMap_cons, List.flatMap_cons, ← List.append_assoc]
      refine (List.perm_append_comm.append_right _).trans ?_
      rw [List.append_assoc]
      exact (ih h).append_left _

/-- The snapshots a scan works on: levIds start at one, and timestamps have 40 bits. -/
structure SnapshotOk (st : Store) : Prop where
  levId_pos : ∀ r ∈ st.event.rows, 0 < r.1
  created_lt : ∀ r ∈ st.event.rows, r.2.createdAt < 2 ^ 40

theorem SnapshotOk.num_lt {st : Store} (h : SnapshotOk st) {i : QueryIndex} {e : Entry Bytes}
    (he : e ∈ st.index i) : e.num < 2 ^ 40 := by
  obtain ⟨levId, p, hr, hk, -⟩ := Store.mem_index.1 he
  rw [show e.num = p.createdAt from PackedEvent.num_of_mem_indexKeys hk]
  exact h.created_lt _ hr

theorem Store.val_eq_row {st : Store} {i : QueryIndex} {e : Entry Bytes} (he : e ∈ st.index i) :
    e.val = (e.row : WithTop Nat) := by
  obtain ⟨levId, p, -, -, hv⟩ := Store.mem_index.1 he
  rw [Entry.row, hv]
  rfl

/-- The entries ahead of a cursor have descending ranks. -/
theorem rank_remaining {ord : IndexOrder} {st : Store} {i : QueryIndex} {f : NostrFilter}
    {search : Bytes} {resume : Option (Entry Bytes)} :
    (remaining ord st i f search resume).Pairwise fun a b => b.rank < a.rank := by
  refine pairwise_remaining.imp_of_mem ?_
  intro a b ha hb hab
  obtain ⟨hai, hawanted, -⟩ := mem_remaining.1 ha
  obtain ⟨hbi, hbwanted, -⟩ := mem_remaining.1 hb
  have hkey : b.key = a.key := hbwanted.1.trans hawanted.1.symm
  have hle := (entryLe_iff_of_key_eq hkey).1 hab.1
  rw [Store.val_eq_row hai, Store.val_eq_row hbi, Nat.cast_le] at hle
  rw [Entry.rank, Entry.rank, Prod.Lex.toLex_lt_toLex]
  rcases hle with hlt | ⟨heq, hle⟩
  · exact Or.inl hlt
  · refine Or.inr ⟨heq, lt_of_le_of_ne hle fun hrow => hab.2 ?_⟩
    change b.row = a.row at hrow
    have hval : b.val = a.val := by rw [Store.val_eq_row hai, Store.val_eq_row hbi, hrow]
    cases a
    cases b
    simp_all

namespace DBScan

/-- The ranks of the entries that a scan has still to hand out. -/
def pending (ord : IndexOrder) (st : Store) (s : DBScan) : List (Nat ×ₗ Nat) :=
  s.eventQueue.map CandidateEvent.rank ++
    s.cursors.flatMap fun c => (c.remaining ord st s.indexDbi s.f).map Entry.rank

/-- A cursor that is active has entries in the queue. -/
def ActiveAt (s : DBScan) (i : Nat) : Prop :=
  ∀ c, s.cursors[i]? = some c → c.resume.isSome = true → 0 < c.outstanding

/-- What holds of a scan at every point of an iteration. -/
structure Core (ord : IndexOrder) (s : DBScan) : Prop where
  ok : ∀ c ∈ s.cursors, c.Ok ord s.indexDbi
  few : s.cursors.length ≤ 2 ^ 24
  init_le : s.nextInitIndex ≤ s.cursors.length
  queued : ∀ x ∈ s.eventQueue, x.scanIndex < s.nextInitIndex
  count : ∀ i c, s.cursors[i]? = some c →
    c.outstanding = s.eventQueue.countP fun x => x.scanIndex = i
  small : ∀ c ∈ s.cursors, c.outstanding ≤ 500

/-- What holds of a scan between iterations. -/
structure ScanInv (ord : IndexOrder) (s : DBScan) : Prop extends Core ord s where
  active : ∀ i < s.nextInitIndex, s.ActiveAt i

/-- On a snapshot, the entries ahead of a cursor are below those it has in the queue. -/
def Above (ord : IndexOrder) (st : Store) (s : DBScan) : Prop :=
  ∀ i c, s.cursors[i]? = some c → ∀ x ∈ s.eventQueue, x.scanIndex = i →
    ∀ e ∈ c.remaining ord st s.indexDbi s.f, e.rank < x.rank

/-- What holds between iterations on a fixed snapshot. -/
structure OrderInv (ord : IndexOrder) (st : Store) (s : DBScan) : Prop where
  sorted : s.nextInitIndex = s.cursors.length → SortedBy CandidateEvent.cmp s.eventQueue
  above : s.Above ord st

/-- The two scans follow the same plan for the same filter. -/
structure SamePlan (s s' : DBScan) : Prop where
  f : s'.f = s.f
  indexOnly : s'.indexOnly = s.indexOnly
  indexDbi : s'.indexDbi = s.indexDbi
  searches : s'.cursors.map ScanCursor.search = s.cursors.map ScanCursor.search

theorem SamePlan.refl (s : DBScan) : SamePlan s s := ⟨rfl, rfl, rfl, rfl⟩

theorem SamePlan.trans {s s' s'' : DBScan} (h : SamePlan s s') (h' : SamePlan s' s'') :
    SamePlan s s'' :=
  ⟨h'.f.trans h.f, h'.indexOnly.trans h.indexOnly, h'.indexDbi.trans h.indexDbi,
    h'.searches.trans h.searches⟩

theorem SamePlan.length_eq {s s' : DBScan} (h : SamePlan s s') :
    s'.cursors.length = s.cursors.length := by
  have := congrArg List.length h.searches
  rwa [List.length_map, List.length_map] at this

/-- On the snapshot, `keyMatch` recognises the strings of the cursors. -/
def Exact (st : Store) (s : DBScan) : Prop :=
  ∀ b ∈ s.cursors.map ScanCursor.search, KeyExact st s.indexDbi b

theorem Exact.samePlan {st : Store} {s s' : DBScan} (h : s.Exact st) (hp : SamePlan s s') :
    s'.Exact st := by
  intro b hb
  rw [hp.indexDbi]
  exact h b (hp.searches ▸ hb)

theorem initialScanDepth_pos (s : DBScan) : 0 < s.initialScanDepth := by
  unfold initialScanDepth
  omega

theorem refillScanDepth_le (s : DBScan) : s.refillScanDepth ≤ 500 := by
  unfold refillScanDepth initialScanDepth
  omega

/-- The candidates that `collect` makes of the next entries of cursor `i`. -/
def taken (ord : IndexOrder) (st : Store) (s : DBScan) (c : ScanCursor) (i limit : Nat) :
    List CandidateEvent :=
  ((c.remaining ord st s.indexDbi s.f).take limit).map fun e => .make e.row e.num i

section Refill

variable {ord : IndexOrder} {st : Store} {s : DBScan} {i limit : Nat} {c : ScanCursor}

theorem mem_taken (hst : SnapshotOk st) {x : CandidateEvent}
    (hx : x ∈ s.taken ord st c i limit) (hi : i < 2 ^ 24) :
    x.scanIndex = i ∧ ∃ e ∈ (c.remaining ord st s.indexDbi s.f).take limit, x.rank = e.rank := by
  obtain ⟨e, he, rfl⟩ := List.mem_map.1 hx
  have hlt := hst.num_lt (mem_remaining.1 (List.mem_of_mem_take he)).1
  refine ⟨?_, e, he, CandidateEvent.rank_make i hlt⟩
  rw [CandidateEvent.scanIndex_make hlt, Nat.mod_eq_of_lt hi]

theorem rank_taken (hst : SnapshotOk st) :
    (s.taken ord st c i limit).map CandidateEvent.rank =
      ((c.remaining ord st s.indexDbi s.f).take limit).map Entry.rank := by
  rw [taken, List.map_map]
  refine List.map_congr_left fun e he => ?_
  exact CandidateEvent.rank_make i (hst.num_lt (mem_remaining.1 (List.mem_of_mem_take he)).1)

/-- Candidates are collected in the order of the queue. -/
theorem sorted_taken (hst : SnapshotOk st) :
    SortedBy CandidateEvent.cmp (s.taken ord st c i limit) := by
  have hpair : ((s.taken ord st c i limit).map CandidateEvent.rank).Pairwise (· > ·) := by
    rw [rank_taken hst, List.pairwise_map]
    exact rank_remaining.sublist (List.take_sublist _ _)
  refine (List.pairwise_map.1 hpair).imp fun h => ?_
  rw [CandidateEvent.cmp_eq, decide_eq_false_iff_not, not_lt]
  exact le_of_lt h

/-- What `collectAt` does to a scan in which cursor `i` has nothing in the queue. `queue` is the
queue afterwards, in any order. -/
theorem collectAt_spec (hst : SnapshotOk st) (hexact : s.Exact st) (hcore : s.Core ord)
    (hc : s.cursors[i]? = some c) (hzero : c.outstanding = 0) (hpos : 0 < limit)
    (hle : limit ≤ 500) :
    ∃ c', s.collectAt ord st i limit =
        some (s.taken ord st c i limit, { s with cursors := s.cursors.set i c' }) ∧
      c'.remaining ord st s.indexDbi s.f = (c.remaining ord st s.indexDbi s.f).drop limit ∧
      ∀ (queue : List CandidateEvent) (n : Nat),
        queue.Perm (s.eventQueue ++ s.taken ord st c i limit) → s.nextInitIndex ≤ n → i < n →
        n ≤ s.cursors.length →
        let s' := { s with
          cursors := s.cursors.set i c', eventQueue := queue, nextInitIndex := n }
        s'.Core ord ∧ SamePlan s s' ∧ s'.ActiveAt i ∧ (∀ j, j ≠ i → s.ActiveAt j → s'.ActiveAt j) ∧
          (s'.pending ord st).Perm (s.pending ord st) ∧ (s.Above ord st → s'.Above ord st) := by
  obtain ⟨hlt, hget⟩ := List.getElem?_eq_some_iff.1 hc
  have hmem : c ∈ s.cursors := List.mem_of_getElem? hc
  have hi : i < 2 ^ 24 := hlt.trans_le hcore.few
  obtain ⟨c', hcol, hok, hsearch, hdrop, hout, -, hlen⟩ := c.collect_spec hst.levId_pos
    (hcore.ok c hmem) (hexact _ (List.mem_map_of_mem hmem)) i limit (f := s.f)
  have htaken : (s.taken ord st c i limit).length ≤ 500 := by
    rw [taken, List.length_map, List.length_take]
    omega
  have hout' : c'.outstanding = (s.taken ord st c i limit).length := by
    rw [hout, hzero, Nat.zero_add, taken, List.length_map]
    refine Nat.mod_eq_of_lt ?_
    rw [taken, List.length_map] at htaken
    omega
  refine ⟨c', by rw [collectAt, hc]; simp only [hcol]; rfl, hdrop, ?_⟩
  intro queue n hperm hn hin hnle s'
  have hset : ∀ j, s'.cursors[j]? = if i = j then some c' else s.cursors[j]? := by
    intro j
    show (s.cursors.set i c')[j]? = _
    rw [List.getElem?_set]
    split_ifs <;> rfl
  have hcount : ∀ j, queue.countP (fun x => x.scanIndex = j) =
      s.eventQueue.countP (fun x => x.scanIndex = j) +
        if i = j then (s.taken ord st c i limit).length else 0 := by
    intro j
    rw [hperm.countP_eq, List.countP_append]
    congr 1
    split_ifs with hij
    · rw [List.countP_eq_length]
      intro x hx
      exact decide_eq_true ((mem_taken hst hx hi).1.trans hij)
    · rw [List.countP_eq_zero]
      intro x hx h
      exact hij ((mem_taken hst hx hi).1.symm.trans (of_decide_eq_true h))
  refine ⟨⟨?_, ?_, ?_, ?_, ?_, ?_⟩, ⟨rfl, rfl, rfl, ?_⟩, ?_, ?_, ?_, ?_⟩
  · intro d hd
    rcases List.mem_or_eq_of_mem_set hd with hd | rfl
    · exact hcore.ok d hd
    · exact hok
  · rw [List.length_set]
    exact hcore.few
  · rw [List.length_set]
    exact hnle
  · intro x hx
    rcases List.mem_append.1 (hperm.mem_iff.1 hx) with hx | hx
    · exact (hcore.queued x hx).trans_le hn
    · rw [(mem_taken hst hx hi).1]
      exact hin
  · intro j d hd
    rw [hset] at hd
    rw [hcount]
    split_ifs at hd with hij
    · cases hd
      rw [if_pos hij, hout', ← hij, ← hcore.count i c hc, hzero, Nat.zero_add]
    · rw [if_neg hij, Nat.add_zero]
      exact hcore.count j d hd
  · intro d hd
    rcases List.mem_or_eq_of_mem_set hd with hd | rfl
    · exact hcore.small d hd
    · exact hout' ▸ htaken
  · show (s.cursors.set i c').map ScanCursor.search = _
    exact ScanCursor.map_search_set hc hsearch
  · intro d hd hs
    rw [hset, if_pos rfl] at hd
    cases hd
    rw [hout', taken, List.length_map, hlen hs]
    exact hpos
  · intro j hj hact d hd hs
    rw [hset, if_neg (Ne.symm hj)] at hd
    exact hact d hd hs
  · have hrem : ((c.remaining ord st s.indexDbi s.f).take limit).map Entry.rank ++
        (c'.remaining ord st s.indexDbi s.f).map Entry.rank =
        (c.remaining ord st s.indexDbi s.f).map Entry.rank := by
      rw [hdrop, ← List.map_append, List.take_append_drop]
    have hq : (queue.map CandidateEvent.rank).Perm (s.eventQueue.map CandidateEvent.rank ++
        ((c.remaining ord st s.indexDbi s.f).take limit).map Entry.rank) := by
      rw [← rank_taken (i := i) hst, ← List.map_append]
      exact hperm.map _
    refine (hq.append_right _).trans ?_
    rw [List.append_assoc]
    exact (perm_flatMap_set hc (List.Perm.of_eq hrem)).append_left _
  · intro habove j d hd x hx hxj e he
    rw [hset] at hd
    rcases List.mem_append.1 (hperm.mem_iff.1 hx) with hx | hx
    · have hij : i ≠ j := by
        rintro rfl
        have hcnt : 0 < s.eventQueue.countP fun x => x.scanIndex = i :=
          List.countP_pos_iff.2 ⟨x, hx, decide_eq_true hxj⟩
        rw [← hcore.count i c hc, hzero] at hcnt
        exact lt_irrefl 0 hcnt
      rw [if_neg hij] at hd
      exact habove j d hd x hx hxj e he
    · obtain ⟨hxi, e₁, he₁, hrank⟩ := mem_taken hst hx hi
      rw [if_pos (hxi.symm.trans hxj)] at hd
      cases hd
      -- what is taken comes before what is left
      have hpair : (c.remaining ord st s.indexDbi s.f).Pairwise fun a b => b.rank < a.rank :=
        rank_remaining
      rw [← List.take_append_drop limit (c.remaining ord st s.indexDbi s.f),
        List.pairwise_append] at hpair
      rw [hrank]
      exact hpair.2.2 e₁ he₁ e (hdrop ▸ he)

end Refill

/-! ## Iterations -/

section Iter

variable {S : StdSort} {ord : IndexOrder} {st : Store} {s : DBScan}

/-- A cursor that is still to be initialised has nothing in the queue. -/
theorem Core.outstanding_eq_zero (h : s.Core ord) {c : ScanCursor}
    (hc : s.cursors[s.nextInitIndex]? = some c) : c.outstanding = 0 := by
  rw [h.count _ c hc, List.countP_eq_zero]
  intro x hx hxi
  exact (h.queued x hx).ne (of_decide_eq_true hxi)

/-- Initialising a cursor leaves what is pending as it is. -/
theorem initStep_spec (S : StdSort) (hst : SnapshotOk st) (hexact : s.Exact st)
    (hinv : s.ScanInv ord) (hlt : s.nextInitIndex < s.cursors.length) :
    ∃ s', s.initStep S ord st = some s' ∧ s'.ScanInv ord ∧ SamePlan s s' ∧
      s'.nextInitIndex = s.nextInitIndex + 1 ∧
      (s'.pending ord st).Perm (s.pending ord st) ∧
      (s.OrderInv ord st → s'.OrderInv ord st) := by
  have hc := List.getElem?_eq_getElem hlt
  obtain ⟨c', hcol, -, hspec⟩ := collectAt_spec hst hexact hinv.toCore hc
    (hinv.toCore.outstanding_eq_zero hc) s.initialScanDepth_pos
    (by unfold initialScanDepth; omega)
  have hperm : (if s.nextInitIndex + 1 = s.cursors.length then
      S.sort CandidateEvent.cmp (s.eventQueue ++ s.taken ord st s.cursors[s.nextInitIndex]
        s.nextInitIndex s.initialScanDepth)
      else s.eventQueue ++ s.taken ord st s.cursors[s.nextInitIndex] s.nextInitIndex
        s.initialScanDepth).Perm
      (s.eventQueue ++ s.taken ord st s.cursors[s.nextInitIndex] s.nextInitIndex
        s.initialScanDepth) := by
    split_ifs
    · exact S.perm _ _
    · exact List.Perm.refl _
  obtain ⟨hcore, hplan, hact, hactj, hpend, habove⟩ := hspec _ (s.nextInitIndex + 1) hperm
    (Nat.le_succ _) (Nat.lt_succ_self _) hlt
  refine ⟨_, by rw [initStep, hcol]; rfl, ⟨hcore, ?_⟩, hplan, rfl, hpend,
    fun hord => ⟨?_, habove hord.above⟩⟩
  · intro j hj
    by_cases hji : j = s.nextInitIndex
    · exact hji ▸ hact
    · exact hactj j hji (hinv.active j (lt_of_le_of_ne (Nat.le_of_lt_succ hj) hji))
  · intro hlen
    have hlen' : s.nextInitIndex + 1 = s.cursors.length := by
      simpa only [List.length_set] using hlen
    show SortedBy CandidateEvent.cmp (if _ then _ else _)
    rw [if_pos hlen']
    exact S.sorted _ CandidateEvent.strictWeak_cmp _

/-- A scan after its head has been taken off the queue, before a refill. -/
def popped (s : DBScan) (rest : List CandidateEvent) (i : Nat) (c : ScanCursor) : DBScan :=
  { s with
    eventQueue := rest
    cursors := s.cursors.set i
      { c with outstanding := rest.countP fun x => x.scanIndex = i } }

theorem popped_spec (st : Store) (hinv : s.ScanInv ord) {ev : CandidateEvent} {rest : List CandidateEvent}
    (hq : s.eventQueue = ev :: rest) {c : ScanCursor} (hc : s.cursors[ev.scanIndex]? = some c) :
    (s.popped rest ev.scanIndex c).Core ord ∧ SamePlan s (s.popped rest ev.scanIndex c) ∧
      (∀ j, j ≠ ev.scanIndex → s.ActiveAt j → (s.popped rest ev.scanIndex c).ActiveAt j) ∧
      (s.pending ord st).Perm (ev.rank :: (s.popped rest ev.scanIndex c).pending ord st) ∧
      (s.Above ord st → (s.popped rest ev.scanIndex c).Above ord st) := by
  obtain ⟨hlt, hget⟩ := List.getElem?_eq_some_iff.1 hc
  have hset : ∀ j, (s.popped rest ev.scanIndex c).cursors[j]? = if ev.scanIndex = j then
      some { c with outstanding := rest.countP fun x => x.scanIndex = ev.scanIndex }
      else s.cursors[j]? := by
    intro j
    show (s.cursors.set _ _)[j]? = _
    rw [List.getElem?_set]
    split_ifs <;> rfl
  have hle : rest.countP (fun x => x.scanIndex = ev.scanIndex) ≤ c.outstanding := by
    rw [hinv.count _ c hc, hq]
    exact List.Sublist.countP_le (List.sublist_cons_self ev rest)
  refine ⟨⟨?_, ?_, ?_, ?_, ?_, ?_⟩, ⟨rfl, rfl, rfl, ?_⟩, ?_, ?_, ?_⟩
  · intro d hd
    rcases List.mem_or_eq_of_mem_set hd with hd | rfl
    · exact hinv.ok d hd
    · exact ⟨(hinv.ok c (List.mem_of_getElem? hc)).posOk⟩
  · rw [popped, List.length_set]
    exact hinv.few
  · rw [popped, List.length_set]
    exact hinv.init_le
  · intro x hx
    exact hinv.queued x (hq ▸ List.mem_cons_of_mem _ hx)
  · intro j d hd
    rw [hset] at hd
    split_ifs at hd with hij
    · cases hd
      rw [hij]
      rfl
    · rw [hinv.count j d hd, hq, List.countP_cons_of_neg (by simpa using hij)]
      rfl
  · intro d hd
    rcases List.mem_or_eq_of_mem_set hd with hd | rfl
    · exact hinv.small d hd
    · exact hle.trans (hinv.small c (List.mem_of_getElem? hc))
  · show (s.cursors.set _ _).map ScanCursor.search = _
    exact ScanCursor.map_search_set hc rfl
  · intro j hj hact d hd hs
    rw [hset, if_neg (Ne.symm hj)] at hd
    exact hact d hd hs
  · have hcur := perm_flatMap_set (t := []) hc
      (g := fun c => (c.remaining ord st s.indexDbi s.f).map Entry.rank)
      (b := { c with outstanding := rest.countP fun x => x.scanIndex = ev.scanIndex })
      (List.Perm.refl _)
    rw [pending, hq, List.map_cons, List.cons_append]
    exact (hcur.symm.append_left _).cons _
  · intro habove j d hd x hx hxj e he
    rw [hset] at hd
    have hx' : x ∈ s.eventQueue := hq ▸ List.mem_cons_of_mem _ hx
    split_ifs at hd with hij
    · cases hd
      exact habove j c (hij ▸ hc) x hx' hxj e he
    · exact habove j d hd x hx' hxj e he

/-- Taking the head off the queue removes it from what is pending. -/
theorem settle_spec (hst : SnapshotOk st) (hexact : s.Exact st) (hinv : s.ScanInv ord)
    (hnext : s.nextInitIndex = s.cursors.length) {ev : CandidateEvent}
    {rest : List CandidateEvent} (hq : s.eventQueue = ev :: rest) :
    ∃ s', { s with eventQueue := rest }.settle ord st ev.scanIndex = some s' ∧ s'.ScanInv ord ∧
      SamePlan s s' ∧ s'.nextInitIndex = s.nextInitIndex ∧
      (s.pending ord st).Perm (ev.rank :: s'.pending ord st) ∧
      (s.OrderInv ord st → s'.OrderInv ord st) := by
  have hlt : ev.scanIndex < s.nextInitIndex :=
    hinv.queued ev (by rw [hq]; exact List.mem_cons_self)
  obtain ⟨c, hc⟩ : ∃ c, s.cursors[ev.scanIndex]? = some c :=
    ⟨_, List.getElem?_eq_getElem (hnext ▸ hlt)⟩
  have hcount := hinv.count _ c hc
  rw [hq, List.countP_cons_of_pos (by simp)] at hcount
  have hsmall := hinv.small c (List.mem_of_getElem? hc)
  have hout : (c.outstanding + (2 ^ 64 - 1)) % 2 ^ 64 =
      rest.countP fun x => x.scanIndex = ev.scanIndex := by omega
  obtain ⟨hcore, hplan, hactj, hpend, habove⟩ := popped_spec st hinv hq hc
  have hsorted : s.OrderInv ord st → SortedBy CandidateEvent.cmp rest := by
    intro hord
    have := hord.sorted hnext
    rw [hq] at this
    exact (List.pairwise_cons.1 this).2
  unfold settle
  simp only [hc, hout]
  by_cases hzero : (rest.countP fun x => x.scanIndex = ev.scanIndex) = 0
  · -- the cursor has no entry left in the queue and collects more
    have hc' : (s.popped rest ev.scanIndex c).cursors[ev.scanIndex]? =
        some { c with outstanding := rest.countP fun x => x.scanIndex = ev.scanIndex } := by
      show (s.cursors.set _ _)[ev.scanIndex]? = _
      rw [List.getElem?_set_self (hnext ▸ hlt)]
    have hpos : 0 < (s.popped rest ev.scanIndex c).refillScanDepth := by
      have := (s.popped rest ev.scanIndex c).initialScanDepth_pos
      unfold refillScanDepth
      omega
    obtain ⟨c', hcol, -, hspec⟩ := collectAt_spec hst (hexact.samePlan hplan) hcore hc' hzero hpos
      (refillScanDepth_le _)
    obtain ⟨hcore', hplan', hact', hactj', hpend', habove'⟩ := hspec
      (stdMerge CandidateEvent.cmp rest _) s.nextInitIndex (stdMerge_perm _ _) le_rfl hlt
      (by rw [popped, List.length_set]; exact hinv.init_le)
    rw [if_pos hzero]
    change ∃ s', ((s.popped rest ev.scanIndex c).collectAt ord st ev.scanIndex
      (s.popped rest ev.scanIndex c).refillScanDepth).map _ = some s' ∧ _
    rw [hcol]
    refine ⟨_, rfl, ⟨hcore', ?_⟩, hplan.trans hplan', rfl,
      hpend.trans (hpend'.symm.cons _), fun hord => ⟨?_, habove' (habove hord.above)⟩⟩
    · intro j hj
      by_cases hji : j = ev.scanIndex
      · exact hji ▸ hact'
      · exact hactj' j hji (hactj j hji (hinv.active j hj))
    · intro _
      exact stdMerge_sorted CandidateEvent.strictWeak_cmp (hsorted hord) (sorted_taken hst)
  · rw [if_neg hzero]
    refine ⟨_, rfl, ⟨hcore, ?_⟩, hplan, rfl, hpend, fun hord => ⟨fun _ => hsorted hord,
      habove hord.above⟩⟩
    intro j hj
    by_cases hji : j = ev.scanIndex
    · subst hji
      intro d hd _
      change (s.cursors.set _ _)[ev.scanIndex]? = some d at hd
      rw [List.getElem?_set_self (hnext ▸ hlt)] at hd
      cases hd
      exact Nat.pos_of_ne_zero hzero
    · exact hactj j hji (hinv.active j hj)

/-- On a fixed snapshot the head of the queue has the greatest rank of what is pending. -/
theorem rank_le_head (hinv : s.ScanInv ord) (hord : s.OrderInv ord st)
    (hnext : s.nextInitIndex = s.cursors.length) {ev : CandidateEvent}
    {rest : List CandidateEvent} (hq : s.eventQueue = ev :: rest) {k : Nat ×ₗ Nat}
    (hk : k ∈ s.pending ord st) : k ≤ ev.rank := by
  have hqueue : ∀ x ∈ s.eventQueue, x.rank ≤ ev.rank := by
    have hsorted := hord.sorted hnext
    rw [hq] at hsorted ⊢
    intro x hx
    rcases List.mem_cons.1 hx with rfl | hx
    · exact le_rfl
    · have := (List.pairwise_cons.1 hsorted).1 x hx
      rwa [CandidateEvent.cmp_eq, decide_eq_false_iff_not, not_lt] at this
  rcases List.mem_append.1 hk with hk | hk
  · obtain ⟨x, hx, rfl⟩ := List.mem_map.1 hk
    exact hqueue x hx
  · obtain ⟨c, hc, hk⟩ := List.mem_flatMap.1 hk
    obtain ⟨e, he, rfl⟩ := List.mem_map.1 hk
    obtain ⟨i, hi, hget⟩ := List.mem_iff_getElem.1 hc
    have hget? : s.cursors[i]? = some c := by rw [List.getElem?_eq_getElem hi, hget]
    -- a cursor with entries ahead is active, so it has one in the queue, which is above them
    have hsome : c.resume.isSome = true := by
      obtain ⟨-, -, pos, hpos, -⟩ := mem_remaining.1 he
      rw [hpos]
      rfl
    have hpos := hinv.active i (hnext ▸ hi) c hget? hsome
    rw [hinv.count i c hget?, List.countP_pos_iff] at hpos
    obtain ⟨x, hx, hxi⟩ := hpos
    exact (hord.above i c hget? x hx (of_decide_eq_true hxi) e he).le.trans (hqueue x hx)

/-- With an empty queue and all cursors initialised, nothing is pending. -/
theorem pending_eq_nil (hinv : s.ScanInv ord) (hnext : s.nextInitIndex = s.cursors.length)
    (hq : s.eventQueue = []) : s.pending ord st = [] := by
  rw [pending, hq, List.map_nil, List.nil_append, List.flatMap_eq_nil_iff]
  intro c hc
  obtain ⟨i, hi, hget⟩ := List.mem_iff_getElem.1 hc
  have hget? : s.cursors[i]? = some c := by rw [List.getElem?_eq_getElem hi, hget]
  cases hr : c.resume with
  | none => rw [ScanCursor.remaining, hr, remaining, List.map_nil]
  | some pos =>
    have hpos := hinv.active i (hnext ▸ hi) c hget? (by rw [hr]; rfl)
    rw [hinv.count i c hget?, hq, List.countP_nil] at hpos
    exact absurd hpos (lt_irrefl 0)

/-- What an iteration does: it initialises a cursor, finds the queue empty, stops at an event, or
hands out an event and goes on. -/
inductive IterSpec {σ : Type} (ord : IndexOrder) (st : Store) (handleEvent : σ → Nat → Bool × σ)
    (s : DBScan) (state : σ) : Iter σ → Prop
  | init (s' : DBScan) : s.nextInitIndex < s.cursors.length → s'.ScanInv ord → SamePlan s s' →
      s'.nextInitIndex = s.nextInitIndex + 1 → (s'.pending ord st).Perm (s.pending ord st) →
      (s.OrderInv ord st → s'.OrderInv ord st) →
      IterSpec ord st handleEvent s state (.next s' state)
  | empty : s.pending ord st = [] → IterSpec ord st handleEvent s state (.done state)
  | stop (ev : CandidateEvent) (rest : List CandidateEvent) (state' : σ) :
      s.nextInitIndex = s.cursors.length → s.eventQueue = ev :: rest → s.doSend st ev = true →
      handleEvent state ev.levId = (true, state') →
      IterSpec ord st handleEvent s state (.done state')
  | pop (ev : CandidateEvent) (rest : List CandidateEvent) (s' : DBScan) (state' : σ) :
      s.nextInitIndex = s.cursors.length → s.eventQueue = ev :: rest →
      (if s.doSend st ev then handleEvent state ev.levId else (false, state)) = (false, state') →
      s'.ScanInv ord → SamePlan s s' → s'.nextInitIndex = s.nextInitIndex →
      (s.pending ord st).Perm (ev.rank :: s'.pending ord st) →
      (s.OrderInv ord st → s'.OrderInv ord st) →
      IterSpec ord st handleEvent s state (.next s' state')

theorem iter_spec {σ : Type} (S : StdSort) (hst : SnapshotOk st) (hexact : s.Exact st)
    (hinv : s.ScanInv ord) (handleEvent : σ → Nat → Bool × σ) (state : σ) :
    IterSpec ord st handleEvent s state (s.iter S ord st handleEvent state) := by
  unfold iter
  by_cases hlt : s.nextInitIndex < s.cursors.length
  · obtain ⟨s', hs', hinv', hplan, hnext, hpend, hord⟩ := initStep_spec S hst hexact hinv hlt
    rw [if_pos hlt, hs']
    exact .init s' hlt hinv' hplan hnext hpend hord
  · have hnext : s.nextInitIndex = s.cursors.length := le_antisymm hinv.init_le (not_lt.1 hlt)
    rw [if_neg hlt]
    cases hq : s.eventQueue with
    | nil => exact .empty (pending_eq_nil hinv hnext hq)
    | cons ev rest =>
      obtain ⟨s', hs', hinv', hplan, hn, hpend, hord⟩ := settle_spec hst hexact hinv hnext hq
      cases hr : (if s.doSend st ev then handleEvent state ev.levId else (false, state)) with
      | mk stop state' =>
        cases stop with
        | true =>
          have hsend : s.doSend st ev = true := by
            by_contra hns
            rw [if_neg hns] at hr
            cases hr
          rw [if_pos hsend] at hr
          simp only [hsend, if_true, hr]
          exact .stop ev rest state' hnext hq hsend hr
        | false =>
          simp only [hr, hs', Bool.false_eq_true, if_false]
          exact .pop ev rest s' state' hnext hq hr hinv' hplan hn hpend hord

end Iter

end DBScan

end Strfry
