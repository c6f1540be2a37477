import Strfry.ScanPlan

/-!
# Successive calls of `collect`

A scan calls `collect` on a cursor again and again, with limits of its own choosing. Together the calls
deliver the entries ahead of the cursor, in descending order, up to the sum of the limits
(`collectCalls_deliver`): where a call stops, the next one continues. The cursors are those that the
constructor of `DBScan` makes, and those that earlier calls left, on this snapshot or on others.
-/

set_option autoImplicit false

namespace Strfry

open Lib DBScan

/-- The entry `a` comes before `b`: it is newer, or has the same timestamp and the larger levId. -/
def Newer (a b : Entry Bytes) : Prop := b.num < a.num ∨ (b.num = a.num ∧ b.val < a.val)

namespace ScanCursor

/-- The cursors of a scan for `f`. -/
inductive Reached (ord : IndexOrder) (f : NostrFilter) : ScanCursor → Prop
  | start {search : Bytes} (hsearch : search ∈ (plan f).2.2) : Reached ord f (start search)
  | collect {st : Store} {scanIndex limit : Nat} {c c' : ScanCursor} {out : List CandidateEvent}
      (h : Reached ord f c) (hid : ∀ r ∈ st.event.rows, 0 < r.1)
      (call : c.collect ord st f (plan f).1 scanIndex limit = some (out, c')) : Reached ord f c'
  | settle {c : ScanCursor} (h : Reached ord f c) (outstanding : Nat) :
      Reached ord f { c with outstanding := outstanding }

/-- The entry is in the index, under the prefix of the cursor, in the range of the filter, and not before
the position of the cursor. -/
def Ahead (ord : IndexOrder) (st : Store) (f : NostrFilter) (c : ScanCursor) (e : Entry Bytes) : Prop :=
  e ∈ st.index (plan f).1 ∧ keyMatch (plan f).1 c.search (e.key ++ le64 e.num) = true ∧
    (f.since ≤ e.num ∧ (f.until_ = 0 ∨ e.num ≤ f.until_)) ∧
    ∃ pos, c.resume = some pos ∧ EntryLe ord (plan f).1 e pos

/-- Calls of `collect` with the given limits: what each appends, and the cursor after it. -/
def collectCalls (ord : IndexOrder) (st : Store) (f : NostrFilter) (scanIndex : Nat) :
    List Nat → ScanCursor → Option (List (List CandidateEvent × ScanCursor))
  | [], _ => some []
  | limit :: limits, c => do
    let r ← c.collect ord st f (plan f).1 scanIndex limit
    let rest ← collectCalls ord st f scanIndex limits r.2
    some (r :: rest)

section Reached

variable {ord : IndexOrder} {st : Store} {f : NostrFilter} {c : ScanCursor}

/-- No cursor is past its prefix. -/
theorem Reached.ok (hf : f.WF) (h : Reached ord f c) : c.Ok ord (plan f).1 ∧ c.search ∈ (plan f).2.2 := by
  induction h with
  | start hsearch =>
    refine ⟨⟨?_⟩, hsearch⟩
    intro pos hpos
    cases hpos
    exact .refl _
  | @collect st scanIndex limit c c' out h hid call ih =>
    obtain ⟨hok, hsearch⟩ := ih
    obtain ⟨c₁, call', hok', hsearch', -⟩ :=
      collect_spec (f := f) hid c hok (keyExact_plan hf st hsearch) scanIndex limit
    rw [call] at call'
    cases call'
    exact ⟨hok', hsearch' ▸ hsearch⟩
  | settle h outstanding ih => exact ⟨⟨ih.1.posOk⟩, ih.2⟩

theorem mem_remaining_iff (hf : f.WF) (hsearch : c.search ∈ (plan f).2.2) (e : Entry Bytes) :
    e ∈ c.remaining ord st (plan f).1 f ↔ Ahead ord st f c e := by
  rw [ScanCursor.remaining, Strfry.mem_remaining, Strfry.Due, Wanted, InRange, Ahead]
  constructor
  · rintro ⟨he, ⟨hkey, hrange⟩, hpos⟩
    exact ⟨he, (keyExact_plan hf st hsearch e he).mpr hkey, hrange, hpos⟩
  · rintro ⟨he, hmatch, hrange, hpos⟩
    exact ⟨he, ⟨(keyExact_plan hf st hsearch e he).mp hmatch, hrange⟩, hpos⟩

/-- The entries ahead of a cursor have one string part, so time and levId order them. -/
theorem pairwise_newer_remaining : (c.remaining ord st (plan f).1 f).Pairwise Newer := by
  refine List.Pairwise.imp_of_mem (fun {a b} ha hb hab => ?_) Strfry.pairwise_remaining
  have hkey : b.key = a.key :=
    (Strfry.mem_remaining.mp hb).2.1.1.trans (Strfry.mem_remaining.mp ha).2.1.1.symm
  rcases (entryLe_iff_of_key_eq hkey).mp hab.1 with hlt | ⟨heq, hle⟩
  · exact Or.inl hlt
  · refine Or.inr ⟨heq, lt_of_le_of_ne hle fun hval => hab.2 ?_⟩
    cases a
    cases b
    simp only at hkey heq hval
    rw [hkey, heq, hval]

/-- At its start a cursor has all entries under its prefix ahead. -/
theorem ahead_start_iff (hf : f.WF) {search : Bytes} (hsearch : search ∈ (plan f).2.2) (e : Entry Bytes) :
    Ahead ord st f (start search) e ↔ e ∈ st.index (plan f).1 ∧
      keyMatch (plan f).1 search (e.key ++ le64 e.num) = true ∧
      (f.since ≤ e.num ∧ (f.until_ = 0 ∨ e.num ≤ f.until_)) := by
  refine ⟨fun h => ⟨h.1, h.2.1, h.2.2.1⟩, fun h => ⟨h.1, h.2.1, h.2.2, _, rfl, ?_⟩⟩
  have hkey : e.key = search := (keyExact_plan hf st hsearch e h.1).mp h.2.1
  rw [entryLe_iff_of_key_eq hkey]
  obtain ⟨levId, p, -, hk, -⟩ := Store.mem_index.mp h.1
  have hcreated : e.num = p.createdAt := PackedEvent.num_of_mem_indexKeys hk
  have hnum : e.num ≤ maxU64 := by
    rw [hcreated]
    exact Nat.le_sub_one_of_lt p.createdAt_lt
  exact (lt_or_eq_of_le hnum).imp_right fun heq => ⟨heq, le_top⟩

/-- What a sequence of calls delivers. -/
structure Delivers (ahead : List (Entry Bytes)) (limits : List Nat)
    (calls : List (List (Entry Bytes) × ScanCursor)) : Prop where
  /-- The calls append the entries ahead, as far as the limits allow. -/
  taken : (calls.map Prod.fst).flatten = ahead.take limits.sum
  /-- A call that adds fewer entries than its limit leaves the cursor inactive. -/
  short : List.Forall₂ (fun limit call => call.1.length ≤ limit ∧
    (call.1.length < limit → call.2.resume = none)) limits calls
  /-- When a cursor is inactive, all entries have been delivered. -/
  done : ∀ k call, calls[k]? = some call → call.2.resume = none →
    ((calls.take (k + 1)).map Prod.fst).flatten = ahead

/-- One call more, in front of the others. -/
theorem Delivers.cons {ahead : List (Entry Bytes)} {limit : Nat} {limits : List Nat} {c' : ScanCursor}
    {calls : List (List (Entry Bytes) × ScanCursor)} (h : Delivers (ahead.drop limit) limits calls)
    (hlen : c'.resume.isSome = true → (ahead.take limit).length = limit)
    (hnone : c'.resume = none → ahead.drop limit = []) :
    Delivers ahead (limit :: limits) ((ahead.take limit, c') :: calls) where
  taken := by
    rw [List.map_cons, List.flatten_cons, h.taken, List.sum_cons, List.take_add]
  short := by
    refine .cons ⟨List.length_take_le limit ahead, fun hlt => ?_⟩ h.short
    cases hres : c'.resume with
    | none => rfl
    | some pos => exact absurd (hlen (by rw [hres]; rfl)) hlt.ne
  done := by
    intro k call hk hres
    rw [List.take_succ_cons, List.map_cons, List.flatten_cons]
    cases k with
    | zero =>
      cases hk
      rw [List.take_zero, List.map_nil, List.flatten_nil, List.append_nil]
      exact (List.append_nil _).symm.trans (hnone hres ▸ List.take_append_drop limit ahead)
    | succ k =>
      rw [h.done k call hk hres, List.take_append_drop]

/-- The calls return, and deliver the entries ahead of the cursor in descending order; at its start a cursor
has all entries under its prefix ahead. -/
def CallsDeliver (ord : IndexOrder) (st : Store) (f : NostrFilter) (scanIndex : Nat) (limits : List Nat)
    (c : ScanCursor) : Prop :=
  ∃ (ahead : List (Entry Bytes)) (calls : List (List (Entry Bytes) × ScanCursor)),
    (∀ e, e ∈ ahead ↔ Ahead ord st f c e) ∧
    (c = start c.search → ∀ e, e ∈ ahead ↔ e ∈ st.index (plan f).1 ∧
      keyMatch (plan f).1 c.search (e.key ++ le64 e.num) = true ∧
      (f.since ≤ e.num ∧ (f.until_ = 0 ∨ e.num ≤ f.until_))) ∧
    ahead.Pairwise Newer ∧
    collectCalls ord st f scanIndex limits c =
      some (calls.map fun r => (r.1.map fun e => .make e.row e.num scanIndex, r.2)) ∧
    Delivers ahead limits calls

theorem collectCalls_deliver {g : NostrFilterGroup} (hf : f ∈ g.filters)
    (hid : ∀ r ∈ st.event.rows, 0 < r.1) (hc : Reached ord f c) (scanIndex : Nat) (limits : List Nat) :
    CallsDeliver ord st f scanIndex limits c := by
  have hwf := g.wf f hf
  refine ⟨c.remaining ord st (plan f).1 f, ?_⟩
  have hrun : ∃ calls : List (List (Entry Bytes) × ScanCursor),
      collectCalls ord st f scanIndex limits c =
        some (calls.map fun r => (r.1.map fun e => .make e.row e.num scanIndex, r.2)) ∧
      Delivers (c.remaining ord st (plan f).1 f) limits calls := by
    induction limits generalizing c with
    | nil => exact ⟨[], rfl, rfl, .nil, fun k call hk => by cases hk⟩
    | cons limit limits ih =>
      obtain ⟨hok, hsearch⟩ := hc.ok hwf
      obtain ⟨c', call, -, -, hdrop, -, -, hlen⟩ :=
        collect_spec (f := f) hid c hok (keyExact_plan hwf st hsearch) scanIndex limit
      obtain ⟨calls, hcalls, hdelivers⟩ := ih (hc.collect hid call)
      rw [hdrop] at hdelivers
      refine ⟨_, ?_, hdelivers.cons hlen fun hnone => ?_⟩
      · rw [collectCalls, call]
        simp only [hcalls, Option.bind_eq_bind, Option.bind_some, List.map_cons]
      · rw [← hdrop, ScanCursor.remaining, hnone]
        rfl
  obtain ⟨calls, hcalls, hdelivers⟩ := hrun
  have hmem : ∀ e, e ∈ c.remaining ord st (plan f).1 f ↔ Ahead ord st f c e :=
    mem_remaining_iff hwf (hc.ok hwf).2
  refine ⟨calls, hmem, fun hstart e => ?_, pairwise_newer_remaining, hcalls, hdelivers⟩
  rw [hmem, ← ahead_start_iff hwf (hc.ok hwf).2, ← hstart]

end Reached

/-- A store with four notes, two of them of one second. -/
def fourNotes : Store where
  event := ([(1, 20), (2, 30), (3, 20), (4, 10)] : List (UInt8 × UInt64)).foldl
    (fun t r => (t.insertNext (repeatedEvent r.1 9 r.2 1)).2) Table.empty
  eventPayload := Table.empty

theorem collectCalls_deliver_fourNotes :
    (collectCalls byteOrder fourNotes { limit := 10, indexOnlyScans := true } 0 [1, 0, 2, 5] (start [])).map
        (fun calls => calls.map fun r => r.1.map CandidateEvent.levId) = some [[2], [], [3, 1], [4]] ∧
      CallsDeliver byteOrder fourNotes { limit := 10, indexOnlyScans := true } 0 [1, 0, 2, 5] (start []) :=
  ⟨by decide +kernel, collectCalls_deliver (g := .unrestricted 10) (List.mem_singleton_self _) (by decide +kernel)
    (.start (List.mem_singleton_self _)) 0 [1, 0, 2, 5]⟩

end ScanCursor

end Strfry
