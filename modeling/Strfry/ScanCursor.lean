import Strfry.DBQuery

/-!
# What a cursor collects

`remaining` are the entries that a cursor has still to deliver: those at or below its position that
have its string part and a timestamp in the range of the filter, in descending order. `collect`
takes the next `limit` of them and leaves the others (`ScanCursor.collect_spec`). The jumps to
`until` and below `since` skip entries that are not among them, and the loop of `collect` ends
after at most three rounds.

A position outlives the snapshot it was taken in. `Due` says which entries, of any snapshot, are
still ahead of a cursor; `collect` only moves it forward.
-/

set_option autoImplicit false

namespace Strfry

open Lib

/-! ## The order of an index -/

/-- The order of the entries of an index. -/
def EntryLe (ord : IndexOrder) (i : QueryIndex) (a b : Entry Bytes) : Prop :=
  (@Entry.instLinearOrder _ (ord i)).le a b

/-- The order of the string parts of an index. -/
def KeyLe (ord : IndexOrder) (i : QueryIndex) (a b : Bytes) : Prop := (ord i).le a b

section Order

variable {ord : IndexOrder} {i : QueryIndex} {a b c : Entry Bytes}

theorem EntryLe.refl (a : Entry Bytes) : EntryLe ord i a a :=
  (@Entry.instLinearOrder _ (ord i)).le_refl a

theorem EntryLe.trans (hab : EntryLe ord i a b) (hbc : EntryLe ord i b c) : EntryLe ord i a c :=
  (@Entry.instLinearOrder _ (ord i)).le_trans a b c hab hbc

theorem EntryLe.antisymm (hab : EntryLe ord i a b) (hba : EntryLe ord i b a) : a = b :=
  (@Entry.instLinearOrder _ (ord i)).le_antisymm a b hab hba

theorem EntryLe.total (ord : IndexOrder) (i : QueryIndex) (a b : Entry Bytes) :
    EntryLe ord i a b ∨ EntryLe ord i b a :=
  (@Entry.instLinearOrder _ (ord i)).le_total a b

theorem EntryLe.keyLe (h : EntryLe ord i a b) : KeyLe ord i a.key b.key :=
  @Entry.key_le_of_le _ (ord i) a b h

theorem KeyLe.trans {k l m : Bytes} (hkl : KeyLe ord i k l) (hlm : KeyLe ord i l m) :
    KeyLe ord i k m :=
  (ord i).le_trans k l m hkl hlm

theorem KeyLe.antisymm {k l : Bytes} (hkl : KeyLe ord i k l) (hlk : KeyLe ord i l k) : k = l :=
  (ord i).le_antisymm k l hkl hlk

theorem KeyLe.refl (k : Bytes) : KeyLe ord i k k := (ord i).le_refl k

theorem entryLe_iff_of_key_eq (h : a.key = b.key) :
    EntryLe ord i a b ↔ a.num < b.num ∨ (a.num = b.num ∧ a.val ≤ b.val) :=
  @Entry.le_iff_of_key_eq _ (ord i) a b h

variable {st : Store} {pos e : Entry Bytes}

theorem mem_foreachFull :
    e ∈ foreachFull ord st i pos ↔ e ∈ st.index i ∧ EntryLe ord i e pos :=
  @mem_descFrom _ (@Entry.instLinearOrder _ (ord i)) _ _ _

/-- Entries are visited in strictly descending order. -/
theorem pairwise_foreachFull (ord : IndexOrder) (st : Store) (i : QueryIndex) (pos : Entry Bytes) :
    (foreachFull ord st i pos).Pairwise fun a b => EntryLe ord i b a ∧ a ≠ b := by
  let _ := @Entry.instLinearOrder _ (ord i)
  exact (pairwise_descFrom (st.index i) pos).imp fun h => ⟨le_of_lt h, ne_of_gt h⟩

theorem eq_of_pairwise_entry {xs ys : List (Entry Bytes)}
    (hx : xs.Pairwise fun a b => EntryLe ord i b a ∧ a ≠ b)
    (hy : ys.Pairwise fun a b => EntryLe ord i b a ∧ a ≠ b) (h : ∀ e, e ∈ xs ↔ e ∈ ys) :
    xs = ys := by
  let _ := @Entry.instLinearOrder _ (ord i)
  have hgt : ∀ {zs : List (Entry Bytes)},
      zs.Pairwise (fun a b => EntryLe ord i b a ∧ a ≠ b) → zs.Pairwise (· > ·) :=
    fun hz => hz.imp fun hab => lt_of_le_of_ne hab.1 hab.2.symm
  exact eq_of_pairwise_gt (hgt hx) (hgt hy) h

/-- What is visited after some entries is what is visited from the next entry on. -/
theorem foreachFull_of_append {pre post : List (Entry Bytes)}
    (h : foreachFull ord st i pos = pre ++ e :: post) :
    foreachFull ord st i e = e :: post := by
  have hs := pairwise_foreachFull ord st i pos
  rw [h, List.pairwise_append, List.pairwise_cons] at hs
  obtain ⟨-, hpost, hpre⟩ := hs
  refine eq_of_pairwise_entry (pairwise_foreachFull ord st i e) (List.pairwise_cons.2 hpost) ?_
  intro x
  have hmem : ∀ y, y ∈ pre ++ e :: post ↔ y ∈ st.index i ∧ EntryLe ord i y pos := by
    intro y
    rw [← h, mem_foreachFull]
  rw [mem_foreachFull]
  constructor
  · rintro ⟨hx, hle⟩
    have hepos : EntryLe ord i e pos := ((hmem e).1 (by simp)).2
    rcases List.mem_append.1 ((hmem x).2 ⟨hx, hle.trans hepos⟩) with hxp | hxp
    · have := hpre x hxp e (by simp)
      exact absurd (hle.antisymm this.1) this.2
    · exact hxp
  · intro hx
    refine ⟨((hmem x).1 (List.mem_append_right _ hx)).1, ?_⟩
    rcases List.mem_cons.1 hx with rfl | hx
    · exact .refl _
    · exact (hpost.1 x hx).1

end Order

/-! ## Entries ahead of a cursor -/

/-- The timestamps that `collect` does not skip. -/
def InRange (f : NostrFilter) (n : Nat) : Prop :=
  f.since ≤ n ∧ (f.until_ = 0 ∨ n ≤ f.until_)

instance (f : NostrFilter) (n : Nat) : Decidable (InRange f n) :=
  inferInstanceAs (Decidable (_ ∧ _))

/-- The entry is one that a cursor with this string looks for. -/
def Wanted (f : NostrFilter) (search : Bytes) (e : Entry Bytes) : Prop :=
  e.key = search ∧ InRange f e.num

instance (f : NostrFilter) (search : Bytes) (e : Entry Bytes) : Decidable (Wanted f search e) :=
  inferInstanceAs (Decidable (_ ∧ _))

/-- The entry, if it is in the index, is still to be delivered. -/
def Due (ord : IndexOrder) (i : QueryIndex) (f : NostrFilter) (search : Bytes)
    (resume : Option (Entry Bytes)) (e : Entry Bytes) : Prop :=
  Wanted f search e ∧ ∃ pos, resume = some pos ∧ EntryLe ord i e pos

/-- The entries of a snapshot that are still to be delivered. -/
def remaining (ord : IndexOrder) (st : Store) (i : QueryIndex) (f : NostrFilter) (search : Bytes) :
    Option (Entry Bytes) → List (Entry Bytes)
  | none => []
  | some pos => (foreachFull ord st i pos).filter fun e => Wanted f search e

section Remaining

variable {ord : IndexOrder} {st : Store} {i : QueryIndex} {f : NostrFilter} {search : Bytes}
  {resume : Option (Entry Bytes)} {e : Entry Bytes}

theorem mem_remaining :
    e ∈ remaining ord st i f search resume ↔ e ∈ st.index i ∧ Due ord i f search resume e := by
  cases resume with
  | none => simp [remaining, Due]
  | some pos =>
    simp only [remaining, List.mem_filter, mem_foreachFull, decide_eq_true_eq, Due,
      Option.some.injEq, exists_eq_left']
    rw [and_assoc, and_comm (a := EntryLe ord i e pos)]

theorem pairwise_remaining :
    (remaining ord st i f search resume).Pairwise fun a b => EntryLe ord i b a ∧ a ≠ b := by
  cases resume with
  | none => exact List.Pairwise.nil
  | some pos => exact (pairwise_foreachFull ord st i pos).filter _

/-- Two positions with the same entries ahead have the same remaining list. -/
theorem remaining_congr {resume' : Option (Entry Bytes)}
    (h : ∀ e ∈ st.index i, Due ord i f search resume e ↔ Due ord i f search resume' e) :
    remaining ord st i f search resume = remaining ord st i f search resume' := by
  refine eq_of_pairwise_entry pairwise_remaining pairwise_remaining fun e => ?_
  rw [mem_remaining, mem_remaining]
  exact and_congr_right (h e)

end Remaining

/-! ## One round of `collect` -/

/-- The string parts in the index that `keyMatch` accepts are equal to the string looked for. -/
def KeyExact (st : Store) (i : QueryIndex) (search : Bytes) : Prop :=
  ∀ e ∈ st.index i, ScanCursor.keyMatch i search (e.key ++ le64 e.num) = true ↔ e.key = search

/-- Why a round stops at the entry `e`. -/
inductive Stop (f : NostrFilter) (search : Bytes) (e : Entry Bytes) :
    Nat → Option (Entry Bytes) → Prop
  | limit : Stop f search e 0 (some e)
  | key (limit : Nat) : e.key ≠ search → Stop f search e (limit + 1) none
  | since (limit : Nat) : e.key = search → e.num < f.since →
      Stop f search e (limit + 1) (some ⟨search, 0, (0 : Nat)⟩)
  | bound (limit : Nat) : e.key = search → f.since ≤ e.num → f.until_ ≠ 0 → f.until_ < e.num →
      Stop f search e (limit + 1) (some ⟨search, f.until_, ⊤⟩)

/-- A round takes wanted entries up to a stop, or to the end of the index. -/
theorem visitEntries_spec {st : Store} {i : QueryIndex} {f : NostrFilter} {search : Bytes}
    (scanIndex : Nat) {es : List (Entry Bytes)} (hes : ∀ e ∈ es, e ∈ st.index i)
    (hkey : KeyExact st i search) (limit : Nat) :
    ∃ taken rest limit' resume,
      visitEntries f i search scanIndex es limit =
        ⟨taken.map fun e => .make e.row e.num scanIndex, limit', resume⟩ ∧
      es = taken ++ rest ∧ limit = limit' + taken.length ∧ (∀ e ∈ taken, Wanted f search e) ∧
      ((rest = [] ∧ resume = none) ∨ ∃ e post, rest = e :: post ∧ Stop f search e limit' resume) := by
  induction es generalizing limit with
  | nil => exact ⟨[], [], limit, none, rfl, rfl, rfl, by simp, Or.inl ⟨rfl, rfl⟩⟩
  | cons e es ih =>
    have hstop : ∀ limit' resume, visitEntries f i search scanIndex (e :: es) limit =
          ⟨[], limit', resume⟩ → limit = limit' → Stop f search e limit' resume →
        ∃ taken rest limit' resume, visitEntries f i search scanIndex (e :: es) limit =
            ⟨taken.map fun e => .make e.row e.num scanIndex, limit', resume⟩ ∧
          e :: es = taken ++ rest ∧ limit = limit' + taken.length ∧
          (∀ e ∈ taken, Wanted f search e) ∧
          ((rest = [] ∧ resume = none) ∨
            ∃ e post, rest = e :: post ∧ Stop f search e limit' resume) :=
      fun limit' resume hv hl hs =>
        ⟨[], e :: es, limit', resume, hv, rfl, hl, by simp, Or.inr ⟨e, es, rfl, hs⟩⟩
    cases limit with
    | zero => exact hstop 0 (some e) (by simp [visitEntries]) rfl .limit
    | succ n =>
      by_cases hk : e.key = search
      · have hm : ¬ (!ScanCursor.keyMatch i search (e.key ++ le64 e.num)) = true := by
          rw [(hkey e (hes e (by simp))).2 hk]
          exact nofun
        by_cases hsince : f.since ≠ 0 ∧ e.num < f.since
        · refine hstop (n + 1) (some ⟨search, 0, (0 : Nat)⟩) ?_ rfl (.since n hk hsince.2)
          rw [visitEntries, if_neg n.succ_ne_zero, if_neg hm, if_pos hsince, hk]
        · have hge : f.since ≤ e.num := by omega
          by_cases huntil : f.until_ ≠ 0 ∧ f.until_ < e.num
          · refine hstop (n + 1) (some ⟨search, f.until_, ⊤⟩) ?_ rfl
              (.bound n hk hge huntil.1 huntil.2)
            rw [visitEntries, if_neg n.succ_ne_zero, if_neg hm, if_neg hsince, if_pos huntil, hk]
          · obtain ⟨taken, rest, limit', resume, hv, hsplit, hlim, hw, hend⟩ :=
              ih (fun x hx => hes x (by simp [hx])) n
            refine ⟨e :: taken, rest, limit', resume, ?_, by rw [hsplit, List.cons_append], ?_, ?_,
              hend⟩
            · rw [visitEntries, if_neg n.succ_ne_zero, if_neg hm, if_neg hsince, if_neg huntil,
                Nat.add_sub_cancel, hv]
              rfl
            · rw [hlim, List.length_cons]
              omega
            · intro x hx
              rcases List.mem_cons.1 hx with rfl | hx
              · exact ⟨hk, hge, by omega⟩
              · exact hw x hx
      · refine hstop (n + 1) none ?_ rfl (.key n hk)
        have hm : ScanCursor.keyMatch i search (e.key ++ le64 e.num) = false := by
          rw [← Bool.not_eq_true, hkey e (hes e (by simp))]
          exact hk
        rw [visitEntries, if_neg n.succ_ne_zero, hm, Bool.not_false, if_pos rfl]

/-- Rounds that the loop of `collect` needs from a position: none from the end, one when no entry
with the string is ahead, two when none after `until` is. -/
def RoundsLeft (ord : IndexOrder) (st : Store) (i : QueryIndex) (f : NostrFilter) (search : Bytes)
    (resume : Option (Entry Bytes)) : Nat → Prop
  | 0 => resume = none
  | 1 => ∀ pos, resume = some pos → ∀ e ∈ st.index i, e.key = search → ¬ EntryLe ord i e pos
  | 2 => ∀ pos, resume = some pos → ∀ e ∈ st.index i, e.key = search → EntryLe ord i e pos →
      f.until_ = 0 ∨ e.num ≤ f.until_
  | _ + 3 => True

/-- The position is not behind the entries with the string. -/
def PosOk (ord : IndexOrder) (i : QueryIndex) (search : Bytes) (resume : Option (Entry Bytes)) :
    Prop :=
  ∀ pos, resume = some pos → KeyLe ord i pos.key search

section Round

variable {ord : IndexOrder} {st : Store} {i : QueryIndex} {f : NostrFilter} {search : Bytes}
  {pos e : Entry Bytes} {resume : Option (Entry Bytes)} {limit : Nat}

theorem RoundsLeft.of_none (n : Nat) : RoundsLeft ord st i f search none n := by
  match n with
  | 0 => rfl
  | 1 | 2 => exact nofun
  | _ + 3 => trivial

/-- Where a round that stops at `e` continues: the entries ahead are those ahead of `e`. -/
theorem Stop.due_iff (h : Stop f search e limit resume) (hle : EntryLe ord i e pos)
    (hpos : KeyLe ord i pos.key search) (x : Entry Bytes) :
    Due ord i f search resume x ↔ Due ord i f search (some e) x := by
  cases h with
  | limit => rfl
  | key limit hk =>
    -- the strings from `e` on are smaller than the one looked for
    constructor
    · rintro ⟨-, p, hp, -⟩
      cases hp
    · rintro ⟨hw, p, hp, hxe⟩
      cases hp
      have hsearch : KeyLe ord i search e.key := hw.1 ▸ hxe.keyLe
      exact absurd ((hle.keyLe.trans hpos).antisymm hsearch) hk
  | since limit hk hlt =>
    constructor
    · rintro ⟨⟨hxk, hge, -⟩, p, hp, hxp⟩
      cases hp
      rw [entryLe_iff_of_key_eq hxk] at hxp
      have hx0 : x.num = 0 := by
        rcases hxp with h | h
        · exact absurd h (Nat.not_lt_zero _)
        · exact h.1
      omega
    · rintro ⟨⟨hxk, hge, -⟩, p, hp, hxe⟩
      cases hp
      rw [entryLe_iff_of_key_eq (hxk.trans hk.symm)] at hxe
      omega
  | bound limit hk hge hne hlt =>
    have hiff : ∀ y : Entry Bytes, y.key = search → y.num ≤ f.until_ →
        EntryLe ord i y ⟨search, f.until_, ⊤⟩ ∧ EntryLe ord i y e := by
      intro y hyk hy
      rw [entryLe_iff_of_key_eq hyk, entryLe_iff_of_key_eq (hyk.trans hk.symm)]
      refine ⟨?_, Or.inl (lt_of_le_of_lt hy hlt)⟩
      rcases lt_or_eq_of_le hy with h | h
      · exact Or.inl h
      · exact Or.inr ⟨h, le_top⟩
    constructor
    · rintro ⟨hw, -⟩
      exact ⟨hw, e, rfl, (hiff x hw.1 (hw.2.2.resolve_left hne)).2⟩
    · rintro ⟨hw, -⟩
      exact ⟨hw, _, rfl, (hiff x hw.1 (hw.2.2.resolve_left hne)).1⟩

theorem Stop.posOk (h : Stop f search e limit resume) (hle : EntryLe ord i e pos)
    (hpos : KeyLe ord i pos.key search) : PosOk ord i search resume := by
  rintro p hp
  cases h with
  | limit =>
    cases hp
    exact hle.keyLe.trans hpos
  | key => cases hp
  | since | bound =>
    cases hp
    exact .refl _

/-- A round that ends before the limit leaves one round less. -/
theorem Stop.roundsLeft (hid : ∀ r ∈ st.event.rows, 0 < r.1) (h : Stop f search e limit resume)
    (he : e ∈ st.index i) (hle : EntryLe ord i e pos) (hlimit : 0 < limit) {n : Nat}
    (hn : RoundsLeft ord st i f search (some pos) (n + 1)) :
    RoundsLeft ord st i f search resume n := by
  cases h with
  | limit => exact absurd hlimit (lt_irrefl 0)
  | key => exact .of_none n
  | since limit hk hlt =>
    have hnone : ∀ x ∈ st.index i, x.key = search →
        ¬ EntryLe ord i x ⟨search, 0, (0 : Nat)⟩ := by
      intro x hx hxk hxle
      rw [entryLe_iff_of_key_eq hxk] at hxle
      obtain ⟨levId, p, hr, -, hv⟩ := Store.mem_index.1 hx
      have hpos := hid _ hr
      rcases hxle with h | ⟨-, h⟩
      · exact absurd h (Nat.not_lt_zero _)
      · rw [hv] at h
        exact absurd (WithTop.coe_le_coe.1 h) (not_le.2 hpos)
    match n with
    | 0 => exact absurd hle (hn pos rfl e he hk)
    | 1 =>
      rintro p hp
      cases hp
      exact hnone
    | 2 =>
      rintro p hp x hx hxk hxle
      cases hp
      exact absurd hxle (hnone x hx hxk)
    | _ + 3 => trivial
  | bound limit hk hge hne hlt =>
    match n with
    | 0 => exact absurd hle (hn pos rfl e he hk)
    | 1 => exact absurd ((hn pos rfl e he hk hle).resolve_left hne) (not_le.2 hlt)
    | 2 =>
      rintro p hp x hx hxk hxle
      cases hp
      rw [entryLe_iff_of_key_eq hxk] at hxle
      rcases hxle with h | h
      · exact Or.inr (le_of_lt h)
      · exact Or.inr (le_of_eq h.1)
    | _ + 3 => trivial

end Round

/-! ## The loop of `collect` -/

section Collect

variable {ord : IndexOrder} {st : Store} {i : QueryIndex} {f : NostrFilter} {search : Bytes}
  {resume : Option (Entry Bytes)}

/-- One round: it takes the first remaining entries and leaves the others. -/
theorem round_spec (hid : ∀ r ∈ st.event.rows, 0 < r.1) (hkey : KeyExact st i search)
    (scanIndex : Nat) {pos : Entry Bytes} (hpos : KeyLe ord i pos.key search) (limit : Nat) :
    ∃ taken limit' resume',
      visitEntries f i search scanIndex (foreachFull ord st i pos) limit =
        ⟨taken.map fun e => .make e.row e.num scanIndex, limit', resume'⟩ ∧
      limit = limit' + taken.length ∧
      remaining ord st i f search (some pos) = taken ++ remaining ord st i f search resume' ∧
      PosOk ord i search resume' ∧
      (∀ x, Due ord i f search resume' x → Due ord i f search (some pos) x) ∧
      (0 < limit' → ∀ n, RoundsLeft ord st i f search (some pos) (n + 1) →
        RoundsLeft ord st i f search resume' n) := by
  have hmem : ∀ e ∈ foreachFull ord st i pos, e ∈ st.index i := fun e he => (mem_foreachFull.1 he).1
  obtain ⟨taken, rest, limit', resume', hv, hsplit, hlim, hw, hend⟩ := visitEntries_spec (f := f)
    scanIndex hmem hkey limit
  have htaken : taken.filter (fun e => Wanted f search e) = taken :=
    List.filter_eq_self.2 fun e he => decide_eq_true (hw e he)
  refine ⟨taken, limit', resume', hv, hlim, ?_⟩
  rcases hend with ⟨rfl, rfl⟩ | ⟨e, post, rfl, hstop⟩
  · refine ⟨?_, nofun, ?_, fun _ n _ => .of_none n⟩
    · show (foreachFull ord st i pos).filter _ = taken ++ []
      rw [hsplit, List.append_nil, htaken]
    · rintro x ⟨-, p, hp, -⟩
      cases hp
  · have he := mem_foreachFull.1 (hsplit ▸ List.mem_append_right _ List.mem_cons_self :
      e ∈ foreachFull ord st i pos)
    refine ⟨?_, hstop.posOk he.2 hpos, ?_, fun hl n hn => hstop.roundsLeft hid he.1 he.2 hl hn⟩
    · rw [remaining_congr fun x _ => hstop.due_iff he.2 hpos x]
      show (foreachFull ord st i pos).filter _ = taken ++ (foreachFull ord st i e).filter _
      rw [hsplit, List.filter_append, htaken, foreachFull_of_append hsplit]
    · intro x hx
      obtain ⟨hxw, p, hp, hxe⟩ := (hstop.due_iff he.2 hpos x).1 hx
      cases hp
      exact ⟨hxw, pos, rfl, hxe.trans he.2⟩

/-- The loop of `collect` takes the first `limit` remaining entries. -/
theorem collectLoop_spec (hid : ∀ r ∈ st.event.rows, 0 < r.1) (hkey : KeyExact st i search)
    (scanIndex fuel limit : Nat) (hpos : PosOk ord i search resume)
    (hfuel : 0 < limit → RoundsLeft ord st i f search resume fuel) :
    ∃ out resume',
      collectLoop ord st f i search scanIndex fuel resume limit =
        some (out.map fun e => .make e.row e.num scanIndex, resume') ∧
      out = (remaining ord st i f search resume).take limit ∧
      remaining ord st i f search resume' = (remaining ord st i f search resume).drop limit ∧
      PosOk ord i search resume' ∧
      (∀ x, Due ord i f search resume' x → Due ord i f search resume x) ∧
      (resume'.isSome = true → out.length = limit) := by
  induction fuel generalizing resume limit with
  | zero =>
    cases resume with
    | none => exact ⟨[], none, by simp [collectLoop], by simp [remaining], by simp [remaining], hpos,
        fun _ h => h, nofun⟩
    | some pos =>
      cases limit with
      | zero => exact ⟨[], some pos, by simp [collectLoop], by simp, by simp, hpos, fun _ h => h,
          fun _ => rfl⟩
      | succ n => cases hfuel n.succ_pos
  | succ fuel ih =>
    cases resume with
    | none => exact ⟨[], none, by simp [collectLoop], by simp [remaining], by simp [remaining], hpos,
        fun _ h => h, nofun⟩
    | some pos =>
      cases limit with
      | zero => exact ⟨[], some pos, by simp [collectLoop], by simp, by simp, hpos, fun _ h => h,
          fun _ => rfl⟩
      | succ n =>
        obtain ⟨taken, limit', resume₁, hv, hlim, hrem, hpos₁, hdue₁, hrounds⟩ :=
          round_spec hid hkey scanIndex (hpos pos rfl) (n + 1) (f := f)
        obtain ⟨out, resume', hc, hout, hdrop, hpos', hdue', hlen⟩ := ih limit' hpos₁
          (fun hl => hrounds hl fuel (hfuel n.succ_pos))
        refine ⟨taken ++ out, resume', ?_, ?_, ?_, hpos', fun x hx => hdue₁ x (hdue' x hx), ?_⟩
        · rw [collectLoop, hv]
          simp only [hc, Option.map_some, List.map_append]
        · rw [hrem, hlim, Nat.add_comm, List.take_length_add_append, hout]
        · rw [hrem, hlim, Nat.add_comm, List.drop_length_add_append, hdrop]
        · intro hs
          rw [List.length_append, hlen hs]
          omega

/-- A cursor of a scan over the index `i`. -/
structure ScanCursor.Ok (ord : IndexOrder) (i : QueryIndex) (c : ScanCursor) : Prop where
  posOk : PosOk ord i c.search c.resume

/-- The entries that a cursor has still to deliver. -/
def ScanCursor.remaining (ord : IndexOrder) (st : Store) (i : QueryIndex) (f : NostrFilter)
    (c : ScanCursor) : List (Entry Bytes) :=
  Strfry.remaining ord st i f c.search c.resume

/-- The entry is still ahead of the cursor. -/
def ScanCursor.Due (ord : IndexOrder) (i : QueryIndex) (f : NostrFilter) (c : ScanCursor)
    (e : Entry Bytes) : Prop :=
  Strfry.Due ord i f c.search c.resume e

/-- Replacing a cursor by one for the same string. -/
theorem ScanCursor.map_search_set {cs : List ScanCursor} {i : Nat} {c c' : ScanCursor}
    (hc : cs[i]? = some c) (hs : c'.search = c.search) :
    (cs.set i c').map ScanCursor.search = cs.map ScanCursor.search := by
  obtain ⟨hlt, rfl⟩ := List.getElem?_eq_some_iff.1 hc
  refine List.ext_getElem (by simp) fun j h₁ h₂ => ?_
  simp only [List.getElem_map, List.getElem_set]
  split
  · rename_i hij
    subst hij
    exact hs
  · rfl

/-- `collect` delivers the next `limit` entries and moves behind them. A cursor that is still
active has delivered all of them. -/
theorem ScanCursor.collect_spec (hid : ∀ r ∈ st.event.rows, 0 < r.1) (c : ScanCursor)
    (hc : c.Ok ord i) (hkey : KeyExact st i c.search) (scanIndex limit : Nat) :
    ∃ c', c.collect ord st f i scanIndex limit =
        some (((c.remaining ord st i f).take limit).map fun e => .make e.row e.num scanIndex, c') ∧
      c'.Ok ord i ∧ c'.search = c.search ∧
      c'.remaining ord st i f = (c.remaining ord st i f).drop limit ∧
      c'.outstanding = (c.outstanding + ((c.remaining ord st i f).take limit).length) % 2 ^ 64 ∧
      (∀ x, c'.Due ord i f x → c.Due ord i f x) ∧
      (c'.resume.isSome = true → ((c.remaining ord st i f).take limit).length = limit) := by
  obtain ⟨out, resume', hl, hout, hdrop, hpos', hdue, hlen⟩ := collectLoop_spec (f := f) hid hkey
    scanIndex collectRounds limit hc.posOk (fun _ => trivial)
  refine ⟨{ c with
    resume := resume'
    outstanding := (c.outstanding + ((c.remaining ord st i f).take limit).length) % 2 ^ 64 },
    ?_, ⟨hpos'⟩, rfl, hdrop, rfl, hdue, ?_⟩
  · rw [ScanCursor.collect, hl, hout]
    simp only [Option.map_some, List.length_map]
    rfl
  · rw [ScanCursor.remaining, ← hout]
    exact hlen

end Collect

end Strfry
