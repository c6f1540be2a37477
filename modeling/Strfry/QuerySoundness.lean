import Strfry.PausedQuery

/-!
# What a query passes on

A query that is paused passes on no event twice, and only events that have been stored and match, whatever its
limits are and however many cursors its plans have (`DBQuery.Sound.process`). What a limit or a lost cursor takes
away is missing, but nothing wrong comes instead.
-/

set_option autoImplicit false

namespace Strfry

open Lib

/-! ## Candidates -/

section Collect

variable {ord : IndexOrder} {st : Store} {i : QueryIndex} {f : NostrFilter} {search : Bytes}

/-- The loop of `collect` makes candidates of entries that the cursor looks for. -/
theorem mem_collectLoop (hkey : KeyExact st i search) {scanIndex fuel limit : Nat}
    {resume resume' : Option (Entry Bytes)} {out : List CandidateEvent}
    (h : collectLoop ord st f i search scanIndex fuel resume limit = some (out, resume')) {x : CandidateEvent}
    (hx : x ∈ out) : ∃ e ∈ st.index i, e.key = search ∧ x = .make e.row e.num scanIndex := by
  fun_induction collectLoop ord st f i search scanIndex fuel resume limit generalizing out with
  | case1 | case2 =>
    cases h
    cases hx
  | case3 => cases h
  | case4 fuel pos limit r =>
    rename_i ih
    -- what this round takes, and what the later ones do
    have hmem : ∀ e ∈ foreachFull ord st i pos, e ∈ st.index i := fun e he => (mem_foreachFull.mp he).1
    obtain ⟨taken, rest, limit', resume₁, hv, hsplit, -, hw, -⟩ :=
      visitEntries_spec (f := f) scanIndex hmem hkey (limit + 1)
    obtain ⟨⟨out', resume₂⟩, hloop, heq⟩ := Option.map_eq_some_iff.mp h
    cases heq
    rcases List.mem_append.mp hx with hx | hx
    · simp only [r, hv] at hx
      obtain ⟨e, he, rfl⟩ := List.mem_map.mp hx
      exact ⟨e, hmem e (hsplit ▸ List.mem_append_left _ he), (hw e he).1, rfl⟩
    · exact ih hloop hx

end Collect

namespace DBScan

section Scan

variable {S : StdSort} {ord : IndexOrder} {history : History} {f : NostrFilter} {s s' : DBScan} {st : Store}

/-- The candidates of one cursor are of events that are stored. -/
theorem Candidates.collectAt {i limit : Nat} {new : List CandidateEvent} (h : Candidates history f s)
    (hok : history.Ok) (hf : f.WF) (hst : st ∈ history)
    (hcollect : s.collectAt ord st i limit = some (new, s')) :
    SamePlan s s' ∧ s'.eventQueue = s.eventQueue ∧ s'.nextInitIndex = s.nextInitIndex ∧
      ∀ x ∈ new, ∃ r, history.Ever r ∧ PlanKey f r.2 ∧ x.rank = rowRank r := by
  rw [DBScan.collectAt] at hcollect
  cases hc : s.cursors[i]? with
  | none =>
    rw [hc] at hcollect
    cases hcollect
  | some c =>
    rw [hc] at hcollect
    obtain ⟨⟨out, c'⟩, hcol, heq⟩ := Option.map_eq_some_iff.mp hcollect
    cases heq
    obtain ⟨⟨out', resume'⟩, hloop, heq⟩ := Option.map_eq_some_iff.mp hcol
    cases heq
    refine ⟨⟨rfl, rfl, rfl, ScanCursor.map_search_set hc rfl⟩, rfl, rfl, fun x hx => ?_⟩
    have hexact := (exact_make hf st).samePlan h.same
    have hmem : c.search ∈ s.cursors.map ScanCursor.search := List.mem_map_of_mem (List.mem_of_getElem? hc)
    obtain ⟨e, he, hkey, rfl⟩ := mem_collectLoop (hexact _ hmem) hloop hx
    obtain ⟨r, hr, hplan, hrank⟩ := h.of_entry hst he (hkey ▸ hmem)
    exact ⟨r, hr, hplan, (CandidateEvent.rank_make i ((hok.snapshot st hst).num_lt he)).trans hrank⟩

/-- What becomes of the state of `handleEvent`: nothing, or an event that is passed on is handled. -/
def Handed {σ : Type} (st : Store) (handleEvent : σ → Nat → Bool × σ) (s : DBScan) (state state' : σ) : Prop :=
  state' = state ∨ ∃ x ∈ s.eventQueue, s.doSend st x = true ∧ (handleEvent state x.levId).2 = state'

theorem Candidates.initStep (h : Candidates history f s) (hok : history.Ok) (hf : f.WF) (hst : st ∈ history)
    (hinit : s.initStep S ord st = some s') : Candidates history f s' := by
  obtain ⟨⟨new, s₁⟩, hcollect, rfl⟩ := Option.map_eq_some_iff.mp hinit
  obtain ⟨hsame, hqueue, -, hnew⟩ := h.collectAt hok hf hst hcollect
  refine ⟨h.same.trans ⟨hsame.f, hsame.indexOnly, hsame.indexDbi, hsame.searches⟩, fun x hx => ?_⟩
  have hx : x ∈ s.eventQueue ++ new := by
    simp only at hx
    split at hx
    · exact (S.perm _ _).mem_iff.mp hx
    · exact hx
  rcases List.mem_append.mp hx with hx | hx
  · exact h.queue x hx
  · exact hnew x hx

theorem Candidates.settle {i : Nat} (h : Candidates history f s) (hok : history.Ok) (hf : f.WF)
    (hst : st ∈ history) (hsettle : s.settle ord st i = some s') : Candidates history f s' := by
  rw [DBScan.settle] at hsettle
  cases hc : s.cursors[i]? with
  | none =>
    rw [hc] at hsettle
    cases hsettle
  | some c =>
    rw [hc] at hsettle
    simp only at hsettle
    generalize (c.outstanding + (2 ^ 64 - 1)) % 2 ^ 64 = outstanding at hsettle
    have h₁ : Candidates history f
        { s with cursors := s.cursors.set i { c with outstanding := outstanding } } :=
      ⟨h.same.trans ⟨rfl, rfl, rfl, ScanCursor.map_search_set hc rfl⟩, h.queue⟩
    split at hsettle
    · obtain ⟨⟨new, s₂⟩, hcollect, rfl⟩ := Option.map_eq_some_iff.mp hsettle
      obtain ⟨hsame, -, -, hnew⟩ := h₁.collectAt hok hf hst hcollect
      refine ⟨h₁.same.trans ⟨hsame.f, hsame.indexOnly, hsame.indexDbi, hsame.searches⟩, fun x hx => ?_⟩
      rcases mem_stdMerge.mp hx with hx | hx
      · exact h.queue x hx
      · exact hnew x hx
    · cases hsettle
      exact h₁

/-- What an iteration leaves. -/
inductive IterSound {σ : Type} (history : History) (f : NostrFilter) (st : Store)
    (handleEvent : σ → Nat → Bool × σ) (s : DBScan) (state : σ) : Iter σ → Prop
  | done (state' : σ) : Handed st handleEvent s state state' →
      IterSound history f st handleEvent s state (.done state')
  | next (s' : DBScan) (state' : σ) : Candidates history f s' → Handed st handleEvent s state state' →
      IterSound history f st handleEvent s state (.next s' state')
  | stuck : IterSound history f st handleEvent s state .stuck

/-- An iteration on a snapshot of the history. -/
theorem Candidates.iter {σ : Type} (S : StdSort) (ord : IndexOrder) (h : Candidates history f s)
    (hok : history.Ok) (hf : f.WF) (hst : st ∈ history) (handleEvent : σ → Nat → Bool × σ) (state : σ) :
    IterSound history f st handleEvent s state (s.iter S ord st handleEvent state) := by
  rw [DBScan.iter]
  split
  · cases hinit : s.initStep S ord st with
    | none => exact .stuck
    | some s₁ => exact .next _ _ (h.initStep hok hf hst hinit) (.inl rfl)
  · cases hq : s.eventQueue with
    | nil => exact .done _ (.inl rfl)
    | cons ev rest =>
      simp only
      generalize hr : (if s.doSend st ev then handleEvent state ev.levId else (false, state)) = r
      have hhanded : Handed st handleEvent s state r.2 := by
        rw [← hr]
        split
        · rename_i hsend
          exact .inr ⟨ev, hq ▸ List.mem_cons_self, hsend, rfl⟩
        · exact .inl rfl
      have hrest : Candidates history f { s with eventQueue := rest } :=
        ⟨h.same.trans ⟨rfl, rfl, rfl, rfl⟩, fun x hx => h.queue x (hq ▸ List.mem_cons_of_mem _ hx)⟩
      split
      · exact .done _ hhanded
      · cases hsettle : { s with eventQueue := rest }.settle ord st ev.scanIndex with
        | none => exact .stuck
        | some s₁ => exact .next _ _ (hrest.settle hok hf hst hsettle) hhanded

end Scan

end DBScan

/-! ## Queries -/

namespace DBQuery

/-- A query with the callbacks it has made, in the middle of a filter. -/
structure Sound (history : History) (q : DBQuery) (calls : List Nat) : Prop
    extends Matched history q calls where
  current : ∀ f, q.filters[q.filterGroupIndex]? = some f →
    (q.scanner.getD (.make f)).Candidates history f

section Query

variable {S : StdSort} {ord : IndexOrder} {history : History} {st : Store} {f : NostrFilter}
  {q q' : DBQuery} {calls new : List Nat}

/-- A new query. -/
theorem sound_start (history : History) (sub : Subscription) : Sound history (.new sub) [] where
  nodup := List.nodup_nil
  full := rfl
  sound := fun _ hmem => absurd hmem List.not_mem_nil
  current := fun _ _ => ⟨.refl _, fun _ hx => absurd hx List.not_mem_nil⟩

theorem Sound.commit (h : Sound history q calls) (st : Store) : Sound (st :: history) q calls where
  nodup := h.nodup
  full := h.full
  sound := by
    intro levId hmem
    obtain ⟨hle, f, hf, hever⟩ := h.sound levId hmem
    exact ⟨hle, f, hf, History.everMatching_subset_cons st history f hever⟩
  current := by
    intro f hf
    refine ⟨(h.current f hf).same, fun x hx => ?_⟩
    obtain ⟨r, hr, hrest⟩ := (h.current f hf).queue x hx
    exact ⟨r, hr.cons st, hrest⟩

/-- What the event handler does with a levId. -/
theorem handleEvent_cases (limit : Nat) (latest : WithTop Nat) (full curr : Finset Nat) (levId : Nat) :
    (handleEvent limit latest ⟨full, curr, []⟩ levId).2 = ⟨full, curr, []⟩ ∨
      ((levId : WithTop Nat) ≤ latest ∧ (handleEvent limit latest ⟨full, curr, []⟩ levId).2 =
        ⟨insert levId full, insert levId curr, [levId].filter (· ∉ full)⟩) := by
  by_cases hlimit : limit = 0
  · left
    rw [handleEvent, if_pos hlimit]
  · by_cases hle : (levId : WithTop Nat) ≤ latest
    · right
      rw [handleEvent_eq hlimit hle]
      exact ⟨hle, rfl⟩
    · left
      rw [handleEvent, if_neg hlimit, if_pos (not_le.mp hle)]

/-- An iteration on a snapshot of the history. -/
theorem Sound.step (h : Sound history q calls) (hok : history.Ok) (hst : st ∈ history)
    (hf : q.filters[q.filterGroupIndex]? = some f) (hstep : q.step S ord st f = some (q', new)) :
    q'.sub = q.sub ∧ Sound history q' (calls ++ new) := by
  have hmem : f ∈ q.filters := List.mem_of_getElem? hf
  have hwf : f.WF := q.sub.filterGroup.wf f hmem
  have hcurrent := h.current f hf
  -- what the handler has done to the sets and the callbacks
  have hhanded : ∀ {t : Sent}, DBScan.Handed st (handleEvent f.limit q.sub.latestEventId)
      (q.scanner.getD (.make f)) ⟨q.sentEventsFull, q.sentEventsCurr, []⟩ t →
      (calls ++ t.calls).Nodup ∧ t.full = (calls ++ t.calls).toFinset ∧
        ∀ levId ∈ calls ++ t.calls, (levId : WithTop Nat) ≤ q.sub.latestEventId ∧
          ∃ f ∈ q.filters, levId ∈ history.everMatching f := by
    rintro t (rfl | ⟨x, hx, hsend, rfl⟩)
    · rw [List.append_nil]
      exact ⟨h.nodup, h.full, h.sound⟩
    · rcases handleEvent_cases f.limit q.sub.latestEventId q.sentEventsFull q.sentEventsCurr x.levId with
        heq | ⟨hle, heq⟩
      · rw [heq, List.append_nil]
        exact ⟨h.nodup, h.full, h.sound⟩
      · have hever := hcurrent.matched hok hwf hst hx hsend
        rw [heq]
        obtain ⟨hnd, hfull, hsound, -⟩ := h.send hmem hle hever
        exact ⟨hnd, hfull, hsound⟩
  have hiter := hcurrent.iter S ord hok hwf hst (handleEvent f.limit q.sub.latestEventId)
    ⟨q.sentEventsFull, q.sentEventsCurr, []⟩
  rw [DBQuery.step] at hstep
  generalize hit : (q.scanner.getD (.make f)).iter S ord st (handleEvent f.limit q.sub.latestEventId)
    ⟨q.sentEventsFull, q.sentEventsCurr, []⟩ = it at hiter hstep
  cases hiter with
  | done t hhand =>
    cases hstep
    obtain ⟨hnd, hfull, hsound⟩ := hhanded hhand
    exact ⟨rfl, ⟨hnd, hfull, hsound⟩, fun _ _ => ⟨.refl _, fun _ hx => absurd hx List.not_mem_nil⟩⟩
  | next s' t hcandidates hhand =>
    cases hstep
    obtain ⟨hnd, hfull, hsound⟩ := hhanded hhand
    refine ⟨rfl, ⟨hnd, hfull, hsound⟩, fun g hg => ?_⟩
    cases hf.symm.trans hg
    exact hcandidates
  | stuck => cases hstep

/-- A slice on a snapshot of the history. -/
theorem Sound.process {n : Nat} {r : DBQuery × List Nat × Bool} (h : Sound history q calls)
    (hok : history.Ok) (hst : st ∈ history) (hprocess : q.process S ord st n = some r) :
    r.1.sub = q.sub ∧ Sound history r.1 (calls ++ r.2.1) := by
  induction n generalizing q calls r with
  | zero =>
    rw [DBQuery.process] at hprocess
    split at hprocess
    · cases hprocess
      rw [List.append_nil]
      exact ⟨rfl, h⟩
    · rename_i f hf
      cases hprocess
      rw [List.append_nil]
      refine ⟨rfl, ⟨h.nodup, h.full, h.sound⟩, fun g hg => ?_⟩
      cases hf.symm.trans hg
      exact h.current f hf
  | succ n ih =>
    rw [DBQuery.process] at hprocess
    split at hprocess
    · cases hprocess
      rw [List.append_nil]
      exact ⟨rfl, h⟩
    · rename_i f hf
      split at hprocess
      · cases hprocess
      · rename_i q₁ new hstep
        obtain ⟨r₁, hrest, rfl⟩ := Option.map_eq_some_iff.mp hprocess
        obtain ⟨hsub, hsound⟩ := h.step hok hst hf hstep
        obtain ⟨hsub', hsound'⟩ := ih hsound hrest
        refine ⟨hsub'.trans hsub, ?_⟩
        rw [← List.append_assoc]
        exact hsound'

end Query

end DBQuery

end Strfry
