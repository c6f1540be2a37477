import Strfry.LiveDelivery

/-!
# The loops over the lookup tables

`installLookups` and `uninstallLookups` of the source are two loops, each with a branch for every kind of
key, an index into the filter set and a conversion of ids and pubkeys to `Bytes32`. Both visit the keys
`NostrFilter.lookupKeys` in order (`installLoop_eq`, `uninstallLoop_eq`), and neither `at` nor `Bytes32`
throws. So the tables hold exactly the filters of the installed subscriptions, each under the keys of its
first applicable field, in every state that calls can lead to (`tables_index_installed`).
-/

set_option autoImplicit false

namespace Strfry

open Lib

/-- The constructor of `Bytes32`. -/
def bytes32 (b : Bytes) : Except Err Bytes :=
  if b.length ≠ 32 then .error (.herr "invalid length for Bytes32") else .ok b

/-- The loop `for (size_t i = 0; i < n; i++)`. -/
def forIndex {σ : Type} (n : Nat) (body : Nat → σ → Except Err σ) (s : σ) : Except Err σ :=
  (List.range n).foldlM (fun s i => body i s) s

/-- A loop over the indices of a list is a loop over its elements. -/
theorem forIndex_eq {σ α : Type} {l : List α} {at_ : Nat → Except Err α}
    (hat : ∀ i x, l[i]? = some x → at_ i = .ok x) (body : α → σ → Except Err σ) (s : σ) :
    forIndex l.length (fun i s => at_ i >>= fun x => body x s) s = l.foldlM (fun s x => body x s) s := by
  unfold forIndex
  induction l generalizing at_ s with
  | nil => rfl
  | cons a l ih =>
    have hrest : ∀ i x, l[i]? = some x → at_ (i + 1) = .ok x := fun i x hx => hat (i + 1) x hx
    rw [List.length_cons, List.range_succ_eq_map, List.foldlM_cons, List.foldlM_cons]
    dsimp only
    rw [hat 0 a rfl]
    show (body a s >>= fun s => _) = (body a s >>= fun s => _)
    congr 1
    funext s'
    rw [List.foldlM_map]
    exact ih hrest s'

theorem foldlM_flatMap {σ α β : Type} (l : List α) (g : α → List β) (body : σ → β → Except Err σ)
    (s : σ) : (l.flatMap g).foldlM body s = l.foldlM (fun s a => (g a).foldlM body s) s := by
  induction l generalizing s with
  | nil => rfl
  | cons a l ih =>
    rw [List.flatMap_cons, List.foldlM_append, List.foldlM_cons]
    congr 1
    funext s'
    exact ih s'

namespace LookupTables

/-- The body of the loop of `installLookups`, for one filter. -/
def installFilter (item : MonitorItem) (f : FilterPtr) (filter : NostrFilter) (t : LookupTables) :
    Except Err LookupTables :=
  match filter.ids with
  | some ids =>
    forIndex ids.size (fun i t => do
      let id ← bytes32 (← ids.at? i)
      .ok (t.emplace item (f, .id id))) t
  | none =>
    match filter.authors with
    | some authors =>
      forIndex authors.size (fun i t => do
        let author ← bytes32 (← authors.at? i)
        .ok (t.emplace item (f, .author author))) t
    | none =>
      if filter.tags.length ≠ 0 then
        filter.tags.foldlM (fun t tag => forIndex tag.2.size (fun i t => do
          let tagSpec := getTagSpec tag.1 (← tag.2.at? i)
          .ok (t.emplace item (f, .tag tagSpec))) t) t
      else
        match filter.kinds with
        | some kinds =>
          forIndex kinds.size (fun i t => do
            let kind ← kinds.at? i
            .ok (t.emplace item (f, .kind kind))) t
        | none => .ok (t.emplace item (f, .other))

/-- The body of the loop of `uninstallLookups`, for one filter. -/
def uninstallFilter (f : FilterPtr) (filter : NostrFilter) (t : LookupTables) :
    Except Err LookupTables :=
  match filter.ids with
  | some ids =>
    forIndex ids.size (fun i t => do
      let id ← bytes32 (← ids.at? i)
      t.erase (f, .id id)) t
  | none =>
    match filter.authors with
    | some authors =>
      forIndex authors.size (fun i t => do
        let author ← bytes32 (← authors.at? i)
        t.erase (f, .author author)) t
    | none =>
      if filter.tags.length ≠ 0 then
        filter.tags.foldlM (fun t tag => forIndex tag.2.size (fun i t => do
          let tagSpec := getTagSpec tag.1 (← tag.2.at? i)
          t.erase (f, .tag tagSpec)) t) t
      else
        match filter.kinds with
        | some kinds =>
          forIndex kinds.size (fun i t => do
            let kind ← kinds.at? i
            t.erase (f, .kind kind)) t
        | none => t.erase (f, .other)

/-- `installLookups`, loop by loop. -/
def installLoop (t : LookupTables) (m : MonitorPtr) (g : NostrFilterGroup) (currEventId : Nat) :
    Except Err LookupTables :=
  g.filters.zipIdx.foldlM (fun t f => installFilter ⟨m, currEventId⟩ ⟨m, f.2⟩ f.1 t) t

/-- `uninstallLookups`, loop by loop. -/
def uninstallLoop (t : LookupTables) (m : MonitorPtr) (g : NostrFilterGroup) :
    Except Err LookupTables :=
  g.filters.zipIdx.foldlM (fun t f => uninstallFilter ⟨m, f.2⟩ f.1 t) t

/-! ## Both loops visit the lookup keys -/

section Visit

variable (step : LookupTables → LookupKey → Except Err LookupTables)

/-- A loop over the elements of a set of ids or pubkeys. -/
theorem forIndex_bytes32 (s : FilterSetBytes) (hsize : ∀ b ∈ s.elems, b.length = 32)
    (key : Bytes → LookupKey) (t : LookupTables) :
    forIndex s.size (fun i t => s.at? i >>= fun b => bytes32 b >>= fun b => step t (key b)) t =
      (s.elems.map key).foldlM step t := by
  have hat : ∀ i b, s.elems[i]? = some b → (s.at? i >>= bytes32) = .ok b := by
    intro i b hb
    rw [FilterSetBytes.elems, List.getElem?_map, Option.map_eq_some_iff] at hb
    obtain ⟨it, hit, rfl⟩ := hb
    have hlen : (it.slice s.buf).length = 32 :=
      hsize _ (List.mem_map_of_mem (List.mem_of_getElem? hit))
    rw [FilterSetBytes.at?, hit]
    exact if_neg (not_not.mpr hlen)
  rw [List.foldlM_map, ← forIndex_eq hat (fun b t => step t (key b)), s.length_elems]
  simp only [bind_assoc]

theorem forIndex_bytes (s : FilterSetBytes) (key : Bytes → LookupKey) (t : LookupTables) :
    forIndex s.size (fun i t => s.at? i >>= fun b => step t (key b)) t =
      (s.elems.map key).foldlM step t := by
  have hat : ∀ i b, s.elems[i]? = some b → s.at? i = .ok b := by
    intro i b hb
    rw [FilterSetBytes.elems, List.getElem?_map, Option.map_eq_some_iff] at hb
    obtain ⟨it, hit, rfl⟩ := hb
    rw [FilterSetBytes.at?, hit]
  rw [List.foldlM_map, ← forIndex_eq hat (fun b t => step t (key b)), s.length_elems]

theorem forIndex_uint (s : FilterSetUint) (key : Nat → LookupKey) (t : LookupTables) :
    forIndex s.size (fun i t => s.at? i >>= fun n => step t (key n)) t =
      (s.items.map key).foldlM step t := by
  have hat : ∀ i n, s.items[i]? = some n → s.at? i = .ok n := by
    intro i n hn
    rw [FilterSetUint.at?, hn]
  rw [List.foldlM_map]
  exact forIndex_eq hat (fun n t => step t (key n)) t

end Visit

variable {filter : NostrFilter}

theorem uninstallFilter_eq (h : filter.WF) (f : FilterPtr) (t : LookupTables) :
    uninstallFilter f filter t = (filter.lookupKeys.map fun k => (f, k)).foldlM erase t := by
  rw [List.foldlM_map, uninstallFilter, NostrFilter.lookupKeys]
  cases hids : filter.ids with
  | some ids =>
    exact forIndex_bytes32 (fun t k => t.erase (f, k)) ids (h.ids_size ids hids) .id t
  | none =>
    cases hauthors : filter.authors with
    | some authors =>
      exact forIndex_bytes32 (fun t k => t.erase (f, k)) authors (h.authors_size authors hauthors)
        .author t
    | none =>
      by_cases htags : filter.tags.length ≠ 0
      · simp only [if_pos htags]
        rw [foldlM_flatMap]
        congr 1
        funext t tag
        exact forIndex_bytes (fun t k => t.erase (f, k)) tag.2 (fun v => .tag (getTagSpec tag.1 v)) t
      · simp only [if_neg htags]
        cases filter.kinds with
        | some kinds => exact forIndex_uint (fun t k => t.erase (f, k)) kinds .kind t
        | none => exact (bind_pure _).symm

theorem installFilter_eq (h : filter.WF) (item : MonitorItem) (f : FilterPtr) (t : LookupTables) :
    installFilter item f filter t =
      (filter.lookupKeys.map fun k => (f, k)).foldlM (fun t e => .ok (t.emplace item e)) t := by
  rw [List.foldlM_map, installFilter, NostrFilter.lookupKeys]
  cases hids : filter.ids with
  | some ids =>
    exact forIndex_bytes32 (fun t k => .ok (t.emplace item (f, k))) ids (h.ids_size ids hids) .id t
  | none =>
    cases hauthors : filter.authors with
    | some authors =>
      exact forIndex_bytes32 (fun t k => .ok (t.emplace item (f, k))) authors
        (h.authors_size authors hauthors) .author t
    | none =>
      by_cases htags : filter.tags.length ≠ 0
      · simp only [if_pos htags]
        rw [foldlM_flatMap]
        congr 1
        funext t tag
        exact forIndex_bytes (fun t k => .ok (t.emplace item (f, k))) tag.2
          (fun v => .tag (getTagSpec tag.1 v)) t
      · simp only [if_neg htags]
        cases filter.kinds with
        | some kinds => exact forIndex_uint (fun t k => .ok (t.emplace item (f, k))) kinds .kind t
        | none => rfl

theorem foldlM_congr {σ α : Type} {l : List α} {body body' : σ → α → Except Err σ}
    (h : ∀ a ∈ l, ∀ s, body s a = body' s a) (s : σ) : l.foldlM body s = l.foldlM body' s := by
  induction l generalizing s with
  | nil => rfl
  | cons a l ih =>
    rw [List.foldlM_cons, List.foldlM_cons, h a List.mem_cons_self]
    congr 1
    funext s'
    exact ih (fun b hb => h b (List.mem_cons_of_mem _ hb)) s'

/-- The loop of `uninstallLookups` erases the entries of the group one after the other. -/
theorem uninstallLoop_eq (t : LookupTables) (m : MonitorPtr) (g : NostrFilterGroup) :
    t.uninstallLoop m g = t.uninstallLookups m g := by
  rw [uninstallLoop, uninstallLookups, entriesOf, foldlM_flatMap]
  apply foldlM_congr
  intro f hf t
  exact uninstallFilter_eq (g.wf _ (List.fst_mem_of_mem_zipIdx hf)) ⟨m, f.2⟩ t

/-- The loop of `installLookups` enters them, and does not throw. -/
theorem installLoop_eq (t : LookupTables) (m : MonitorPtr) (g : NostrFilterGroup) (currEventId : Nat) :
    t.installLoop m g currEventId = .ok (t.installLookups m g currEventId) := by
  have hpure : t.installLoop m g currEventId =
      (entriesOf m g).foldlM (fun t e => pure (t.emplace ⟨m, currEventId⟩ e)) t := by
    rw [installLoop, entriesOf, foldlM_flatMap]
    apply foldlM_congr
    intro f hf t
    exact installFilter_eq (g.wf _ (List.fst_mem_of_mem_zipIdx hf)) ⟨m, currEventId⟩ ⟨m, f.2⟩ t
  rw [hpure, List.foldlM_pure]
  rfl

end LookupTables

/-! ## The keys of the first applicable field -/

/-- A filter is found under each id, or else each author, or else each value of each tag, or else each
kind, or else among the others. -/
inductive NostrFilter.FoundUnder (f : NostrFilter) : LookupKey → Prop
  | id {ids : FilterSetBytes} {id : Bytes} (hids : f.ids = some ids) (hid : ids.doesMatch id = true) :
      FoundUnder f (.id id)
  | author {authors : FilterSetBytes} {pubkey : Bytes} (hids : f.ids = none)
      (hauthors : f.authors = some authors) (hpubkey : authors.doesMatch pubkey = true) :
      FoundUnder f (.author pubkey)
  | tag {name : UInt8} {values : FilterSetBytes} {value : Bytes} (hids : f.ids = none)
      (hauthors : f.authors = none) (htag : (name, values) ∈ f.tags)
      (hvalue : values.doesMatch value = true) : FoundUnder f (.tag (name :: value))
  | kind {kinds : FilterSetUint} {kind : Nat} (hids : f.ids = none) (hauthors : f.authors = none)
      (htags : f.tags = []) (hkinds : f.kinds = some kinds) (hkind : kinds.doesMatch kind = true) :
      FoundUnder f (.kind kind)
  | other (hids : f.ids = none) (hauthors : f.authors = none) (htags : f.tags = [])
      (hkinds : f.kinds = none) : FoundUnder f .other

theorem NostrFilter.mem_lookupKeys_iff {f : NostrFilter} {k : LookupKey} :
    k ∈ f.lookupKeys ↔ f.FoundUnder k := by
  constructor
  · intro hk
    -- the branches of `installLookups`: the first kind of condition that the filter has decides
    unfold NostrFilter.lookupKeys at hk
    cases hids : f.ids with
    | some ids =>
      rw [hids] at hk
      obtain ⟨b, hb, rfl⟩ := List.mem_map.mp hk
      exact .id hids ((ids.doesMatch_iff b).mpr hb)
    | none =>
      cases hauthors : f.authors with
      | some authors =>
        rw [hids, hauthors] at hk
        obtain ⟨b, hb, rfl⟩ := List.mem_map.mp hk
        exact .author hids hauthors ((authors.doesMatch_iff b).mpr hb)
      | none =>
        rw [hids, hauthors] at hk
        by_cases htags : f.tags.length ≠ 0
        · simp only [if_pos htags] at hk
          obtain ⟨⟨name, values⟩, htag, hk⟩ := List.mem_flatMap.mp hk
          obtain ⟨v, hv, rfl⟩ := List.mem_map.mp hk
          exact .tag hids hauthors htag ((values.doesMatch_iff v).mpr hv)
        · simp only [if_neg htags] at hk
          have hnil : f.tags = [] := List.length_eq_zero_iff.mp (not_not.mp htags)
          cases hkinds : f.kinds with
          | some kinds =>
            rw [hkinds] at hk
            obtain ⟨n, hn, rfl⟩ := List.mem_map.mp hk
            exact .kind hids hauthors hnil hkinds ((kinds.doesMatch_iff n).mpr hn)
          | none =>
            rw [hkinds] at hk
            rw [List.mem_singleton.mp hk]
            exact .other hids hauthors hnil hkinds
  · intro h
    unfold NostrFilter.lookupKeys
    cases h with
    | id hids hid =>
      rw [hids]
      exact List.mem_map_of_mem ((FilterSetBytes.doesMatch_iff _ _).mp hid)
    | author hids hauthors hpubkey =>
      rw [hids, hauthors]
      exact List.mem_map_of_mem ((FilterSetBytes.doesMatch_iff _ _).mp hpubkey)
    | @tag name values value hids hauthors htag hvalue =>
      have hne : f.tags.length ≠ 0 := (List.length_pos_of_mem htag).ne'
      rw [hids, hauthors]
      simp only [if_pos hne]
      apply List.mem_flatMap.mpr
      exact ⟨(name, values), htag, List.mem_map.mpr ⟨value, (values.doesMatch_iff value).mp hvalue, rfl⟩⟩
    | kind hids hauthors htags hkinds hkind =>
      rw [hids, hauthors, htags, hkinds]
      exact List.mem_map_of_mem ((FilterSetUint.doesMatch_iff _ _).mp hkind)
    | other hids hauthors htags hkinds =>
      rw [hids, hauthors, htags, hkinds]
      exact List.mem_singleton_self _

/-! ## Any calls in any order -/

namespace ActiveMonitors

/-- States that calls lead to from the empty one, whatever events are processed. A new monitor gets an
address that is not in use. A call of `addSub` that throws changes nothing. -/
inductive Called (maxSubs : Nat) : ActiveMonitors → Prop
  | start : Called maxSubs {}
  | addSub {s s' : ActiveMonitors} {m : MonitorPtr} {sub : Subscription} {currEventId : Nat} {b : Bool}
      (run : Called maxSubs s) (unused : s.monitors.lookup m = none)
      (call : s.addSub maxSubs m sub currEventId = .ok (b, s')) : Called maxSubs s'
  | removeSub {s s' : ActiveMonitors} {connId : Nat} {subId : SubId} (run : Called maxSubs s)
      (call : s.removeSub connId subId = .ok s') : Called maxSubs s'
  | closeConn {s s' : ActiveMonitors} {connId : Nat} (run : Called maxSubs s)
      (call : s.closeConn connId = .ok s') : Called maxSubs s'
  | process {s s' : ActiveMonitors} {levId : Nat} {ev : PackedEvent}
      {cb : Option (RecipientList × Nat)} (run : Called maxSubs s)
      (call : s.process levId ev = some (s', cb)) : Called maxSubs s'

theorem Called.inv {maxSubs : Nat} {s : ActiveMonitors} (h : Called maxSubs s) : s.Inv := by
  induction h with
  | start => exact inv_empty
  | @addSub s s' m sub currEventId b run unused call ih =>
    have hcur : sub.latestEventId = currEventId := by
      unfold ActiveMonitors.addSub at call
      split at call
      · cases call
      · rename_i heq
        exact not_not.mp heq
    obtain ⟨b', s₁, call', hinv, -⟩ := addSub_spec ih maxSubs unused sub hcur
    rw [call] at call'
    cases call'
    exact hinv
  | @removeSub s s' connId subId run call ih =>
    obtain ⟨s₁, call', hr⟩ := removeSub_spec ih connId subId
    rw [call] at call'
    cases call'
    exact hr.inv ih
  | @closeConn s s' connId run call ih =>
    obtain ⟨s₁, call', hr⟩ := closeConn_spec ih connId
    rw [call] at call'
    cases call'
    exact hr.inv ih
  | @process s s' levId ev cb run call ih =>
    obtain ⟨s₁, recipients, call', hd⟩ := process_delivers ih levId ev
    rw [call] at call'
    cases call'
    exact hd.inv ih

/-- No call throws out of a lookup, except that `addSub` refuses a subscription that is not up to date. -/
structure Safe (maxSubs : Nat) (s : ActiveMonitors) : Prop where
  uninstall : ∀ m sub, s.monitors.lookup m = some sub →
    ∃ t, s.tables.uninstallLoop m sub.filterGroup = .ok t
  addSub : ∀ (m : MonitorPtr) (sub : Subscription) (currEventId : Nat), s.monitors.lookup m = none →
    sub.latestEventId = currEventId → ∃ r, s.addSub maxSubs m sub currEventId = .ok r
  removeSub : ∀ connId subId, ∃ s', s.removeSub connId subId = .ok s'
  closeConn : ∀ connId, ∃ s', s.closeConn connId = .ok s'
  process : ∀ levId ev, ∃ r, s.process levId ev = some r

theorem Inv.safe {s : ActiveMonitors} (h : s.Inv) (maxSubs : Nat) : s.Safe maxSubs where
  uninstall m sub hsub := by
    obtain ⟨t, ht, -⟩ := LookupTables.uninstallLookups_spec (h.item_isSome hsub)
    exact ⟨t, (s.tables.uninstallLoop_eq m sub.filterGroup).trans ht⟩
  addSub m sub currEventId unused hcur := by
    obtain ⟨b, s', call, -⟩ := addSub_spec h maxSubs unused sub hcur
    exact ⟨(b, s'), call⟩
  removeSub connId subId := by
    obtain ⟨s', call, -⟩ := removeSub_spec h connId subId
    exact ⟨s', call⟩
  closeConn connId := by
    obtain ⟨s', call, -⟩ := closeConn_spec h connId
    exact ⟨s', call⟩
  process levId ev := by
    obtain ⟨s', recipients, call, -⟩ := process_delivers h levId ev
    exact ⟨_, call⟩

/-- In every state that calls can lead to, the tables hold exactly the filters of the installed
subscriptions, under the keys of their first applicable field, no set in the four maps is empty, and no
lookup of a removal throws. -/
theorem tables_index_installed {maxSubs : Nat} {s : ActiveMonitors} (h : Called maxSubs s) :
    (∀ connId subId sub, s.installed connId subId = some sub →
      ∃ m, s.monitors.lookup m = some sub ∧ sub.connId = connId ∧ sub.subId = subId) ∧
    (∀ f k, (s.tables.item? (f, k)).isSome = true ↔ ∃ sub filter,
      s.monitors.lookup f.mon = some sub ∧ s.installed sub.connId sub.subId = some sub ∧
      sub.filterGroup.filters[f.index]? = some filter ∧ filter.FoundUnder k) ∧
    s.tables.NoEmpty ∧ s.Safe maxSubs := by
  have hinv := h.inv
  refine ⟨fun connId subId sub hsub => (installed_eq_some_iff hinv).mp hsub, fun f k => ?_,
    hinv.noEmpty, hinv.safe maxSubs⟩
  rw [hinv.entered]
  constructor
  · rintro ⟨sub, hsub, he⟩
    obtain ⟨-, filter, hfilter, hk⟩ := LookupTables.mem_entriesOf.mp he
    exact ⟨sub, filter, hsub, (installed_eq_some_iff hinv).mpr ⟨f.mon, hsub, rfl, rfl⟩, hfilter,
      NostrFilter.mem_lookupKeys_iff.mp hk⟩
  · rintro ⟨sub, filter, hsub, -, hfilter, hk⟩
    exact ⟨sub, hsub, LookupTables.mem_entriesOf.mpr
      ⟨rfl, filter, hfilter, NostrFilter.mem_lookupKeys_iff.mpr hk⟩⟩

theorem tables_index_twoMonitors : ∃ s, Called 20 s ∧ (s.tables.item? (⟨0, 0⟩, .kind 1)).isSome = true ∧
    (s.tables.item? (⟨0, 1⟩, .author (List.replicate 32 9))).isSome = true ∧
    (s.tables.item? (⟨1, 0⟩, .kind 2)).isSome = true ∧
    (∀ connId subId sub, s.installed connId subId = some sub →
      ∃ m, s.monitors.lookup m = some sub ∧ sub.connId = connId ∧ sub.subId = subId) ∧
    (∀ f k, (s.tables.item? (f, k)).isSome = true ↔ ∃ sub filter,
      s.monitors.lookup f.mon = some sub ∧ s.installed sub.connId sub.subId = some sub ∧
      sub.filterGroup.filters[f.index]? = some filter ∧ filter.FoundUnder k) ∧
    s.tables.NoEmpty ∧ s.Safe 20 := by
  obtain ⟨g, g', s, s', hfirst, hunused, hsecond, hkind, hauthor, hother, -⟩ := exists_twoMonitors
  have hcalled : Called 20 s' := (Called.start.addSub rfl hfirst).addSub hunused hsecond
  exact ⟨s', hcalled, hkind, hauthor, hother, tables_index_installed hcalled⟩

end ActiveMonitors

end Strfry
