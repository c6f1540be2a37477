import Strfry.StoreInvariants

/-!
# The filters of the trees

`cmd_negentropy add` checks a filter with `NostrFilterGroup::unwrapped`, which takes an object or an array
of objects, and saves its text. `freshenCache` reads the text again with the constructor of a single
filter, which takes an object only. A tree that is added with an array therefore makes every later
`freshenCache` throw, and with it every write.

`Writers` is the database with the caches of the processes. Its invariant says that a cache that is up to
date is what a reload would give, and that the rows are the canonical texts of the filters added.
-/

set_option autoImplicit false

namespace Strfry

open Lib

/-- What the program relies on of the JSON library: it reads the text of the default filter, and a value
that it has read it reads again after it has printed it. -/
structure JsonText.RoundTrips (text : JsonText) : Prop where
  empty : text.fromString emptyFilterText = .ok (.object [])
  again : ∀ {s : Bytes} {v : Json}, text.fromString s = .ok v → text.fromString (text.toString v) = .ok v

/-! ## cmd_negentropy -/

/-- The single filter of a group has bounds on the time. -/
def NostrFilterGroup.singleWithBounds (g : NostrFilterGroup) : Bool :=
  match g.filters with
  | [f] => f.since ≠ 0 || f.until_ ≠ maxU64
  | _ => false

/-- `cmd_negentropy add`: the id of the tree, and the database that is committed. -/
def Db.negentropyAdd (hex : HexCodec) (text : JsonText) (maxFilterLimit : Nat) (db : Db)
    (filterStr : Bytes) : Except Err (Nat × Db) := do
  let filterJson ← text.fromString filterStr
  let compiledFilter ← NostrFilterGroup.unwrapped hex filterJson maxFilterLimit
  if compiledFilter.singleWithBounds then .error (.herr "single filters should not have since/until")
  else if compiledFilter.size = 0 then .error (.herr "filter will never match")
  else
    let canonical := text.toString filterJson
    match db.negentropyFilter.rows.find? fun row => row.2 = canonical with
    | some row => .error (.herr ("filter already exists as tree: " ++ toString row.1))
    | none =>
      let r := db.negentropyFilter.insertNext canonical
      .ok (r.1, { db with modificationCounter := db.modificationCounter + 1, negentropyFilter := r.2 })

/-- What `cmd_negentropy build` commits when it has made `tree` out of the events it has found. -/
def Db.negentropyBuild (db : Db) (treeId : Nat) (tree : Tree) : Db :=
  { db with
    modificationCounter := db.modificationCounter + 1
    trees := Function.update db.trees treeId tree }

/-! ## One filter, read in two ways -/

section Filters

variable {hex : HexCodec} {text : JsonText}

theorem finishFilter_doesMatch {limit : Nat} {st : FilterLoop} {f : NostrFilter}
    (h : finishFilter limit st = .ok f) (ev : PackedEvent) : f.doesMatch ev = st.filter.doesMatch ev := by
  rw [finishFilter] at h
  split at h
  · cases h
  · cases h
    rfl

theorem finishFilter_ok {limit : Nat} {st : FilterLoop} {f : NostrFilter}
    (h : finishFilter limit st = .ok f) (limit' : Nat) : ∃ f', finishFilter limit' st = .ok f' := by
  rw [finishFilter] at h
  split at h
  · cases h
  · rename_i htags
    exact ⟨_, if_neg htags⟩

/-- The limit is not looked at when an object is compiled or an event matched. -/
theorem NostrFilter.make_limit {v : Json} {limit : Nat} {f : NostrFilter}
    (h : NostrFilter.make hex v limit = .ok f) (limit' : Nat) :
    ∃ f', NostrFilter.make hex v limit' = .ok f' ∧ ∀ ev, f'.doesMatch ev = f.doesMatch ev := by
  cases v with
  | object kvs =>
    obtain ⟨st, hst, hfinish⟩ := bind_eq_ok.1 h
    obtain ⟨f', hf'⟩ := finishFilter_ok hfinish limit'
    refine ⟨f', bind_eq_ok.2 ⟨st, hst, hf'⟩, fun ev => ?_⟩
    rw [finishFilter_doesMatch hf', finishFilter_doesMatch hfinish]
  | _ => cases h

theorem NostrFilterGroup.compile_cons {limit : Nat} {v : Json} {vs : List Json}
    {fs : { fs : List NostrFilter // ∀ f ∈ fs, f.WF }} (h : compile hex limit (v :: vs) = .ok fs) :
    ∃ f, NostrFilter.make hex v limit = .ok f := by
  rw [compile] at h
  split at h
  · cases h
  · rename_i f hf
    exact ⟨f, hf⟩

/-- The group of an object that is not empty is its filter alone. -/
theorem NostrFilterGroup.unwrapped_of_object {limit : Nat} {kvs : List (Bytes × Json)}
    {g : NostrFilterGroup} (h : unwrapped hex (.object kvs) limit = .ok g) (hne : g.filters ≠ []) :
    ∃ f, NostrFilter.make hex (.object kvs) limit = .ok f ∧ g.filters = [f] := by
  obtain ⟨f, hf⟩ : ∃ f, NostrFilter.make hex (.object kvs) limit = .ok f := by
    simp only [unwrapped, unwrappedElems, ofReq, Json.getArray, bind, Except.bind, List.length_cons,
      List.drop_succ_cons, List.drop_zero] at h
    split at h
    · cases h
    · split at h
      · cases h
      · rename_i fs hfs
        exact compile_cons hfs
  have hcan : f.neverMatch = false := by
    rw [Bool.eq_false_iff, Ne, NostrFilter.neverMatch_iff hf]
    intro hempty
    apply hne
    rw [unwrapped_eq_nil_iff h]
    intro v hv
    rcases List.mem_singleton.mp hv with rfl
    exact hempty
  obtain ⟨g', hg', hfilters⟩ := unwrapped_object hf hcan
  rw [h] at hg'
  cases hg'
  exact ⟨f, hf, hfilters⟩

/-- A filter that the command accepts is an object or an array. -/
theorem NostrFilterGroup.object_or_array {limit : Nat} {v : Json} {g : NostrFilterGroup}
    (h : unwrapped hex v limit = .ok g) : (∃ kvs, v = .object kvs) ∨ ∃ xs, v = .array xs := by
  cases v with
  | object kvs => exact .inl ⟨kvs, rfl⟩
  | array xs => exact .inr ⟨xs, rfl⟩
  | _ =>
    simp only [unwrapped, unwrappedElems, ofReq, Json.getArray, bind, Except.bind, List.length_cons,
      List.drop_succ_cons, List.drop_zero] at h
    split at h
    · cases h
    · split at h
      · cases h
      · rename_i fs hfs
        obtain ⟨f, hf⟩ := compile_cons hfs
        cases hf

end Filters

/-! ## A reload -/

section Reload

/-- Every element of a list has its partner in a list that corresponds to it. -/
theorem exists_of_forall₂ {α β : Type} {R : α → β → Prop} {as : List α} {bs : List β}
    (h : List.Forall₂ R as bs) {a : α} (ha : a ∈ as) : ∃ b ∈ bs, R a b := by
  induction h with
  | nil => cases ha
  | cons hab _ ih =>
    rcases List.mem_cons.mp ha with rfl | ha
    · exact ⟨_, List.mem_cons_self, hab⟩
    · obtain ⟨b, hb, hR⟩ := ih ha
      exact ⟨b, List.mem_cons_of_mem _ hb, hR⟩

variable {hex : HexCodec} {text : JsonText}

/-- What is in the cache after a reload that succeeds. -/
theorem loadFilters_eq_ok {rows : List (Nat × Bytes)} {acc infos : List FilterInfo}
    (h : loadFilters hex text rows acc = (infos, .ok ())) :
    ∃ loaded, infos = acc ++ loaded ∧
      List.Forall₂ (fun row info => compileRow hex text row = .ok info) rows loaded := by
  induction rows generalizing acc with
  | nil =>
    cases h
    exact ⟨[], (List.append_nil _).symm, .nil⟩
  | cons row rows ih =>
    rw [loadFilters] at h
    split at h
    · cases h
    · rename_i info hinfo
      obtain ⟨loaded, rfl, hall⟩ := ih h
      exact ⟨info :: loaded, by simp, .cons hinfo hall⟩

/-- A reload succeeds when every row compiles. -/
theorem loadFilters_ok {rows : List (Nat × Bytes)} {acc : List FilterInfo}
    (h : ∀ row ∈ rows, ∃ info, compileRow hex text row = .ok info) :
    ∃ infos, loadFilters hex text rows acc = (infos, .ok ()) := by
  induction rows generalizing acc with
  | nil => exact ⟨acc, rfl⟩
  | cons row rows ih =>
    obtain ⟨info, hinfo⟩ := h row List.mem_cons_self
    simp only [loadFilters, hinfo]
    exact ih fun row hrow => h row (List.mem_cons_of_mem _ hrow)

/-- An object that was accepted compiles alone, and matches what its group matches. -/
theorem compileRow_of_object {filterStr : Bytes} {row : Nat × Bytes} {kvs : List (Bytes × Json)}
    {limit : Nat} {g : NostrFilterGroup} (htext : text.RoundTrips)
    (hparse : text.fromString filterStr = .ok (.object kvs))
    (hrow : row.2 = text.toString (.object kvs))
    (hg : NostrFilterGroup.unwrapped hex (.object kvs) limit = .ok g) (hne : g.filters ≠ []) :
    ∃ info, compileRow hex text row = .ok info ∧ info.treeId = row.1 ∧
      ∀ ev, info.f.doesMatch ev = g.doesMatch ev := by
  obtain ⟨f, hf, hfilters⟩ := NostrFilterGroup.unwrapped_of_object hg hne
  obtain ⟨f', hf', hmatch⟩ := NostrFilter.make_limit hf maxU64
  refine ⟨⟨f', row.1⟩, ?_, rfl, fun ev => ?_⟩
  · rw [compileRow, hrow, htext.again hparse]
    exact bind_eq_ok.2 ⟨_, rfl, bind_eq_ok.2 ⟨f', hf', rfl⟩⟩
  · rw [NostrFilterGroup.doesMatch, hfilters, hmatch ev]
    simp

/-- An array does not compile alone. -/
theorem compileRow_of_array {filterStr : Bytes} {row : Nat × Bytes} {xs : List Json}
    (htext : text.RoundTrips) (hparse : text.fromString filterStr = .ok (.array xs))
    (hrow : row.2 = text.toString (.array xs)) :
    compileRow hex text row = .error (.herr "provided filter is not an object") := by
  rw [compileRow, hrow, htext.again hparse]
  rfl

theorem compileRow_default (htext : text.RoundTrips) (treeId : Nat) :
    ∃ info, compileRow hex text (treeId, emptyFilterText) = .ok info := by
  rw [compileRow, htext.empty]
  exact ⟨_, rfl⟩

end Reload

/-! ## Runs of any number of processes -/

/-- The database, the caches of the processes, and as a history the texts that `add` was given with the
ids of their trees. -/
structure Writers where
  db : Db
  cacheOf : Nat → NegentropyFilterCache
  added : List (Nat × Bytes)

namespace Writers

/-- An empty database, and no cache filled. -/
def init : Writers := ⟨Db.init, fun _ => {}, []⟩

/-- A transaction of a process, or a process that starts again. A write that throws leaves the cache as
`freshenCache` has made it. -/
inductive Step (ord : IndexOrder) (hex : HexCodec) (text : JsonText) : Writers → Writers → Prop
  | write {s : Writers} (p : Nat) (S : StdSort) {cache' : NegentropyFilterCache} {db' : Db}
      {evs evs' : List EventToWrite} : Submitted hex evs →
      writeEvents S ord hex text (s.cacheOf p) s.db evs = (cache', .ok (db', evs')) →
      Step ord hex text s { s with db := db', cacheOf := Function.update s.cacheOf p cache' }
  | writeFails {s : Writers} (p : Nat) (S : StdSort) {cache' : NegentropyFilterCache}
      {evs : List EventToWrite} {e : Err} :
      writeEvents S ord hex text (s.cacheOf p) s.db evs = (cache', .error e) →
      Step ord hex text s { s with cacheOf := Function.update s.cacheOf p cache' }
  | delete {s : Writers} (p : Nat) {cache' : NegentropyFilterCache} {db' : Db} {levIds : List Nat}
      {numDeleted : Nat} :
      s.db.deleteEvents hex text (s.cacheOf p) levIds = (cache', .ok (db', numDeleted)) →
      Step ord hex text s { s with db := db', cacheOf := Function.update s.cacheOf p cache' }
  | deleteFails {s : Writers} (p : Nat) {cache' : NegentropyFilterCache} {levIds : List Nat} {e : Err} :
      s.db.deleteEvents hex text (s.cacheOf p) levIds = (cache', .error e) →
      Step ord hex text s { s with cacheOf := Function.update s.cacheOf p cache' }
  | add {s : Writers} (maxFilterLimit : Nat) {filterStr : Bytes} {treeId : Nat} {db' : Db} :
      s.db.negentropyAdd hex text maxFilterLimit filterStr = .ok (treeId, db') →
      Step ord hex text s { s with db := db', added := s.added ++ [(treeId, filterStr)] }
  | build {s : Writers} (treeId : Nat) (tree : Tree) :
      Step ord hex text s { s with db := s.db.negentropyBuild treeId tree }
  | start {s : Writers} (p : Nat) :
      Step ord hex text s { s with cacheOf := Function.update s.cacheOf p {} }

/-- What any order of these steps can reach. -/
def Reachable (ord : IndexOrder) (hex : HexCodec) (text : JsonText) : Writers → Prop :=
  Relation.ReflTransGen (Step ord hex text) init

/-- The cache knows the rows of the database when it has its counter. -/
def UpToDate (hex : HexCodec) (text : JsonText) (db : Db) (cache : NegentropyFilterCache) : Prop :=
  cache.modificationCounter = db.modificationCounter →
    loadFilters hex text db.negentropyFilter.rows [] = (cache.filters, .ok ())

/-- A text that `add` has accepted: its value compiles to a group that is not empty. -/
def Accepted (hex : HexCodec) (text : JsonText) (filterStr : Bytes) : Prop :=
  ∃ v limit g, text.fromString filterStr = .ok v ∧
    NostrFilterGroup.unwrapped hex v limit = .ok g ∧ g.filters ≠ []

/-- The canonical text of a text. -/
def Canonical (text : JsonText) (filterStr row : Bytes) : Prop :=
  ∃ v, text.fromString filterStr = .ok v ∧ row = text.toString v

/-- The invariant. -/
structure Inv (hex : HexCodec) (text : JsonText) (s : Writers) : Prop where
  store : StoreInv s.db.toStore
  counter_pos : 0 < s.db.modificationCounter
  counter_le : ∀ p, (s.cacheOf p).modificationCounter ≤ s.db.modificationCounter
  upToDate : ∀ p, UpToDate hex text s.db (s.cacheOf p)
  accepted : ∀ a ∈ s.added, Accepted hex text a.2
  row_of_added : ∀ a ∈ s.added, ∃ row ∈ s.db.negentropyFilter.rows,
    row.1 = a.1 ∧ Canonical text a.2 row.2
  added_of_row : ∀ row ∈ s.db.negentropyFilter.rows, row = (1, emptyFilterText) ∨
    ∃ a ∈ s.added, row.1 = a.1 ∧ Canonical text a.2 row.2

section Run

variable {ord : IndexOrder} {hex : HexCodec} {text : JsonText} {s s' : Writers}

theorem inv_init : init.Inv hex text where
  store := storeInv_empty
  counter_pos := Nat.one_pos
  counter_le _ := Nat.zero_le _
  upToDate _ := nofun
  accepted := nofun
  row_of_added := nofun
  added_of_row row hrow := by
    rcases Table.mem_rows_insertNext.mp hrow with rfl | hrow
    · exact .inl rfl
    · cases hrow

/-- A cache that has been freshened has at most the counter of the database, and is up to date. -/
theorem freshen_spec {db : Db} {cache : NegentropyFilterCache}
    (hle : cache.modificationCounter ≤ db.modificationCounter) (h : UpToDate hex text db cache) :
    (cache.freshen hex text db).1.modificationCounter ≤ db.modificationCounter ∧
      UpToDate hex text db (cache.freshen hex text db).1 := by
  rw [NegentropyFilterCache.freshen]
  by_cases hne : db.modificationCounter ≠ cache.modificationCounter
  · rw [if_pos hne]
    split
    · -- the counter stays behind, so that the part that was loaded is never taken for the whole
      exact ⟨hle, fun heq => absurd heq.symm hne⟩
    · rename_i filters hload
      exact ⟨le_rfl, fun _ => hload⟩
  · rw [if_neg hne]
    exact ⟨hle, h⟩

theorem writeEvents_fst {S : StdSort} {cache : NegentropyFilterCache} {db : Db}
    {evs : List EventToWrite} :
    (writeEvents S ord hex text cache db evs).1 = (cache.freshen hex text db).1 := by
  rw [writeEvents]
  split <;> simp_all

theorem deleteEvents_fst {cache : NegentropyFilterCache} {db : Db} {levIds : List Nat} :
    (db.deleteEvents hex text cache levIds).1 = (cache.freshen hex text db).1 := by
  rw [Db.deleteEvents]
  split <;> simp_all

/-- The caches after one process has freshened its own. -/
theorem Inv.freshen (h : s.Inv hex text) (p : Nat) {cache' : NegentropyFilterCache}
    (hcache : cache' = ((s.cacheOf p).freshen hex text s.db).1) :
    Inv hex text { s with cacheOf := Function.update s.cacheOf p cache' } := by
  obtain ⟨hle, hnew⟩ := freshen_spec (h.counter_le p) (h.upToDate p)
  refine { h with counter_le := fun q => ?_, upToDate := fun q => ?_ }
  · by_cases hq : q = p
    · subst hq
      simp only [Function.update_self, hcache]
      exact hle
    · simp only [Function.update_of_ne hq]
      exact h.counter_le q
  · by_cases hq : q = p
    · subst hq
      simp only [Function.update_self, hcache]
      exact hnew
    · simp only [Function.update_of_ne hq]
      exact h.upToDate q

/-- Another database with the same filters. -/
theorem Inv.sameFilters (h : s.Inv hex text) {db' : Db} (hsame : s.db.SameFilters db')
    (hstore : StoreInv db'.toStore) : Inv hex text { s with db := db' } where
  store := hstore
  counter_pos := hsame.1 ▸ h.counter_pos
  counter_le p := hsame.1 ▸ h.counter_le p
  upToDate p heq := hsame.2 ▸ h.upToDate p (heq.trans hsame.1)
  accepted := h.accepted
  row_of_added := hsame.2 ▸ h.row_of_added
  added_of_row := hsame.2 ▸ h.added_of_row

/-- With a new counter every cache is out of date. -/
theorem Inv.upToDate_succ (h : s.Inv hex text) {db' : Db}
    (hcounter : db'.modificationCounter = s.db.modificationCounter + 1) (p : Nat) :
    (s.cacheOf p).modificationCounter ≤ db'.modificationCounter ∧
      UpToDate hex text db' (s.cacheOf p) := by
  have hle := h.counter_le p
  refine ⟨by omega, fun heq => ?_⟩
  omega

end Run

end Writers

/-- What `add` commits when it does. -/
theorem Db.negentropyAdd_eq_ok {hex : HexCodec} {text : JsonText} {maxFilterLimit treeId : Nat}
    {db db' : Db} {filterStr : Bytes}
    (h : db.negentropyAdd hex text maxFilterLimit filterStr = .ok (treeId, db')) :
    Writers.Accepted hex text filterStr ∧ ∃ v, text.fromString filterStr = .ok v ∧
      treeId = db.negentropyFilter.lastKey + 1 ∧ db' = { db with
        modificationCounter := db.modificationCounter + 1
        negentropyFilter := (db.negentropyFilter.insertNext (text.toString v)).2 } := by
  obtain ⟨v, hv, h⟩ := bind_eq_ok.1 h
  obtain ⟨g, hg, h⟩ := bind_eq_ok.1 h
  split at h
  · cases h
  · split at h
    · cases h
    · rename_i hsize
      have hne : g.filters ≠ [] := fun hnil => hsize (by rw [NostrFilterGroup.size, hnil]; rfl)
      simp only at h
      split at h
      · cases h
      · cases h
        exact ⟨⟨v, maxFilterLimit, g, hv, hg, hne⟩, v, hv, rfl, rfl⟩

namespace Writers

section Run

variable {ord : IndexOrder} {hex : HexCodec} {text : JsonText} {s s' : Writers}

/-- The step lemma. -/
theorem Step.inv (hstep : Step ord hex text s s') (h : s.Inv hex text) : s'.Inv hex text := by
  cases hstep with
  | @write p S cache' db' evs evs' hsub hok =>
    have hres : (writeEvents S ord hex text (s.cacheOf p) s.db evs).2 = .ok (db', evs') := by rw [hok]
    have hrun := writeEvents_run h.store hsub.writable hres
    have hstore := hrun.storeInv h.store (hsub.writable.perm (S.perm _ _))
    refine (h.freshen p ?_).sameFilters (Db.sameFilters_writeRun hrun) hstore
    rw [← @writeEvents_fst ord hex text S _ _ evs, hok]
  | @writeFails p S cache' evs e hok =>
    apply h.freshen p
    rw [← @writeEvents_fst ord hex text S _ _ evs, hok]
  | @delete p cache' db' levIds numDeleted hok =>
    have hres : (s.db.deleteEvents hex text (s.cacheOf p) levIds).2 = .ok (db', numDeleted) := by
      rw [hok]
    have hdb := deleteEvents_eq_ok hres
    refine (h.freshen p ?_).sameFilters (hdb ▸ Db.sameFilters_deleteLoop levIds s.db)
      (hdb ▸ h.store.deleteLoop _)
    rw [← @deleteEvents_fst hex text _ _ levIds, hok]
  | @deleteFails p cache' levIds e hok =>
    apply h.freshen p
    rw [← @deleteEvents_fst hex text _ _ levIds, hok]
  | @add maxFilterLimit filterStr treeId db' hok =>
    -- the counter moves on, so every cache is reloaded before it is used again
    obtain ⟨hacc, v, hv, rfl, rfl⟩ := Db.negentropyAdd_eq_ok hok
    have hold := @Inv.upToDate_succ hex text s h { s.db with
      modificationCounter := s.db.modificationCounter + 1
      negentropyFilter := (s.db.negentropyFilter.insertNext (text.toString v)).2 } rfl
    refine ⟨h.store, Nat.succ_pos _, fun p => (hold p).1, fun p => (hold p).2, ?_, ?_, ?_⟩
    · intro a ha
      rcases List.mem_append.mp ha with ha | ha
      · exact h.accepted a ha
      · rcases List.mem_singleton.mp ha with rfl
        exact hacc
    · -- every text still has its row
      intro a ha
      rcases List.mem_append.mp ha with ha | ha
      · obtain ⟨row, hrow, heq⟩ := h.row_of_added a ha
        exact ⟨row, Table.mem_rows_insertNext.mpr (.inr hrow), heq⟩
      · rcases List.mem_singleton.mp ha with rfl
        exact ⟨_, Table.mem_rows_insertNext.mpr (.inl rfl), rfl, v, hv, rfl⟩
    · -- every row still has its text
      intro row hrow
      rcases Table.mem_rows_insertNext.mp hrow with rfl | hrow
      · exact .inr ⟨_, List.mem_append_right _ (List.mem_singleton_self _), rfl, v, hv, rfl⟩
      · rcases h.added_of_row row hrow with hdefault | ⟨a, ha, heq⟩
        · exact .inl hdefault
        · exact .inr ⟨a, List.mem_append_left _ ha, heq⟩
  | build treeId tree =>
    have hold := @Inv.upToDate_succ hex text s h (s.db.negentropyBuild treeId tree) rfl
    exact ⟨h.store, Nat.succ_pos _, fun p => (hold p).1, fun p => (hold p).2, h.accepted,
      h.row_of_added, h.added_of_row⟩
  | start p =>
    refine { h with counter_le := fun q => ?_, upToDate := fun q => ?_ }
    · by_cases hq : q = p
      · subst hq
        simp
      · simp only [Function.update_of_ne hq]
        exact h.counter_le q
    · by_cases hq : q = p
      · -- an empty cache has the counter zero, and the database never has
        subst hq
        simp only [Function.update_self]
        intro heq
        exact absurd heq h.counter_pos.ne
      · simp only [Function.update_of_ne hq]
        exact h.upToDate q

/-- The run lemma. -/
theorem Reachable.inv (h : Reachable ord hex text s) : s.Inv hex text := by
  induction h with
  | refl => exact inv_init
  | tail _ hstep ih => exact hstep.inv ih

/-- The text is that of a single filter. -/
def IsObject (text : JsonText) (filterStr : Bytes) : Prop :=
  ∃ kvs, text.fromString filterStr = .ok (.object kvs)

/-- The trees that were added can be maintained by the process: its cache can be made up to date, the
entries match what the groups of the texts match, and no write throws. -/
structure Maintained (ord : IndexOrder) (hex : HexCodec) (text : JsonText) (s : Writers) (p : Nat) :
    Prop where
  freshens : ((s.cacheOf p).freshen hex text s.db).2 = .ok ()
  cached : ∀ a ∈ s.added, ∃ info ∈ ((s.cacheOf p).freshen hex text s.db).1.filters, info.treeId = a.1
  matching : ∀ a ∈ s.added, ∀ info ∈ ((s.cacheOf p).freshen hex text s.db).1.filters,
    info.treeId = a.1 → ∀ v limit g, text.fromString a.2 = .ok v →
      NostrFilterGroup.unwrapped hex v limit = .ok g → ∀ ev, info.f.doesMatch ev = g.doesMatch ev
  deletes : ∀ levIds, ∃ r, (s.db.deleteEvents hex text (s.cacheOf p) levIds).2 = .ok r
  writes : ∀ S evs, Submitted hex evs → ∃ r, (writeEvents S ord hex text (s.cacheOf p) s.db evs).2 = .ok r

/-- After a reload that succeeds the rows and the entries correspond. -/
theorem Inv.loaded (h : s.Inv hex text) {p : Nat}
    (hok : ((s.cacheOf p).freshen hex text s.db).2 = .ok ()) :
    List.Forall₂ (fun row info => compileRow hex text row = .ok info) s.db.negentropyFilter.rows
      ((s.cacheOf p).freshen hex text s.db).1.filters := by
  have hload : loadFilters hex text s.db.negentropyFilter.rows [] =
      (((s.cacheOf p).freshen hex text s.db).1.filters, .ok ()) := by
    rw [NegentropyFilterCache.freshen] at hok ⊢
    by_cases hne : s.db.modificationCounter ≠ (s.cacheOf p).modificationCounter
    · rw [if_pos hne] at hok ⊢
      split at hok
      · cases hok
      · rename_i filters hload
        rw [hload]
    · rw [if_neg hne]
      exact h.upToDate p (not_not.mp hne).symm
  obtain ⟨loaded, heq, hall⟩ := loadFilters_eq_ok hload
  rw [heq]
  exact hall

/-- Every row compiles when all that was added are objects. -/
theorem Inv.compiles (h : s.Inv hex text) (htext : text.RoundTrips)
    (hobjects : ∀ a ∈ s.added, IsObject text a.2) :
    ∀ row ∈ s.db.negentropyFilter.rows, ∃ info, compileRow hex text row = .ok info := by
  intro row hrow
  rcases h.added_of_row row hrow with rfl | ⟨a, ha, -, v, hv, heq⟩
  · exact compileRow_default htext 1
  · obtain ⟨kvs, hkvs⟩ := hobjects a ha
    obtain ⟨v', limit, g, hv', hg, hne⟩ := h.accepted a ha
    rw [hkvs] at hv hv'
    cases hv
    cases hv'
    obtain ⟨info, hinfo, -⟩ := compileRow_of_object htext hkvs heq hg hne
    exact ⟨info, hinfo⟩

/-- What is cached for the tree of an object. -/
theorem Inv.entry (h : s.Inv hex text) (htext : text.RoundTrips) {a : Nat × Bytes} (ha : a ∈ s.added)
    {kvs : List (Bytes × Json)} (hkvs : text.fromString a.2 = .ok (.object kvs)) :
    ∃ row ∈ s.db.negentropyFilter.rows, row.1 = a.1 ∧ ∃ info, compileRow hex text row = .ok info ∧
      info.treeId = a.1 ∧ ∀ limit g, NostrFilterGroup.unwrapped hex (.object kvs) limit = .ok g →
        ∀ ev, info.f.doesMatch ev = g.doesMatch ev := by
  obtain ⟨row, hrow, hid, v, hv, heq⟩ := h.row_of_added a ha
  obtain ⟨v', limit, g, hv', hg, hne⟩ := h.accepted a ha
  rw [hkvs] at hv hv'
  cases hv
  cases hv'
  obtain ⟨info, hinfo, htree, hmatch⟩ := compileRow_of_object htext hkvs heq hg hne
  refine ⟨row, hrow, hid, info, hinfo, htree.trans hid, fun limit' g' hg' ev => ?_⟩
  -- a group with another limit is not empty either
  have hne' : g'.filters ≠ [] := by
    rw [Ne, NostrFilterGroup.unwrapped_eq_nil_iff hg'] 
    rwa [Ne, NostrFilterGroup.unwrapped_eq_nil_iff hg] at hne
  obtain ⟨info', hinfo', -, hmatch'⟩ := compileRow_of_object htext hkvs heq hg' hne'
  rw [hinfo] at hinfo'
  cases hinfo'
  exact hmatch' ev

/-- In every state that any order of writes, deletions, additions and builds can reach, a process can
maintain the trees exactly if every filter that was added is an object. -/
theorem maintained_iff_objects (htext : text.RoundTrips) (h : Reachable ord hex text s) (p : Nat) :
    Maintained ord hex text s p ↔ ∀ a ∈ s.added, IsObject text a.2 := by
  have hinv := h.inv
  constructor
  · intro hmaintained a ha
    obtain ⟨v, limit, g, hv, hg, -⟩ := hinv.accepted a ha
    rcases NostrFilterGroup.object_or_array hg with ⟨kvs, rfl⟩ | ⟨xs, rfl⟩
    · exact ⟨kvs, hv⟩
    · -- the row of an array would have been compiled
      obtain ⟨row, hrow, -, v', hv', heq⟩ := hinv.row_of_added a ha
      rw [hv] at hv'
      cases hv'
      obtain ⟨info, -, hinfo⟩ := exists_of_forall₂ (hinv.loaded hmaintained.freshens) hrow
      rw [compileRow_of_array htext hv heq] at hinfo
      cases hinfo
  · intro hobjects
    have hfresh : ((s.cacheOf p).freshen hex text s.db).2 = .ok () := by
      obtain ⟨infos, hload⟩ := loadFilters_ok (hinv.compiles htext hobjects)
      rw [NegentropyFilterCache.freshen]
      split
      · rw [hload]
      · rfl
    have hloaded := hinv.loaded hfresh
    refine ⟨hfresh, fun a ha => ?_, fun a ha info hinfo htree v limit g hv hg ev => ?_, fun levIds => ?_,
      fun S evs hsub => ?_⟩
    · obtain ⟨kvs, hkvs⟩ := hobjects a ha
      obtain ⟨row, hrow, -, info, hinfo, htree, -⟩ := hinv.entry htext ha hkvs
      obtain ⟨info', hmem, hinfo'⟩ := exists_of_forall₂ hloaded hrow
      rw [hinfo] at hinfo'
      cases hinfo'
      exact ⟨info, hmem, htree⟩
    · obtain ⟨kvs, hkvs⟩ := hobjects a ha
      rw [hkvs] at hv
      cases hv
      obtain ⟨row, hrow, hid, info', hinfo', -, hmatch⟩ := hinv.entry htext ha hkvs
      -- the entry comes from the row with its id
      obtain ⟨row', hrow', hcompile⟩ := exists_of_forall₂ hloaded.flip hinfo
      have hid' : info.treeId = row'.1 := by
        obtain ⟨v, -, hcompile⟩ := bind_eq_ok.1 hcompile
        obtain ⟨f, -, hcompile⟩ := bind_eq_ok.1 hcompile
        cases hcompile
        rfl
      have hrows : row' = row := by
        have hkey : row'.1 = row.1 := hid'.symm.trans (htree.trans hid.symm)
        exact Prod.ext hkey (Table.eq_of_mem (hkey ▸ hrow') hrow)
      subst hrows
      have : info = info' := Except.ok.inj (hcompile.symm.trans hinfo')
      subst this
      exact hmatch limit g hg ev
    · rw [Db.deleteEvents]
      split
      · rename_i cache' e heq
        rw [heq] at hfresh
        cases hfresh
      · exact ⟨_, rfl⟩
    · cases hres : (writeEvents S ord hex text (s.cacheOf p) s.db evs).2 with
      | ok r => exact ⟨r, rfl⟩
      | error e =>
        rw [writeEvents_error_iff hinv.store hsub.writable, hfresh] at hres
        cases hres

end Run

/-- The filter for notes. -/
def notesFilter : Json := .object [(ascii "kinds", .array [.unsigned 1])]

def notesText : Bytes := ascii "\x7b\"kinds\":[1]\x7d"

def notesArrayText : Bytes := ascii "[\x7b\"kinds\":[1]\x7d]"

/-- A parser that knows three texts. -/
def threeTexts : JsonText where
  fromString s :=
    if s = emptyFilterText then .ok (.object [])
    else if s = notesText then .ok notesFilter
    else if s = notesArrayText then .ok (.array [notesFilter])
    else .error .badJson
  toString v :=
    match v with
    | .object [] => emptyFilterText
    | .array _ => notesArrayText
    | _ => notesText

theorem roundTrips_threeTexts : threeTexts.RoundTrips where
  empty := rfl
  again {s v} h := by
    simp only [threeTexts] at h
    split_ifs at h
    · cases h
      rfl
    · cases h
      rfl
    · cases h
      rfl

/-- The state after `add` with a text in a new database. -/
def afterAdd (filterStr : Bytes) : Except Err Writers :=
  (Db.init.negentropyAdd hexCodec threeTexts 500 filterStr).map fun r =>
    ⟨r.2, fun _ => {}, [(r.1, filterStr)]⟩

theorem reachable_afterAdd {ord : IndexOrder} {filterStr : Bytes} {s : Writers}
    (h : afterAdd filterStr = .ok s) : Reachable ord hexCodec threeTexts s := by
  obtain ⟨⟨treeId, db'⟩, hok, rfl⟩ := map_eq_ok.1 h
  exact .single (@Step.add _ _ _ init 500 filterStr treeId db' hok)

/-- The tree for notes can be maintained. -/
theorem maintained_iff_objects_notes : ∃ s, Reachable byteOrder hexCodec threeTexts s ∧
    s.added = [(2, notesText)] ∧ Maintained byteOrder hexCodec threeTexts s 0 := by
  have heval : ((afterAdd notesText).map fun s => s.added) = .ok [(2, notesText)] := by decide +kernel
  obtain ⟨s, hs, hadded⟩ := map_eq_ok.1 heval
  refine ⟨s, reachable_afterAdd hs, hadded,
    (maintained_iff_objects roundTrips_threeTexts (reachable_afterAdd hs) 0).mpr fun a ha => ?_⟩
  rw [hadded, List.mem_singleton] at ha
  subst ha
  exact ⟨_, rfl⟩

/-- `add` accepts the filter for notes as an array of one filter, and afterwards no process can write or
delete anything. -/
theorem array_filter_blocks_writes : threeTexts.RoundTrips ∧
    ∃ s, Reachable byteOrder hexCodec threeTexts s ∧ s.added = [(2, notesArrayText)] ∧
      ∀ p, ¬ Maintained byteOrder hexCodec threeTexts s p ∧
        ((s.cacheOf p).freshen hexCodec threeTexts s.db).2 =
          .error (.herr "provided filter is not an object") ∧
        (∀ levIds, (s.db.deleteEvents hexCodec threeTexts (s.cacheOf p) levIds).2 =
          .error (.herr "provided filter is not an object")) ∧
        ∀ S evs, (writeEvents S byteOrder hexCodec threeTexts (s.cacheOf p) s.db evs).2 =
          .error (.herr "provided filter is not an object") := by
  have heval : ((afterAdd notesArrayText).map fun s =>
      (s.added, s.db.modificationCounter, s.db.negentropyFilter.rows)) =
        .ok ([(2, notesArrayText)], 2, [(1, emptyFilterText), (2, notesArrayText)]) := by
    decide +kernel
  obtain ⟨s, hs, heq⟩ := map_eq_ok.1 heval
  simp only [Prod.mk.injEq] at heq
  refine ⟨roundTrips_threeTexts, s, reachable_afterAdd hs, heq.1, fun p => ?_⟩
  have hcache : s.cacheOf p = {} := by
    obtain ⟨r, -, rfl⟩ := map_eq_ok.1 hs
    rfl
  have hfresh : ((s.cacheOf p).freshen hexCodec threeTexts s.db).2 =
      .error (.herr "provided filter is not an object") := by
    rw [hcache, NegentropyFilterCache.freshen, if_pos (by rw [heq.2.1]; decide), heq.2.2]
    rfl
  refine ⟨fun h => ?_, hfresh, fun levIds => ?_, fun S evs => ?_⟩
  · have hok := h.freshens
    rw [hfresh] at hok
    cases hok
  · rw [Db.deleteEvents]
    split
    · rename_i cache' e hres
      rw [hres] at hfresh
      cases hfresh
      rfl
    · rename_i cache' hres
      rw [hres] at hfresh
      cases hfresh
  · rw [writeEvents]
    split
    · rename_i cache' e hres
      rw [hres] at hfresh
      cases hfresh
      rfl
    · rename_i cache' hres
      rw [hres] at hfresh
      cases hfresh

end Writers

end Strfry
