import Strfry.NegentropyTrees

/-!
# What the trees mirror

A tree whose filter is an object without a limit has, from the commit of its build on, the pairs of the stored
events that match the filter and no others, and every range of it those between the bounds
(`trees_mirror_store`). It is so in every run whose builds fit: `cmd_negentropy build` finds its events with a
`DBQuery`, whose candidates have 40 bits for the timestamp and 24 for the cursor. A build in a store with a
later timestamp can leave out events, which no transaction puts into the tree again
(`build_leaves_out_note`).
-/

set_option autoImplicit false

namespace Strfry

open Lib

namespace TreeRun

/-- A step of any run: a build commits what it has found, whether or not it fits. -/
inductive Commit (ord : IndexOrder) (hex : HexCodec) (text : JsonText) : TreeRun → TreeRun → Prop
  | other {s : TreeRun} {w : Writers} : Writers.Step ord hex text s.writers w →
      (w.added = s.writers.added → w.db.modificationCounter = s.writers.db.modificationCounter) →
      Commit ord hex text s { s with writers := w }
  | build {s : TreeRun} (S : StdSort) (slices : List Nat) {treeId : Nat} {db' : Db} :
      s.writers.db.buildTree S ord hex text slices treeId = some (.ok db') →
      Commit ord hex text s ⟨{ s.writers with db := db' }, treeId :: s.built⟩

/-- A build of the step fits. -/
def FitsBuild (hex : HexCodec) (text : JsonText) (s s' : TreeRun) : Prop :=
  ∀ treeId, s'.built = treeId :: s.built → BuildFits hex text s.writers.db treeId

/-- A step of a run whose builds fit. -/
def FitCommit (ord : IndexOrder) (hex : HexCodec) (text : JsonText) (s s' : TreeRun) : Prop :=
  Commit ord hex text s s' ∧ FitsBuild hex text s s'

/-- The tree has the pairs of the stored events that match the filter, and each of its ranges those of them
between the bounds. The last timestamp that there is lies outside of every range. -/
structure Mirrors (db : Db) (f : NostrFilter) (treeId : Nat) : Prop where
  tree : ∀ x, x ∈ db.trees treeId ↔
    ∃ r ∈ db.event.rows, f.doesMatch r.2 = true ∧ itemOf r = x
  range : ∀ bounds : NostrFilter, bounds.until_ ≤ maxU64 → ∀ x, x ∈ subRange (db.trees treeId) bounds ↔
    ∃ r ∈ db.event.rows, f.doesMatch r.2 = true ∧
      (bounds.since ≤ r.2.createdAt ∧ r.2.createdAt ≤ bounds.until_ ∧ r.2.createdAt ≠ maxU64) ∧ itemOf r = x

section Run

variable {ord : IndexOrder} {hex : HexCodec} {text : JsonText} {s s' : TreeRun}

theorem fitCommit_iff : FitCommit ord hex text s s' ↔ Step ord hex text s s' := by
  constructor
  · rintro ⟨hcommit, hfits⟩
    cases hcommit with
    | other hstep hcounter => exact .other hstep hcounter
    | build S slices hbuild => exact .build S slices (hfits _ rfl) hbuild
  · intro hstep
    cases hstep with
    | other hstep hcounter =>
      refine ⟨.other hstep hcounter, fun treeId hbuilt => ?_⟩
      exact absurd hbuilt.symm (List.cons_ne_self _ _)
    | build S slices hfits hbuild =>
      refine ⟨.build S slices hbuild, fun treeId hbuilt => ?_⟩
      rw [← (List.cons.inj hbuilt).1]
      exact hfits

/-- A run whose builds fit is one of these steps. -/
theorem fitRun_iff : Relation.ReflTransGen (FitCommit ord hex text) s s' ↔
    Relation.ReflTransGen (Step ord hex text) s s' := by
  have heq : FitCommit ord hex text = Step ord hex text := by
    funext a b
    exact propext fitCommit_iff
  rw [heq]

theorem commits_of_run (h : Relation.ReflTransGen (Step ord hex text) s s') :
    Relation.ReflTransGen (Commit ord hex text) s s' := by
  induction h with
  | refl => exact .refl
  | tail _ hstep ih => exact ih.tail (fitCommit_iff.mpr hstep).1

theorem Mirrors.of_tree {db : Db} {f : NostrFilter} {treeId : Nat}
    (h : ∀ x, x ∈ db.trees treeId ↔ ∃ r ∈ db.event.rows, f.doesMatch r.2 = true ∧ itemOf r = x) :
    Mirrors db f treeId := by
  refine ⟨h, fun bounds hle x => ?_⟩
  rw [mem_subRange hle, h]
  constructor
  · rintro ⟨⟨r, hr, hmatch, rfl⟩, hbounds⟩
    exact ⟨r, hr, hmatch, hbounds, rfl⟩
  · rintro ⟨r, hr, hmatch, hbounds, rfl⟩
    exact ⟨⟨r, hr, hmatch, rfl⟩, hbounds⟩

/-- A row whose text is that of an object compiles to the filter of the object. -/
theorem make_of_row (h : s.Inv hex text) (htext : text.RoundTrips) {row : Nat × Bytes}
    (hrow : row ∈ s.writers.db.negentropyFilter.rows) {kvs : List (Bytes × Json)}
    (hobject : text.fromString row.2 = .ok (.object kvs)) :
    ∃ f, NostrFilter.make hex (.object kvs) maxU64 = .ok f := by
  rcases h.writers.added_of_row row hrow with rfl | ⟨a, ha, -, v, hv, hcanonical⟩
  · -- the default filter
    rw [htext.empty] at hobject
    cases hobject
    exact ⟨_, rfl⟩
  · obtain ⟨v', limit, g, hv', hg, hne⟩ := h.writers.accepted a ha
    have heq : v' = v := Except.ok.inj (hv'.symm.trans hv)
    subst heq
    rw [hcanonical, htext.again hv] at hobject
    cases hobject
    obtain ⟨f, hf, -⟩ := NostrFilterGroup.unwrapped_of_object hg hne
    obtain ⟨f', hf', -⟩ := NostrFilter.make_limit hf maxU64
    exact ⟨f', hf'⟩

/-- In every run whose builds fit, a tree whose filter is an object without a limit mirrors the store from the
commit of its build on, and the default tree from the start. -/
theorem trees_mirror_store (htext : text.RoundTrips)
    (hrun : Relation.ReflTransGen (FitCommit ord hex text) init s)
    {row : Nat × Bytes} (hrow : row ∈ s.writers.db.negentropyFilter.rows) {kvs : List (Bytes × Json)}
    (hobject : text.fromString row.2 = .ok (.object kvs)) (hunlimited : (Json.object kvs).Unlimited)
    (hbuilt : row.1 ∈ s.built) :
    ∃ f, NostrFilter.make hex (.object kvs) maxU64 = .ok f ∧
      ∀ s', Relation.ReflTransGen (FitCommit ord hex text) s s' → Mirrors s'.writers.db f row.1 := by
  have hreach : Reachable ord hex text s := fitRun_iff.mp hrun
  obtain ⟨f, hf⟩ := make_of_row hreach.inv htext hrow hobject
  -- every process compiles the row to this filter, whenever it reads it
  have hcompile : compileRow hex text row = .ok ⟨f, row.1⟩ := by
    rw [compileRow, hobject]
    exact bind_eq_ok.mpr ⟨_, rfl, bind_eq_ok.mpr ⟨f, hf, rfl⟩⟩
  have hlimit : f.limit = maxU64 := NostrFilter.limit_of_unlimited hunlimited le_rfl hf
  refine ⟨f, hf, fun s' hafter => ?_⟩
  have hsteps := fitRun_iff.mp hafter
  -- rows and builds are never undone, so that the tree is still built at the end
  obtain ⟨hrow', hbuilt'⟩ := Reachable.keeps hreach hsteps hrow hbuilt
  exact .of_tree (selected_of_run (hreach.trans hsteps) hrow' hcompile hlimit hbuilt')

end Run

/-- The tree for notes mirrors the two that are stored. -/
theorem trees_mirror_store_notes :
    ∃ (s : TreeRun) (f : NostrFilter), NostrFilter.make hexCodec Writers.notesFilter maxU64 = .ok f ∧
      s.writers.db.trees 2 = {(20, List.replicate 32 1), (10, List.replicate 32 2)} ∧
      Mirrors s.writers.db f 2 := by
  obtain ⟨s, hreach, hrows, hbuilt, htree⟩ := exists_notesRun
  have hrun : Relation.ReflTransGen (FitCommit byteOrder hexCodec Writers.threeTexts) init s :=
    fitRun_iff.mpr hreach
  have hrow : ((2, Writers.notesText) : Nat × Bytes) ∈ s.writers.db.negentropyFilter.rows := by
    rw [hrows]
    exact List.mem_cons_of_mem _ List.mem_cons_self
  have hunlimited : (Json.object [(ascii "kinds", .array [.unsigned 1])]).Unlimited :=
    Json.unlimited_object (by decide)
  obtain ⟨f, hf, hmirrors⟩ := trees_mirror_store Writers.roundTrips_threeTexts hrun hrow rfl hunlimited
    (by rw [hbuilt]; exact List.mem_cons_self)
  exact ⟨s, f, hf, htree, hmirrors s .refl⟩

/-! ## A build that does not fit -/

/-- Notes of fifty seconds, and one with a timestamp of 41 bits. -/
def lateNotes : List EventToWrite :=
  ⟨repeatedEvent 60 9 (2 ^ 40) 1, [], .pending, 0, 0⟩ ::
    (List.range 50).map fun n => ⟨repeatedEvent (.ofNat (n + 1)) 9 (.ofNat (n + 1)) 1, [], .pending, 0, 0⟩

theorem submitted_lateNotes : Submitted hexCodec lateNotes := by
  intro ev hev
  rcases List.mem_cons.mp hev with rfl | hev
  · exact ⟨rfl, fromJson_plainEvent _ _ _ _ _ _⟩
  · obtain ⟨n, -, rfl⟩ := List.mem_map.mp hev
    exact ⟨rfl, fromJson_plainEvent _ _ _ _ _ _⟩

/-- The filter for two kinds, whose scan has two cursors. -/
def twoKinds : List (Bytes × Json) := [(ascii "kinds", .array [.unsigned 1, .unsigned 2])]

def twoKindsText : Bytes := ascii "\x7b\"kinds\":[1,2]\x7d"

/-- A parser that knows the default filter and that for two kinds. -/
def twoKindsTexts : JsonText where
  fromString s :=
    if s = emptyFilterText then .ok (.object [])
    else if s = twoKindsText then .ok (.object twoKinds)
    else .error .badJson
  toString := Json.print

/-- The database when the notes have been written, a tree for two kinds been added, and it been built. -/
def lateTree : Except Err (Db × Db × Db) := do
  let written ← (writeEvents .insertion byteOrder hexCodec twoKindsTexts {} Db.init lateNotes).2
  let added ← written.1.negentropyAdd hexCodec twoKindsTexts 500 twoKindsText
  match added.2.buildTree .insertion byteOrder hexCodec twoKindsTexts [1000] 2 with
  | some (.ok db) => .ok (written.1, added.2, db)
  | some (.error e) => .error e
  | none => .error .badJson

/-- The candidate of the late note says that it is from cursor `1` and of the time `0`. It comes last, so that
cursor `0` has one candidate of its first fifty outstanding for ever, and is not asked for more: the build
leaves out the earliest note. -/
theorem build_leaves_out_note :
    ∃ s f, Relation.ReflTransGen (Commit byteOrder hexCodec twoKindsTexts) init s ∧
      (2, twoKindsText) ∈ s.writers.db.negentropyFilter.rows ∧
      twoKindsTexts.fromString twoKindsText = .ok (.object twoKinds) ∧ (Json.object twoKinds).Unlimited ∧
      2 ∈ s.built ∧ NostrFilter.make hexCodec (.object twoKinds) maxU64 = .ok f ∧
      (1, repeatedEvent 1 9 1 1) ∈ s.writers.db.event.rows ∧ f.doesMatch (repeatedEvent 1 9 1 1) = true ∧
      itemOf (1, repeatedEvent 1 9 1 1) ∉ s.writers.db.trees 2 := by
  have heval : lateTree.map (fun r => (r.2.2.negentropyFilter.rows,
      r.2.2.event.rows.contains (1, repeatedEvent 1 9 1 1),
      decide (itemOf (1, repeatedEvent 1 9 1 1) ∈ r.2.2.trees 2))) =
        .ok ([(1, emptyFilterText), (2, twoKindsText)], true, false) := by
    decide +kernel
  -- the three commits of the run: the notes, the row of the tree, and its build
  obtain ⟨⟨_, added, db⟩, hrun, heq⟩ := map_eq_ok.mp heval
  obtain ⟨⟨written, evs'⟩, hwrite, hrun⟩ := bind_eq_ok.mp hrun
  obtain ⟨⟨treeId, added'⟩, hadd, hrun⟩ := bind_eq_ok.mp hrun
  have hbuild : added'.buildTree .insertion byteOrder hexCodec twoKindsTexts [1000] 2 = some (.ok db) := by
    simp only at hrun
    split at hrun
    · rename_i hbuild
      cases hrun
      exact hbuild
    · cases hrun
    · cases hrun
  simp only [Prod.mk.injEq] at heq
  obtain ⟨hrows, hstored, htree⟩ := heq
  obtain ⟨s, hreach, rfl, -⟩ := exists_addedRun submitted_lateNotes hwrite hadd
  have hunlimited : (Json.object twoKinds).Unlimited := Json.unlimited_object (by decide)
  -- the first note matches, and is stored
  have hfilter : (NostrFilter.make hexCodec (.object twoKinds) maxU64).map
      (fun f => f.doesMatch (repeatedEvent 1 9 1 1)) = .ok true := by
    decide +kernel
  obtain ⟨f, hf, hmatch⟩ := map_eq_ok.mp hfilter
  have hbuild : Commit byteOrder hexCodec twoKindsTexts s ⟨{ s.writers with db := db }, 2 :: s.built⟩ :=
    .build .insertion [1000] hbuild
  have hrow : (2, twoKindsText) ∈ db.negentropyFilter.rows := by
    rw [hrows]
    exact List.mem_cons_of_mem _ List.mem_cons_self
  exact ⟨_, f, (commits_of_run hreach).tail hbuild, hrow, rfl, hunlimited, List.mem_cons_self, hf,
    List.contains_iff_mem.mp hstored, hmatch, of_decide_eq_false htree⟩

end TreeRun

end Strfry
