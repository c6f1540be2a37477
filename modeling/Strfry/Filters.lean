import Strfry.FilterSet

/-!
# Filters and filter groups

`NostrFilter` is a compiled filter. Its tag sets are a hash map in the source; here they are a
list in iteration order with distinct names, and no result depends on the order.
`NostrFilter.WF` is what the constructor guarantees about an accepted filter that can match; a
`NostrFilterGroup` holds such filters only, because a filter with an empty array is dropped.
-/

set_option autoImplicit false

namespace Strfry

open Lib

/-- `NostrFilter`. -/
structure NostrFilter where
  ids : Option FilterSetBytes := none
  authors : Option FilterSetBytes := none
  kinds : Option FilterSetUint := none
  tags : List (UInt8 × FilterSetBytes) := []
  since : Nat := 0
  until_ : Nat := maxU64
  limit : Nat := maxU64
  neverMatch : Bool := false
  indexOnlyScans : Bool := false

/-- State of the loop over the members of the filter object. -/
structure FilterLoop where
  filter : NostrFilter := {}
  numMajorFields : Nat := 0

/-- `tags.emplace`, which keeps an entry that is already there. -/
def emplaceTag (tags : List (UInt8 × FilterSetBytes)) (tag : UInt8) (s : FilterSetBytes) :
    List (UInt8 × FilterSetBytes) :=
  if tags.any fun t => t.1 == tag then tags else tags ++ [(tag, s)]

/-- The set of values listed under a tag name. -/
def tagFilterSet (hex : HexCodec) (tag : UInt8) (v : Json) : Except Err FilterSetBytes :=
  if tag = tagP ∨ tag = tagE then FilterSetBytes.make hex v true 32 32
  else FilterSetBytes.make hex v false 0 maxIndexedTagValSize

/-- A member of the filter object that is not an empty array. -/
def addField (hex : HexCodec) (st : FilterLoop) (k : Bytes) (v : Json) : Except Err FilterLoop :=
  if k = ascii "ids" then do
    let s ← FilterSetBytes.make hex v true 32 32
    .ok ⟨{ st.filter with ids := some s }, st.numMajorFields + 1⟩
  else if k = ascii "authors" then do
    let s ← FilterSetBytes.make hex v true 32 32
    .ok ⟨{ st.filter with authors := some s }, st.numMajorFields + 1⟩
  else if k = ascii "kinds" then do
    let s ← FilterSetUint.make v
    .ok ⟨{ st.filter with kinds := some s }, st.numMajorFields + 1⟩
  else if k.head? = some 35 then
    match k with
    | [_, tag] => do
      let s ← tagFilterSet hex tag v
      .ok ⟨{ st.filter with tags := emplaceTag st.filter.tags tag s }, st.numMajorFields + 1⟩
    | _ => .error (.herr "unindexed tag filter")
  else if k = ascii "since" then do
    let n ← v.getUnsigned
    .ok { st with filter := { st.filter with since := n.toNat } }
  else if k = ascii "until" then do
    let n ← v.getUnsigned
    .ok { st with filter := { st.filter with until_ := n.toNat } }
  else if k = ascii "limit" then do
    let n ← v.getUnsigned
    .ok { st with filter := { st.filter with limit := n.toNat } }
  else .error (.herr "unrecognised filter item")

/-- One iteration of the loop over the members: an empty array only sets `neverMatch`. -/
def addMember (hex : HexCodec) (st : FilterLoop) (kv : Bytes × Json) : Except Err FilterLoop :=
  match kv.2 with
  | .array [] => .ok { st with filter := { st.filter with neverMatch := true } }
  | v => addField hex st kv.1 v

/-- The end of the constructor, after the loop. -/
def finishFilter (maxFilterLimit : Nat) (st : FilterLoop) : Except Err NostrFilter :=
  if st.filter.tags.length > 3 then .error (.herr "too many tags in filter")
  else .ok { st.filter with
    limit := if st.filter.limit > maxFilterLimit then maxFilterLimit else st.filter.limit
    indexOnlyScans := st.numMajorFields ≤ 1 ||
      (st.numMajorFields == 2 && st.filter.authors.isSome && st.filter.kinds.isSome) }

namespace NostrFilter

/-- The constructor of `NostrFilter`. -/
def make (hex : HexCodec) (filterObj : Json) (maxFilterLimit : Nat) : Except Err NostrFilter :=
  match filterObj with
  | .object kvs => do
    let st ← kvs.foldlM (addMember hex) {}
    finishFilter maxFilterLimit st
  | _ => .error (.herr "provided filter is not an object")

/-- `doesMatchTimes`. -/
def doesMatchTimes (f : NostrFilter) (created : Nat) : Bool :=
  if created < f.since then false
  else if created > f.until_ then false
  else true

/-- Whether some tag of the event has the name `tag` and a value in the set. -/
def doesMatchTag (ev : PackedEvent) (t : UInt8 × FilterSetBytes) : Bool :=
  ev.tags.any fun evTag => evTag.1 == t.1 && t.2.doesMatch evTag.2

/-- `doesMatch`. -/
def doesMatch (f : NostrFilter) (ev : PackedEvent) : Bool :=
  if f.neverMatch then false
  else if !f.doesMatchTimes ev.createdAt then false
  else if f.ids.any fun s => !s.doesMatch ev.id then false
  else if f.authors.any fun s => !s.doesMatch ev.pubkey then false
  else if f.kinds.any fun s => !s.doesMatch ev.kind then false
  else f.tags.all (doesMatchTag ev)

/-- `isFullDbQuery`. -/
def isFullDbQuery (f : NostrFilter) : Bool :=
  f.ids.isNone && f.authors.isNone && f.kinds.isNone && f.tags.length == 0

theorem doesMatchTimes_iff (f : NostrFilter) (created : Nat) :
    f.doesMatchTimes created = true ↔ f.since ≤ created ∧ created ≤ f.until_ := by
  unfold doesMatchTimes
  split
  · simp; omega
  · split
    · simp; omega
    · simp; omega

theorem doesMatchTag_iff (ev : PackedEvent) (t : UInt8 × FilterSetBytes) :
    doesMatchTag ev t = true ↔ ∃ v, (t.1, v) ∈ ev.tags ∧ v ∈ t.2.elems := by
  simp only [doesMatchTag, List.any_eq_true, Bool.and_eq_true, beq_iff_eq,
    FilterSetBytes.doesMatch_iff]
  constructor
  · rintro ⟨⟨n, v⟩, hmem, rfl, hv⟩
    exact ⟨v, hmem, hv⟩
  · rintro ⟨v, hmem, hv⟩
    exact ⟨(t.1, v), hmem, rfl, hv⟩

/-- `doesMatch` as the conjunction of its conditions. -/
theorem doesMatch_iff (f : NostrFilter) (ev : PackedEvent) :
    f.doesMatch ev = true ↔ f.neverMatch = false ∧
      (f.since ≤ ev.createdAt ∧ ev.createdAt ≤ f.until_) ∧
      (∀ s, f.ids = some s → ev.id ∈ s.elems) ∧
      (∀ s, f.authors = some s → ev.pubkey ∈ s.elems) ∧
      (∀ s, f.kinds = some s → ev.kind ∈ s.items) ∧
      ∀ t ∈ f.tags, ∃ v, (t.1, v) ∈ ev.tags ∧ v ∈ t.2.elems := by
  have hopt : ∀ {α : Type} (o : Option α) (p : α → Bool),
      (o.any fun s => !p s) = false ↔ ∀ s, o = some s → p s = true := by
    intro α o p
    cases o <;> simp
  rw [← doesMatchTimes_iff]
  simp only [← FilterSetBytes.doesMatch_iff, ← FilterSetUint.doesMatch_iff, ← hopt]
  have htags : (∀ t ∈ f.tags, ∃ v, (t.1, v) ∈ ev.tags ∧ t.2.doesMatch v = true) ↔
      f.tags.all (doesMatchTag ev) = true := by
    simp only [List.all_eq_true, doesMatchTag_iff, FilterSetBytes.doesMatch_iff]
  rw [htags]
  unfold doesMatch
  cases f.neverMatch <;> cases f.doesMatchTimes ev.createdAt <;>
    cases f.ids.any (fun s => !s.doesMatch ev.id) <;>
    cases f.authors.any (fun s => !s.doesMatch ev.pubkey) <;>
    cases f.kinds.any (fun s => !s.doesMatch ev.kind) <;> simp

/-- Number of fields that restrict a match by something other than time. -/
def numMajor (f : NostrFilter) : Nat :=
  f.ids.isSome.toNat + f.authors.isSome.toNat + f.kinds.isSome.toNat + f.tags.length

/-- What the constructor guarantees about a filter without empty arrays. -/
structure WF (f : NostrFilter) : Prop where
  canMatch : f.neverMatch = false
  ids_ne : ∀ s, f.ids = some s → s.elems ≠ []
  ids_size : ∀ s, f.ids = some s → ∀ b ∈ s.elems, b.length = 32
  authors_ne : ∀ s, f.authors = some s → s.elems ≠ []
  authors_size : ∀ s, f.authors = some s → ∀ b ∈ s.elems, b.length = 32
  kinds_ne : ∀ s, f.kinds = some s → s.items ≠ []
  tags_ne : ∀ t ∈ f.tags, t.2.elems ≠ []
  tags_nodup : (f.tags.map Prod.fst).Nodup
  tags_le : f.tags.length ≤ 3
  indexOnly : f.indexOnlyScans = true →
    f.numMajor ≤ 1 ∨ (f.numMajor = 2 ∧ f.authors.isSome ∧ f.kinds.isSome)

end NostrFilter

/-- What holds of the filter at every point of the loop over the members. -/
structure FilterLoop.Inv (st : FilterLoop) : Prop where
  ids_ne : ∀ s, st.filter.ids = some s → s.elems ≠ []
  ids_size : ∀ s, st.filter.ids = some s → ∀ b ∈ s.elems, b.length = 32
  authors_ne : ∀ s, st.filter.authors = some s → s.elems ≠ []
  authors_size : ∀ s, st.filter.authors = some s → ∀ b ∈ s.elems, b.length = 32
  kinds_ne : ∀ s, st.filter.kinds = some s → s.items ≠ []
  tags_ne : ∀ t ∈ st.filter.tags, t.2.elems ≠ []
  tags_nodup : (st.filter.tags.map Prod.fst).Nodup
  numMajor_le : st.filter.numMajor ≤ st.numMajorFields

theorem make32 {hex : HexCodec} {v : Json} {s : FilterSetBytes} (hv : v ≠ .array [])
    (h : FilterSetBytes.make hex v true 32 32 = .ok s) :
    s.elems ≠ [] ∧ ∀ b ∈ s.elems, b.length = 32 := by
  obtain ⟨xs, arr, rfl, -, -, hsize⟩ := FilterSetBytes.make_eq_ok h
  refine ⟨FilterSetBytes.elems_ne_nil_of_make h fun hxs => hv (by rw [hxs]), fun b hb => ?_⟩
  have := hsize b hb
  omega

theorem tagFilterSet_ne {hex : HexCodec} {tag : UInt8} {v : Json} {s : FilterSetBytes}
    (hv : v ≠ .array []) (h : tagFilterSet hex tag v = .ok s) : s.elems ≠ [] := by
  unfold tagFilterSet at h
  split at h
  · exact (make32 hv h).1
  · obtain ⟨xs, arr, rfl, -, -, -⟩ := FilterSetBytes.make_eq_ok h
    exact FilterSetBytes.elems_ne_nil_of_make h fun hxs => hv (by rw [hxs])

theorem isSome_toNat_le {α : Type} (o : Option α) : o.isSome.toNat ≤ 1 := by
  cases o <;> simp

/-- What reading a member does: the value is stored under the key. -/
inductive FieldAdded (hex : HexCodec) (st : FilterLoop) : Bytes → Json → FilterLoop → Prop
  | ids {v : Json} {s : FilterSetBytes} : FilterSetBytes.make hex v true 32 32 = .ok s →
      FieldAdded hex st (ascii "ids") v ⟨{ st.filter with ids := some s }, st.numMajorFields + 1⟩
  | authors {v : Json} {s : FilterSetBytes} : FilterSetBytes.make hex v true 32 32 = .ok s →
      FieldAdded hex st (ascii "authors") v ⟨{ st.filter with authors := some s }, st.numMajorFields + 1⟩
  | kinds {v : Json} {s : FilterSetUint} : FilterSetUint.make v = .ok s →
      FieldAdded hex st (ascii "kinds") v ⟨{ st.filter with kinds := some s }, st.numMajorFields + 1⟩
  | tag {tag : UInt8} {v : Json} {s : FilterSetBytes} : tagFilterSet hex tag v = .ok s →
      FieldAdded hex st [35, tag] v
        ⟨{ st.filter with tags := emplaceTag st.filter.tags tag s }, st.numMajorFields + 1⟩
  | since (n : UInt64) : FieldAdded hex st (ascii "since") (.unsigned n)
      { st with filter := { st.filter with since := n.toNat } }
  | until_ (n : UInt64) : FieldAdded hex st (ascii "until") (.unsigned n)
      { st with filter := { st.filter with until_ := n.toNat } }
  | limit (n : UInt64) : FieldAdded hex st (ascii "limit") (.unsigned n)
      { st with filter := { st.filter with limit := n.toNat } }

theorem getUnsigned_eq_ok {v : Json} {n : UInt64} (h : v.getUnsigned = .ok n) : v = .unsigned n := by
  cases v with
  | unsigned m =>
    cases h
    rfl
  | _ => cases h

theorem fieldAdded_of_addField {hex : HexCodec} {st st' : FilterLoop} {k : Bytes} {v : Json}
    (h : addField hex st k v = .ok st') : FieldAdded hex st k v st' := by
  unfold addField at h
  split at h
  · rename_i hk
    obtain ⟨s, hs, h⟩ := bind_eq_ok.1 h
    cases h
    exact hk ▸ .ids hs
  split at h
  · rename_i hk
    obtain ⟨s, hs, h⟩ := bind_eq_ok.1 h
    cases h
    exact hk ▸ .authors hs
  split at h
  · rename_i hk
    obtain ⟨s, hs, h⟩ := bind_eq_ok.1 h
    cases h
    exact hk ▸ .kinds hs
  split at h
  · rename_i hhash
    split at h
    · obtain ⟨s, hs, h⟩ := bind_eq_ok.1 h
      cases h
      cases hhash
      exact .tag hs
    · cases h
  split at h
  · rename_i hk
    obtain ⟨n, hn, h⟩ := bind_eq_ok.1 h
    cases h
    rw [hk, getUnsigned_eq_ok hn]
    exact .since n
  split at h
  · rename_i hk
    obtain ⟨n, hn, h⟩ := bind_eq_ok.1 h
    cases h
    rw [hk, getUnsigned_eq_ok hn]
    exact .until_ n
  split at h
  · rename_i hk
    obtain ⟨n, hn, h⟩ := bind_eq_ok.1 h
    cases h
    rw [hk, getUnsigned_eq_ok hn]
    exact .limit n
  · cases h

/-- An iteration of the loop over the members. -/
theorem addMember_cases {hex : HexCodec} {st st' : FilterLoop} {kv : Bytes × Json}
    (h : addMember hex st kv = .ok st') :
    (kv.2 = .array [] ∧ st' = { st with filter := { st.filter with neverMatch := true } }) ∨
      (kv.2 ≠ .array [] ∧ FieldAdded hex st kv.1 kv.2 st') := by
  rw [addMember] at h
  split at h
  · rename_i hempty
    cases h
    exact .inl ⟨hempty, rfl⟩
  · rename_i v hv
    exact .inr ⟨hv, fieldAdded_of_addField h⟩

theorem FieldAdded.inv {hex : HexCodec} {st st' : FilterLoop} {k : Bytes} {v : Json}
    (h : FieldAdded hex st k v st') (hv : v ≠ .array []) (hst : st.Inv) : st'.Inv := by
  have hids := isSome_toNat_le st.filter.ids
  have hauthors := isSome_toNat_le st.filter.authors
  have hkinds := isSome_toNat_le st.filter.kinds
  have hmajor := hst.numMajor_le
  rw [NostrFilter.numMajor] at hmajor
  cases h with
  | ids hs =>
    obtain ⟨hne, hsize⟩ := make32 hv hs
    refine { hst with ids_ne := ?_, ids_size := ?_, numMajor_le := ?_ }
    · rintro _ ⟨rfl⟩
      exact hne
    · rintro _ ⟨rfl⟩
      exact hsize
    · simp only [NostrFilter.numMajor, Option.isSome_some, Bool.toNat_true]
      omega
  | authors hs =>
    obtain ⟨hne, hsize⟩ := make32 hv hs
    refine { hst with authors_ne := ?_, authors_size := ?_, numMajor_le := ?_ }
    · rintro _ ⟨rfl⟩
      exact hne
    · rintro _ ⟨rfl⟩
      exact hsize
    · simp only [NostrFilter.numMajor, Option.isSome_some, Bool.toNat_true]
      omega
  | kinds hs =>
    refine { hst with kinds_ne := ?_, numMajor_le := ?_ }
    · rintro _ ⟨rfl⟩
      obtain ⟨xs, hxs, -⟩ := bind_eq_ok.1 hs
      cases v with
      | array ys => exact FilterSetUint.items_ne_nil_of_make hs fun hys => hv (by rw [hys])
      | _ => cases hxs
    · simp only [NostrFilter.numMajor, Option.isSome_some, Bool.toNat_true]
      omega
  | @tag tag v s hs =>
    by_cases hany : (st.filter.tags.any fun t => t.1 == tag) = true
    · have hsame : emplaceTag st.filter.tags tag s = st.filter.tags := if_pos hany
      rw [hsame]
      exact { hst with numMajor_le := hst.numMajor_le.trans (Nat.le_succ _) }
    · have hnew : emplaceTag st.filter.tags tag s = st.filter.tags ++ [(tag, s)] := if_neg hany
      rw [hnew]
      refine { hst with tags_ne := ?_, tags_nodup := ?_, numMajor_le := ?_ }
      · intro t ht
        rcases List.mem_append.1 ht with ht | ht
        · exact hst.tags_ne t ht
        · rw [List.mem_singleton] at ht
          subst ht
          exact tagFilterSet_ne hv hs
      · rw [List.map_append, List.nodup_append]
        refine ⟨hst.tags_nodup, by simp, ?_⟩
        intro a ha b hb hab
        obtain ⟨t, ht, rfl⟩ := List.mem_map.1 ha
        simp only [List.map_cons, List.map_nil, List.mem_singleton] at hb
        exact hany (List.any_eq_true.2 ⟨t, ht, by simp [hab, hb]⟩)
      · simp only [NostrFilter.numMajor, List.length_append, List.length_singleton]
        omega
  | since n => exact { hst with }
  | until_ n => exact { hst with }
  | limit n => exact { hst with }

theorem addMember_inv {hex : HexCodec} {st st' : FilterLoop} {kv : Bytes × Json} (hst : st.Inv)
    (h : addMember hex st kv = .ok st') : st'.Inv := by
  rcases addMember_cases h with ⟨-, rfl⟩ | ⟨hv, hfield⟩
  · exact { hst with }
  · exact hfield.inv hv hst

theorem addMembers_inv {hex : HexCodec} {kvs : List (Bytes × Json)} {st st' : FilterLoop}
    (hst : st.Inv) (h : kvs.foldlM (addMember hex) st = .ok st') : st'.Inv := by
  induction kvs generalizing st with
  | nil =>
    cases h
    exact hst
  | cons kv kvs ih =>
    rw [List.foldlM_cons] at h
    obtain ⟨mid, hmid, h⟩ := bind_eq_ok.1 h
    exact ih (addMember_inv hst hmid) h

theorem FilterLoop.inv_start : FilterLoop.Inv {} := by
  constructor <;> simp [NostrFilter.numMajor]

/-- An accepted filter that can match is well formed. -/
theorem NostrFilter.wf_of_make {hex : HexCodec} {v : Json} {maxFilterLimit : Nat} {f : NostrFilter}
    (h : NostrFilter.make hex v maxFilterLimit = .ok f) (hnm : f.neverMatch = false) : f.WF := by
  cases v with
  | object kvs =>
    obtain ⟨st, hst, h⟩ := bind_eq_ok.1 h
    have hinv := addMembers_inv FilterLoop.inv_start hst
    unfold finishFilter at h
    split at h
    · cases h
    · rename_i hlen
      cases h
      refine { hinv with canMatch := hnm, tags_le := not_lt.1 hlen, indexOnly := ?_ }
      intro hio
      have hmajor := hinv.numMajor_le
      simp only [Bool.or_eq_true, Bool.and_eq_true, beq_iff_eq, decide_eq_true_eq] at hio
      show st.filter.numMajor ≤ 1 ∨ (st.filter.numMajor = 2 ∧ _ ∧ _)
      rcases hio with hle | ⟨⟨htwo, ha⟩, hk⟩
      · exact Or.inl (hmajor.trans hle)
      · refine Or.inr ⟨le_antisymm (htwo ▸ hmajor) ?_, ha, hk⟩
        simp only [NostrFilter.numMajor, ha, hk, Bool.toNat_true]
        omega
  | _ => cases h

/-! ## Filters that never match -/

/-- An object with a member that is an empty array. -/
def Json.HasEmptyArray (v : Json) : Prop :=
  ∃ kvs, v = .object kvs ∧ ∃ kv ∈ kvs, kv.2 = .array []

theorem FieldAdded.neverMatch_eq {hex : HexCodec} {st st' : FilterLoop} {k : Bytes} {v : Json}
    (h : FieldAdded hex st k v st') : st'.filter.neverMatch = st.filter.neverMatch := by
  cases h with
  | _ => rfl

theorem addMembers_neverMatch {hex : HexCodec} {kvs : List (Bytes × Json)} {st st' : FilterLoop}
    (h : kvs.foldlM (addMember hex) st = .ok st') :
    st'.filter.neverMatch = true ↔
      st.filter.neverMatch = true ∨ ∃ kv ∈ kvs, kv.2 = .array [] := by
  induction kvs generalizing st with
  | nil =>
    cases h
    simp
  | cons kv kvs ih =>
    rw [List.foldlM_cons] at h
    obtain ⟨mid, hmid, h⟩ := bind_eq_ok.1 h
    rw [ih h, List.exists_mem_cons_iff]
    rcases addMember_cases hmid with ⟨hempty, rfl⟩ | ⟨hv, hfield⟩
    · simp [hempty]
    · rw [hfield.neverMatch_eq]
      simp [hv]

/-- A filter never matches exactly if one of its members is an empty array. -/
theorem NostrFilter.neverMatch_iff {hex : HexCodec} {v : Json} {maxFilterLimit : Nat}
    {f : NostrFilter} (h : NostrFilter.make hex v maxFilterLimit = .ok f) :
    f.neverMatch = true ↔ v.HasEmptyArray := by
  cases v with
  | object kvs =>
    obtain ⟨st, hst, h⟩ := bind_eq_ok.1 h
    have hnever := addMembers_neverMatch hst
    rw [finishFilter] at h
    split at h
    · cases h
    · cases h
      rw [hnever]
      simp [Json.HasEmptyArray]
  | _ => cases h

/-- `NostrFilterGroup`. -/
structure NostrFilterGroup where
  filters : List NostrFilter
  wf : ∀ f ∈ filters, f.WF

namespace NostrFilterGroup

theorem noFilters_wf : ∀ f ∈ ([] : List NostrFilter), f.WF := fun _ h => absurd h List.not_mem_nil

/-- The loop of the constructor: a filter with `neverMatch` is popped again. -/
def compile (hex : HexCodec) (maxFilterLimit : Nat) :
    List Json → Except Err { fs : List NostrFilter // ∀ f ∈ fs, f.WF }
  | [] => .ok ⟨[], by simp⟩
  | v :: vs =>
    match hf : NostrFilter.make hex v maxFilterLimit with
    | .error e => .error e
    | .ok f =>
      match compile hex maxFilterLimit vs with
      | .error e => .error e
      | .ok ⟨fs, hfs⟩ =>
        if hnm : f.neverMatch = true then .ok ⟨fs, hfs⟩
        else .ok ⟨f :: fs, by
          intro g hg
          rcases List.mem_cons.1 hg with rfl | hg
          · exact NostrFilter.wf_of_make hf (Bool.eq_false_iff.2 hnm)
          · exact hfs g hg⟩

/-- The constructor of `NostrFilterGroup`: the first two elements are the command and the
subscription id. -/
def ofReq (hex : HexCodec) (req : Json) (maxFilterLimit : Nat) : Except Err NostrFilterGroup := do
  let arr ← req.getArray
  if arr.length < 3 then .error (.herr "too small")
  else
    let fs ← compile hex maxFilterLimit (arr.drop 2)
    .ok ⟨fs.1, fs.2⟩

/-- The filters that `unwrapped` compiles: the elements of an array, or the value itself. -/
def unwrappedElems (filter : Json) : List Json :=
  match filter with
  | .array xs => xs
  | v => [v]

/-- `NostrFilterGroup::unwrapped`. -/
def unwrapped (hex : HexCodec) (filter : Json) (maxFilterLimit : Nat) :
    Except Err NostrFilterGroup :=
  ofReq hex (.array (.string (ascii "REQ") :: .string (ascii "junkSub") ::
    unwrappedElems filter)) maxFilterLimit

theorem compile_singleton {hex : HexCodec} {v : Json} {limit : Nat} {f : NostrFilter}
    (h : NostrFilter.make hex v limit = .ok f) (hnm : f.neverMatch = false) :
    ∃ fs, compile hex limit [v] = .ok fs ∧ fs.1 = [f] := by
  rw [compile]
  split
  · rename_i e he
    rw [h] at he
    cases he
  · rename_i f' hf'
    rw [h] at hf'
    cases hf'
    refine ⟨⟨[f], ?_⟩, ?_, rfl⟩
    · intro g hg
      rw [List.mem_singleton] at hg
      exact hg ▸ NostrFilter.wf_of_make h hnm
    · simp only [compile]
      rw [dif_neg (by rw [hnm]; exact nofun)]

/-- An object that compiles to a filter that can match is a group of one filter. -/
theorem unwrapped_object {hex : HexCodec} {kvs : List (Bytes × Json)} {limit : Nat}
    {f : NostrFilter} (h : NostrFilter.make hex (.object kvs) limit = .ok f)
    (hnm : f.neverMatch = false) :
    ∃ g, unwrapped hex (.object kvs) limit = .ok g ∧ g.filters = [f] := by
  obtain ⟨fs, hfs, heq⟩ := compile_singleton h hnm
  refine ⟨⟨fs.1, fs.2⟩, ?_, heq⟩
  simp only [unwrapped, unwrappedElems, ofReq, Json.getArray, bind, Except.bind, List.length_cons,
    List.drop_succ_cons, List.drop_zero, hfs]
  rfl

theorem compile_eq_nil_iff {hex : HexCodec} {limit : Nat} {vs : List Json}
    {fs : { fs : List NostrFilter // ∀ f ∈ fs, f.WF }} (h : compile hex limit vs = .ok fs) :
    fs.1 = [] ↔ ∀ v ∈ vs, v.HasEmptyArray := by
  induction vs generalizing fs with
  | nil =>
    cases h
    simp
  | cons v vs ih =>
    rw [compile] at h
    split at h
    · cases h
    · rename_i f hf
      have hnever := NostrFilter.neverMatch_iff hf
      split at h
      · cases h
      · rename_i gs hgs heq
        have ih := ih heq
        rw [List.forall_mem_cons, ← hnever]
        split at h
        · rename_i hnm
          cases h
          simp only [hnm, true_and]
          exact ih
        · rename_i hnm
          cases h
          simp [hnm]

/-- A group is empty exactly if every one of its filters has an empty array. -/
theorem unwrapped_eq_nil_iff {hex : HexCodec} {filter : Json} {limit : Nat} {g : NostrFilterGroup}
    (h : unwrapped hex filter limit = .ok g) :
    g.filters = [] ↔ ∀ v ∈ unwrappedElems filter, v.HasEmptyArray := by
  simp only [unwrapped, ofReq, Json.getArray, bind, Except.bind] at h
  split at h
  · cases h
  · split at h
    · cases h
    · rename_i fs hfs
      cases h
      exact compile_eq_nil_iff hfs

/-- `doesMatch`. -/
def doesMatch (g : NostrFilterGroup) (ev : PackedEvent) : Bool :=
  g.filters.any fun f => f.doesMatch ev

/-- `size`. -/
def size (g : NostrFilterGroup) : Nat := g.filters.length

/-- `isFullDbQuery`. -/
def isFullDbQuery (g : NostrFilterGroup) : Bool :=
  match g.filters with
  | [f] => f.isFullDbQuery
  | _ => false

theorem doesMatch_iff (g : NostrFilterGroup) (ev : PackedEvent) :
    g.doesMatch ev = true ↔ ∃ f ∈ g.filters, f.doesMatch ev = true := by
  simp [doesMatch]

/-- The group of one filter that restricts nothing but the number of events. -/
def unrestricted (limit : Nat) : NostrFilterGroup where
  filters := [{ limit := limit, indexOnlyScans := true }]
  wf := by
    intro f hf
    rw [List.mem_singleton] at hf
    subst hf
    constructor <;> simp [NostrFilter.numMajor]

end NostrFilterGroup

/-! ## Filters without a limit -/

/-- A filter that has no member `limit`. -/
def Json.Unlimited (v : Json) : Prop :=
  ∀ kvs, v = .object kvs → ∀ kv ∈ kvs, kv.1 ≠ ascii "limit"

theorem Json.unlimited_object {kvs : List (Bytes × Json)} (h : ascii "limit" ∉ kvs.map Prod.fst) :
    (Json.object kvs).Unlimited := by
  rintro kvs' ⟨⟩ kv hkv heq
  exact h (heq ▸ List.mem_map_of_mem hkv)

theorem FieldAdded.limit_eq {hex : HexCodec} {s s' : FilterLoop} {k : Bytes} {v : Json}
    (h : FieldAdded hex s k v s') (hk : k ≠ ascii "limit") : s'.filter.limit = s.filter.limit := by
  cases h with
  | limit n => exact (hk rfl).elim
  | _ => rfl

theorem addMembers_limit {hex : HexCodec} {kvs : List (Bytes × Json)} {s s' : FilterLoop}
    (hk : ∀ kv ∈ kvs, kv.1 ≠ ascii "limit") (h : kvs.foldlM (addMember hex) s = .ok s') :
    s'.filter.limit = s.filter.limit := by
  induction kvs generalizing s with
  | nil =>
    cases h
    rfl
  | cons kv kvs ih =>
    rw [List.foldlM_cons] at h
    obtain ⟨s₁, hs₁, h⟩ := bind_eq_ok.1 h
    rw [List.forall_mem_cons] at hk
    rw [ih hk.2 h]
    rcases addMember_cases hs₁ with ⟨-, rfl⟩ | ⟨-, hfield⟩
    · rfl
    · exact hfield.limit_eq hk.1

/-- A filter without a limit is cut at the bound. -/
theorem NostrFilter.limit_of_unlimited {hex : HexCodec} {v : Json} {maxFilterLimit : Nat}
    {f : NostrFilter} (hv : v.Unlimited) (hle : maxFilterLimit ≤ maxU64)
    (h : NostrFilter.make hex v maxFilterLimit = .ok f) : f.limit = maxFilterLimit := by
  cases v with
  | object kvs =>
    obtain ⟨s, hs, h⟩ := bind_eq_ok.1 h
    have hlimit : s.filter.limit = maxU64 := addMembers_limit (hv kvs rfl) hs
    rw [finishFilter] at h
    split at h
    · cases h
    · cases h
      show (if s.filter.limit > maxFilterLimit then maxFilterLimit else s.filter.limit) = _
      rw [hlimit]
      split <;> omega
  | _ => cases h

theorem NostrFilterGroup.compile_limit {hex : HexCodec} {maxFilterLimit : Nat} {vs : List Json}
    {fs : { fs : List NostrFilter // ∀ f ∈ fs, f.WF }} (hv : ∀ v ∈ vs, v.Unlimited)
    (hle : maxFilterLimit ≤ maxU64) (h : compile hex maxFilterLimit vs = .ok fs) :
    ∀ f ∈ fs.1, f.limit = maxFilterLimit := by
  induction vs generalizing fs with
  | nil =>
    cases h
    simp
  | cons v vs ih =>
    rw [List.forall_mem_cons] at hv
    rw [compile] at h
    split at h
    · cases h
    · rename_i f hf
      split at h
      · cases h
      · rename_i gs hgs heq
        have ih := ih hv.2 heq
        split at h
        · cases h
          exact ih
        · cases h
          rw [List.forall_mem_cons]
          exact ⟨NostrFilter.limit_of_unlimited hv.1 hle hf, ih⟩

theorem NostrFilterGroup.unwrapped_limit {hex : HexCodec} {filter : Json} {maxFilterLimit : Nat}
    {g : NostrFilterGroup} (hv : ∀ v ∈ unwrappedElems filter, v.Unlimited)
    (hle : maxFilterLimit ≤ maxU64) (h : unwrapped hex filter maxFilterLimit = .ok g) :
    ∀ f ∈ g.filters, f.limit = maxFilterLimit := by
  simp only [unwrapped, ofReq, Json.getArray, bind, Except.bind] at h
  split at h
  · cases h
  · split at h
    · cases h
    · rename_i fs hfs
      cases h
      exact compile_limit hv hle hfs

end Strfry
