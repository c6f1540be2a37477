import Strfry.Filters
import Strfry.Lib.Faults

/-!
# What is wrong with a filter

The constructors of a filter group stop at the first thing that is wrong: with an exception of their own,
or with one of a library, when a value has another type or a text is not hex. `groupFault` finds it in the
JSON value, without compiling anything; `judges_unwrapped` says that it is what the constructors throw.
-/

set_option autoImplicit false

namespace Strfry

open Lib FilterSetBytes

/-- The first thing that is wrong with a filter. -/
inductive FilterFault
  /-- A fault that the constructors report in a text of their own about the filter. -/
  | own
  /-- There is no filter at all. -/
  | tooSmall
  /-- An access to a value of another type, or a text that is not hex. -/
  | library (e : Err)

/-- The texts of the constructors about a filter. -/
def filterMessages : List String :=
  ["filter item too small", "filter item too large", "total filter items too large",
    "provided filter is not an object", "unindexed tag filter", "unrecognised filter item",
    "too many tags in filter"]

/-- The exception is thrown for the fault. -/
def FilterFault.Thrown : FilterFault → Err → Prop
  | own, e => ∃ msg ∈ filterMessages, e = .herr msg
  | tooSmall, e => e = .herr "too small"
  | library e', e => e = e'

theorem judges_own {α : Type} {msg : String} (h : msg ∈ filterMessages) :
    Judges FilterFault.Thrown (some .own) (.error (.herr msg) : Except Err α) :=
  judges_error ⟨msg, h, rfl⟩

/-! ## The faults of a JSON value -/

section Faults

variable (hex : HexCodec)

/-- An element of a list of values: it must be a string, hex where it is decoded, and of a fitting size. -/
def itemFault (hexDecode : Bool) (minSize maxSize : Nat) : Json → Option FilterFault
  | .string s =>
    match decodeText hex hexDecode s with
    | .error e => some (.library e)
    | .ok item => if item.length < minSize ∨ maxSize < item.length then some .own else none
  | _ => some (.library .badJson)

/-- The distinct elements do not fit into the buffer. -/
def tooLargeFault (hexDecode : Bool) (minSize maxSize : Nat) (xs : List Json) : Option FilterFault :=
  match xs.mapM (decodeItem hex hexDecode minSize maxSize) with
  | .ok arr => if (distinctOf arr).flatten.length > 65535 then some .own else none
  | .error _ => none

/-- A list of values. -/
def bytesFault (hexDecode : Bool) (minSize maxSize : Nat) : Json → Option FilterFault
  | .array xs => (xs.findSome? (itemFault hex hexDecode minSize maxSize)).or
      (tooLargeFault hex hexDecode minSize maxSize xs)
  | _ => some (.library .badJson)

/-- A number. -/
def unsignedFault : Json → Option FilterFault
  | .unsigned _ => none
  | _ => some (.library .badJson)

/-- A list of numbers. -/
def kindsFault : Json → Option FilterFault
  | .array xs => xs.findSome? unsignedFault
  | _ => some (.library .badJson)

/-- The values of a tag. -/
def tagFault (tag : UInt8) (v : Json) : Option FilterFault :=
  if tag = tagP ∨ tag = tagE then bytesFault hex true 32 32 v
  else bytesFault hex false 0 maxIndexedTagValSize v

/-- A member that is not an empty array. -/
def fieldFault (k : Bytes) (v : Json) : Option FilterFault :=
  if k = ascii "ids" then bytesFault hex true 32 32 v
  else if k = ascii "authors" then bytesFault hex true 32 32 v
  else if k = ascii "kinds" then kindsFault v
  else if k.head? = some 35 then
    match k with
    | [_, tag] => tagFault hex tag v
    | _ => some .own
  else if k = ascii "since" then unsignedFault v
  else if k = ascii "until" then unsignedFault v
  else if k = ascii "limit" then unsignedFault v
  else some .own

/-- A member. -/
def memberFault (kv : Bytes × Json) : Option FilterFault :=
  match kv.2 with
  | .array [] => none
  | v => fieldFault hex kv.1 v

/-- The name of the tag in a key. -/
def tagOfKey (k : Bytes) : Option UInt8 :=
  match k with
  | [c, tag] => if c = 35 then some tag else none
  | _ => none

/-- The name of the tag that a member restricts. -/
def restrictedTag (kv : Bytes × Json) : Option UInt8 :=
  match kv.2 with
  | .array [] => none
  | _ => tagOfKey kv.1

/-- A filter: the members in the order of the object, and last the number of tags. -/
def filterFault : Json → Option FilterFault
  | .object kvs => (kvs.findSome? (memberFault hex)).or
      (if (kvs.filterMap restrictedTag).toFinset.card > 3 then some .own else none)
  | _ => some .own

/-- A filter or an array of filters, which must not be empty. -/
def groupFault (v : Json) : Option FilterFault :=
  match NostrFilterGroup.unwrappedElems v with
  | [] => some .tooSmall
  | x :: xs => (x :: xs).findSome? (filterFault hex)

end Faults

/-! ## The constructors throw for these faults -/

section Constructors

variable {hex : HexCodec} {hexDecode : Bool} {minSize maxSize : Nat}

theorem judges_decodeItem (v : Json) :
    Judges FilterFault.Thrown (itemFault hex hexDecode minSize maxSize v)
      (decodeItem hex hexDecode minSize maxSize v) := by
  cases v with
  | string s =>
    rw [itemFault, decodeItem]
    simp only [Json.getString, bind, Except.bind]
    cases decodeText hex hexDecode s with
    | error e => exact judges_error rfl
    | ok item =>
      by_cases hsmall : item.length < minSize
      · simp only [hsmall, true_or, if_true]
        exact judges_own (by decide)
      · by_cases hlarge : maxSize < item.length
        · simp only [hsmall, hlarge, or_true, if_true, if_false]
          exact judges_own (by decide)
        · simp only [hsmall, hlarge, or_self, if_false]
          exact judges_ok _
  | _ => exact judges_error rfl

theorem make_of_error {xs : List Json} {e : Err} (hmax : maxSize ≤ maxIndexedTagValSize)
    (h : xs.mapM (decodeItem hex hexDecode minSize maxSize) = .error e) :
    FilterSetBytes.make hex (.array xs) hexDecode minSize maxSize = .error e := by
  rw [FilterSetBytes.make, dif_neg (Nat.not_lt.mpr hmax)]
  simp only
  split
  · rename_i e' he'
    rw [he'] at h
    cases h
    rfl
  · rename_i arr harr
    rw [harr] at h
    cases h

theorem make_of_decoded {xs : List Json} {arr : List Bytes} (hmax : maxSize ≤ maxIndexedTagValSize)
    (h : xs.mapM (decodeItem hex hexDecode minSize maxSize) = .ok arr) :
    ∃ hsize, FilterSetBytes.make hex (.array xs) hexDecode minSize maxSize = ofArray arr hsize := by
  rw [FilterSetBytes.make, dif_neg (Nat.not_lt.mpr hmax)]
  simp only
  split
  · rename_i e he
    rw [he] at h
    cases h
  · rename_i arr' harr'
    rw [harr'] at h
    cases h
    exact ⟨fun x hx => (size_of_mem_mapM harr' x hx).2.trans hmax, rfl⟩

theorem judges_bytes (hmax : maxSize ≤ maxIndexedTagValSize) (v : Json) :
    Judges FilterFault.Thrown (bytesFault hex hexDecode minSize maxSize v)
      (FilterSetBytes.make hex v hexDecode minSize maxSize) := by
  cases v with
  | array xs =>
    -- the elements are checked in the loop, the size of the buffer after it
    have hitems := judges_mapM (@judges_decodeItem hex hexDecode minSize maxSize) xs
    rw [bytesFault, tooLargeFault]
    cases hmap : xs.mapM (decodeItem hex hexDecode minSize maxSize) with
    | error e =>
      rw [hmap] at hitems
      obtain ⟨fault, hfault, hthrown⟩ := hitems
      rw [make_of_error hmax hmap, hfault, Option.some_or]
      exact judges_error hthrown
    | ok arr =>
      rw [hmap] at hitems
      have hnone : xs.findSome? (itemFault hex hexDecode minSize maxSize) = none := hitems
      obtain ⟨hsize, hmake⟩ := make_of_decoded hmax hmap
      rw [hmake, hnone, Option.none_or, ofArray]
      simp only [bufferOf_buf]
      by_cases hlarge : (distinctOf arr).flatten.length > 65535
      · simp only [hlarge, if_true, dite_true]
        exact judges_own (by decide)
      · simp only [hlarge, if_false, dite_false]
        exact judges_ok _
  | _ =>
    rw [FilterSetBytes.make, dif_neg (Nat.not_lt.mpr hmax)]
    exact judges_error rfl

theorem judges_unsigned (v : Json) : Judges FilterFault.Thrown (unsignedFault v) v.getUnsigned := by
  cases v with
  | unsigned n => exact judges_ok n
  | _ => exact judges_error rfl

theorem judges_kinds (v : Json) : Judges FilterFault.Thrown (kindsFault v) (FilterSetUint.make v) := by
  cases v with
  | array xs => exact (judges_mapM judges_unsigned xs).then_ok _
  | _ => exact judges_error rfl

theorem judges_tag (tag : UInt8) (v : Json) :
    Judges FilterFault.Thrown (tagFault hex tag v) (tagFilterSet hex tag v) := by
  rw [tagFault, tagFilterSet]
  split
  · exact judges_bytes (by decide) v
  · exact judges_bytes le_rfl v

theorem judges_field (st : FilterLoop) (k : Bytes) (v : Json) :
    Judges FilterFault.Thrown (fieldFault hex k v) (addField hex st k v) := by
  unfold fieldFault addField
  split
  · exact (judges_bytes (by decide) v).then_ok _
  split
  · exact (judges_bytes (by decide) v).then_ok _
  split
  · exact (judges_kinds v).then_ok _
  split
  · -- only a key of two characters is the name of a tag
    rcases k with _ | ⟨c, _ | ⟨tag, _ | ⟨d, k⟩⟩⟩
    · exact judges_own (by decide)
    · exact judges_own (by decide)
    · exact (judges_tag tag v).then_ok _
    · exact judges_own (by decide)
  split
  · exact (judges_unsigned v).then_ok _
  split
  · exact (judges_unsigned v).then_ok _
  split
  · exact (judges_unsigned v).then_ok _
  · exact judges_own (by decide)

theorem judges_member (st : FilterLoop) (kv : Bytes × Json) :
    Judges FilterFault.Thrown (memberFault hex kv) (addMember hex st kv) := by
  obtain ⟨k, v⟩ := kv
  cases v with
  | array xs =>
    cases xs with
    | nil => exact judges_ok _
    | cons x xs => exact judges_field st k _
  | _ => exact judges_field st k _

/-- The names of the tags in the filter so far. -/
def tagNames (st : FilterLoop) : Finset UInt8 := (st.filter.tags.map Prod.fst).toFinset

theorem tagOfKey_of_head {k : Bytes} (h : k.head? ≠ some 35) : tagOfKey k = none := by
  unfold tagOfKey
  split
  · rename_i c tag
    rw [if_neg]
    rintro rfl
    exact h rfl
  · rfl

theorem tagNames_emplace (tags : List (UInt8 × FilterSetBytes)) (tag : UInt8) (s : FilterSetBytes) :
    ((emplaceTag tags tag s).map Prod.fst).toFinset = insert tag (tags.map Prod.fst).toFinset := by
  rw [emplaceTag]
  split
  · rename_i hany
    obtain ⟨t, ht, heq⟩ := List.any_eq_true.mp hany
    rw [Finset.insert_eq_of_mem]
    rw [List.mem_toFinset, ← beq_iff_eq.mp heq]
    exact List.mem_map_of_mem ht
  · ext x
    simp

/-- A field adds the tag of its key. -/
theorem FieldAdded.tagNames_eq {st st' : FilterLoop} {k : Bytes} {v : Json}
    (h : FieldAdded hex st k v st') : tagNames st' = tagNames st ∪ (tagOfKey k).toFinset := by
  have hother : k.head? ≠ some 35 → st'.filter.tags = st.filter.tags →
      tagNames st' = tagNames st ∪ (tagOfKey k).toFinset := by
    intro hhead htags
    rw [tagOfKey_of_head hhead, tagNames, htags]
    simp [tagNames]
  cases h with
  | tag hs =>
    rw [tagNames, tagNames_emplace, tagOfKey, if_pos rfl, tagNames]
    ext x
    simp
  | _ => exact hother (by decide) rfl

theorem addMember_tagNames {st st' : FilterLoop} {kv : Bytes × Json}
    (h : addMember hex st kv = .ok st') :
    tagNames st' = tagNames st ∪ (restrictedTag kv).toFinset := by
  rcases addMember_cases h with ⟨hempty, rfl⟩ | ⟨hv, hfield⟩
  · rw [restrictedTag, hempty]
    simp [tagNames]
  · rw [hfield.tagNames_eq, restrictedTag]
    split
    · rename_i hempty
      exact (hv hempty).elim
    · rfl

theorem addMembers_tagNames {st st' : FilterLoop} {kvs : List (Bytes × Json)}
    (h : kvs.foldlM (addMember hex) st = .ok st') :
    tagNames st' = tagNames st ∪ (kvs.filterMap restrictedTag).toFinset := by
  induction kvs generalizing st with
  | nil =>
    cases h
    simp
  | cons kv kvs ih =>
    rw [List.foldlM_cons] at h
    obtain ⟨mid, hmid, h⟩ := bind_eq_ok.1 h
    rw [ih h, addMember_tagNames hmid]
    ext x
    cases htag : restrictedTag kv with
    | none => simp [htag]
    | some tag => simp [htag]

theorem judges_filter (limit : Nat) (v : Json) :
    Judges FilterFault.Thrown (filterFault hex v) (NostrFilter.make hex v limit) := by
  cases v with
  | object kvs =>
    rw [filterFault, NostrFilter.make]
    refine (judges_foldlM judges_member kvs {}).bind fun st hst => ?_
    have hinv := addMembers_inv FilterLoop.inv_start hst
    -- the tags of the filter are the distinct names in the object
    have hcard : (kvs.filterMap restrictedTag).toFinset.card = st.filter.tags.length := by
      have hnames := addMembers_tagNames hst
      have hstart : tagNames {} = ∅ := rfl
      rw [hstart, Finset.empty_union, tagNames] at hnames
      rw [← hnames, List.toFinset_card_of_nodup hinv.tags_nodup, List.length_map]
    rw [hcard, finishFilter]
    split
    · exact judges_own (by decide)
    · exact judges_ok _
  | _ => exact judges_own (by decide)

section Group

variable {φ : Type} {Thrown : φ → Err → Prop} {fault : Json → Option φ} {limit : Nat}

theorem judges_compile {vs : List Json}
    (h : ∀ v ∈ vs, Judges Thrown (fault v) (NostrFilter.make hex v limit)) :
    Judges Thrown (vs.findSome? fault) (NostrFilterGroup.compile hex limit vs) := by
  induction vs with
  | nil => exact judges_ok _
  | cons v vs ih =>
    rw [List.forall_mem_cons] at h
    obtain ⟨hv, hvs⟩ := h
    have ih := ih hvs
    rw [NostrFilterGroup.compile, findSome?_cons_or]
    split
    · rename_i e he
      rw [he] at hv
      obtain ⟨f, hfault, hthrown⟩ := hv
      rw [hfault, Option.some_or]
      exact judges_error hthrown
    · rename_i f hf
      rw [hf] at hv
      have hnone : fault v = none := hv
      rw [hnone, Option.none_or]
      split
      · rename_i e he
        rw [he] at ih
        exact ih
      · rename_i fs hfs heq
        rw [heq] at ih
        split
        · exact ih
        · exact ih

/-- The fault of a group is that of its filters, if there are any. -/
theorem judges_elems {v : Json} (hne : NostrFilterGroup.unwrappedElems v ≠ [])
    (h : ∀ x ∈ NostrFilterGroup.unwrappedElems v,
      Judges Thrown (fault x) (NostrFilter.make hex x limit)) :
    Judges Thrown ((NostrFilterGroup.unwrappedElems v).findSome? fault)
      (NostrFilterGroup.unwrapped hex v limit) := by
  have hcompile := judges_compile h
  rw [NostrFilterGroup.unwrapped]
  obtain ⟨x, xs, hcons⟩ := List.exists_cons_of_ne_nil hne
  rw [hcons] at hcompile ⊢
  exact hcompile.then_ok _

end Group

/-- What the constructor of a group throws is thrown for the fault of the JSON value. -/
theorem judges_unwrapped (limit : Nat) (v : Json) :
    Judges FilterFault.Thrown (groupFault hex v) (NostrFilterGroup.unwrapped hex v limit) := by
  rw [groupFault]
  split
  · rename_i hnil
    rw [NostrFilterGroup.unwrapped, hnil]
    exact judges_error rfl
  · rename_i x xs hcons
    have hne : NostrFilterGroup.unwrappedElems v ≠ [] := by
      rw [hcons]
      exact List.cons_ne_nil x xs
    have h := judges_elems hne fun x _ => @judges_filter hex limit x
    rwa [hcons] at h

end Constructors

end Strfry
