import Strfry.Dictionaries
import Strfry.FilterFaults
import Strfry.Lib.Fields
import Strfry.QueryAnswers

/-!
# Queries over HTTP

`handleQuery` takes a filter from the body of a POST, or builds one from the parameters of a GET, and
answers with the stored events that match it. Numbers among the parameters are read by `std::stoull`, which
takes more than decimal digits: blanks and a sign in front, and anything behind.

`paramFilter` is the filter that the parameters denote, if they denote one. `readExactly_iff` says for which
parameters the handler answers for that filter or refuses them.
-/

set_option autoImplicit false

namespace Strfry

open Lib

/-! ## Reading the parameters -/

/-- The characters that `isspace` accepts. -/
def isSpace (c : UInt8) : Bool := c = 32 || (9 ≤ c && c ≤ 13)

/-- The optional sign of a number: whether it is a minus, and what follows. -/
def readSign : Bytes → Bool × Bytes
  | [] => (false, [])
  | c :: s => if c = 45 then (true, s) else if c = 43 then (false, s) else (false, c :: s)

/-- `std::stoull` in base 10. What follows the digits is not looked at, and a negative number is taken
modulo `2 ^ 64`. -/
def stoull (s : Bytes) : Except Err UInt64 :=
  -- blanks are skipped, and the digits end at the first byte that is none
  let signed := readSign (s.dropWhile isSpace)
  let digits := signed.2.takeWhile isDigit
  if digits = [] then .error .invalidArgument
  else if 2 ^ 64 ≤ decimalValue digits then .error .outOfRange
  else
    let n := UInt64.ofNat (decimalValue digits)
    .ok (if signed.1 then 0 - n else n)

/-- The loop over `std::getline` with a comma as the delimiter: at the end of the text it has a piece more
only if it has read something since the last comma. -/
def getlineLoop : Bytes → Bytes → List Bytes
  | piece, [] => if piece = [] then [] else [piece]
  | piece, c :: s => if c = 44 then piece :: getlineLoop [] s else getlineLoop (piece ++ [c]) s

def getlinePieces (s : Bytes) : List Bytes := getlineLoop [] s

/-- The query parameters; one that is missing is empty. -/
structure QueryParams where
  ids : Bytes := []
  authors : Bytes := []
  kinds : Bytes := []
  since : Bytes := []
  until_ : Bytes := []
  limit : Bytes := []

/-- A member of the filter object, which is left out when its parameter is empty. -/
def optionalMember (param : Bytes) (key : String) (v : Json) : List (Bytes × Json) :=
  if param = [] then [] else [(ascii key, v)]

/-- The numbers among the parameters. -/
structure QueryNumbers where
  kinds : List UInt64
  since : UInt64
  until_ : UInt64
  limit : UInt64

/-- The filter object, whose members are in the order of their keys. -/
def QueryParams.filterObject (p : QueryParams) (authors ids : List Bytes) (n : QueryNumbers) : Json :=
  .object (optionalMember p.authors "authors" (.array (authors.map .string)) ++
    (optionalMember p.ids "ids" (.array (ids.map .string)) ++
    (optionalMember p.kinds "kinds" (.array (n.kinds.map .unsigned)) ++
    (optionalMember p.limit "limit" (.unsigned n.limit) ++
    (optionalMember p.since "since" (.unsigned n.since) ++
    optionalMember p.until_ "until" (.unsigned n.until_))))))

/-- A number that is read when its parameter is not empty, with the error of the response. -/
def readParam (param : Bytes) (error : String) : Except String UInt64 :=
  if param = [] then .ok 0
  else
    match stoull param with
    | .error _ => .error error
    | .ok n => .ok n

/-- The loop over the pieces of `kinds`. -/
def readKinds : List Bytes → Except String (List UInt64)
  | [] => .ok []
  | piece :: pieces =>
    match stoull piece with
    | .error _ => .error "Invalid kind parameter"
    | .ok n => (readKinds pieces).map (n :: ·)

/-- The filter that `handleQuery` builds from the parameters, or the error it answers with. -/
def queryFilter (p : QueryParams) : Except String Json := do
  let kinds ← readKinds (getlinePieces p.kinds)
  let since ← readParam p.since "Invalid since parameter"
  let until_ ← readParam p.until_ "Invalid until parameter"
  let limit ← readParam p.limit "Invalid limit parameter"
  .ok (p.filterObject (getlinePieces p.authors) (getlinePieces p.ids) ⟨kinds, since, until_, limit⟩)

/-! ## The response -/

/-- The text contains the word. -/
def mentions (text word : String) : Bool := decide (word.toList <:+: text.toList)

/-- `sanitizeErrorForClient`. -/
def sanitizeErrorForClient (errorMsg : String) : String :=
  if mentions errorMsg "parse" || mentions errorMsg "JSON" || mentions errorMsg "json" then
    if errorMsg.length > 100 then (errorMsg.take 100).toString ++ "..." else errorMsg
  else if mentions errorMsg "LMDB" || mentions errorMsg "lmdb" || mentions errorMsg "database" then
    "Database error"
  else if mentions errorMsg "memory" || mentions errorMsg "alloc" then "Server resource error"
  else if mentions errorMsg "filter" || mentions errorMsg "invalid" || mentions errorMsg "parameter" then
    if errorMsg.length > 150 then (errorMsg.take 150).toString ++ "..." else errorMsg
  else if errorMsg.length > 100 then "Internal error"
  else errorMsg

/-- A response: a status with the `error` of its body, or status 200 with a JSON array. -/
inductive QueryResponse
  | failure (status : Nat) (error : String)
  | success (body : Bytes)
  deriving DecidableEq

def QueryResponse.status : QueryResponse → Nat
  | failure status _ => status
  | success _ => 200

/-- What the handler works with: the libraries, and the texts of exceptions. -/
structure QueryEnv where
  S : StdSort
  ord : IndexOrder
  hex : HexCodec
  text : JsonText
  zstd : Zstd
  maxEventSize : Nat
  dictionaries : Table Bytes
  what : Err → String

namespace QueryEnv

variable (env : QueryEnv)

/-- `isFilterError`. -/
def isFilterError (e : Err) : Bool := mentions (env.what e) "filter" || mentions (env.what e) "invalid"

/-- The response to an exception of the query. -/
def queryFailure (e : Err) : QueryResponse :=
  if env.isFilterError e then .failure 400 (sanitizeErrorForClient (env.what e))
  else .failure 500 "Internal server error"

/-- `MAX_QUERY_RESULTS`. -/
def maxQueryResults : Nat := 10000

/-- The callback along the events found. -/
def responseLoop (st : Store) : Bool → Nat → Bytes → List Nat → Except Err Bytes
  | _, _, responseStr, [] => .ok responseStr
  | first, resultCount, responseStr, levId :: rest =>
    -- the scan goes on behind the limit, and the events are not read any more
    if resultCount ≥ maxQueryResults then responseLoop st first resultCount responseStr rest
    else do
      let eventJsonStr ← st.getEventJson env.zstd env.maxEventSize env.dictionaries levId
      let responseStr := if first then responseStr else responseStr ++ [44]
      responseLoop st false (resultCount + 1) (responseStr ++ eventJsonStr) rest

/-- The subscription id of a query. -/
def queryId : SubId := ⟨ascii ".", by decide, by decide, by decide⟩

/-- The query for a filter, and the response. `fuel` bounds the iterations of the scans; `none` is a query
that is not complete then, or has undefined behaviour. -/
def runQuery (st : Store) (fuel : Nat) (filterJson : Json) : Option QueryResponse :=
  match NostrFilterGroup.unwrapped env.hex filterJson maxU64 with
  | .error e => some (env.queryFailure e)
  | .ok g =>
    match (DBQuery.new ⟨1, queryId, g, ⊤⟩).process env.S env.ord st fuel with
    -- `process` is called until it is complete
    | some (_, levIds, true) =>
      match env.responseLoop st true 0 [91] levIds with
      | .error e => some (env.queryFailure e)
      | .ok responseStr => some (.success (responseStr ++ [93]))
    | _ => none

/-- The filter of a request, or the response to a request that has none. -/
def requestFilter (method : String) (body : Bytes) (p : QueryParams) : Except QueryResponse Json :=
  -- a POST without a body is taken for a GET
  if method = "POST" ∧ body ≠ [] then
    match env.text.fromString body with
    | .error e =>
      .error (.failure 400 ("Invalid JSON in request body: " ++ sanitizeErrorForClient (env.what e)))
    | .ok filterJson => .ok filterJson
  else
    match queryFilter p with
    | .error error => .error (.failure 400 error)
    | .ok filterJson => .ok filterJson

/-- `HttpServer::handleQuery`. -/
def handleQuery (st : Store) (fuel : Nat) (method : String) (body : Bytes) (p : QueryParams) :
    Option QueryResponse :=
  match env.requestFilter method body p with
  | .error response => some response
  | .ok filterJson => env.runQuery st fuel filterJson

end QueryEnv

/-! ## What the parameters denote -/

/-- The parts of a comma-separated list; a comma may also stand behind the last one. -/
def listParts (s : Bytes) : List Bytes :=
  if (s.splitOn 44).getLast? = some [] then (s.splitOn 44).dropLast else s.splitOn 44

/-- The number that a text denotes: it consists of decimal digits and fits into 64 bits. -/
def denotedNumber (s : Bytes) : Option UInt64 :=
  if s ≠ [] ∧ s.all isDigit = true ∧ decimalValue s < 2 ^ 64 then some (UInt64.ofNat (decimalValue s))
  else none

/-- The number that a parameter denotes, which is not used when it is empty. -/
def denotedParam (param : Bytes) : Option UInt64 := if param = [] then some 0 else denotedNumber param

/-- The numbers that the parameters denote. -/
def QueryParams.numbers (p : QueryParams) : Option QueryNumbers := do
  let kinds ← (listParts p.kinds).mapM denotedNumber
  let since ← denotedParam p.since
  let until_ ← denotedParam p.until_
  let limit ← denotedParam p.limit
  some ⟨kinds, since, until_, limit⟩

/-- The filter that the parameters denote. -/
def paramFilter (p : QueryParams) : Option Json :=
  p.numbers.map fun n => p.filterObject (listParts p.authors) (listParts p.ids) n

/-! ## Pieces and numbers -/

section Reading

theorem getlineLoop_field {w : Bytes} (hw : 44 ∉ w) (piece : Bytes) :
    getlineLoop piece w = if piece ++ w = [] then [] else [piece ++ w] := by
  induction w generalizing piece with
  | nil => simp [getlineLoop]
  | cons c w ih =>
    rw [List.mem_cons, not_or] at hw
    rw [getlineLoop, if_neg (Ne.symm hw.1), ih hw.2]
    simp

theorem getlineLoop_comma {w : Bytes} (hw : 44 ∉ w) (piece t : Bytes) :
    getlineLoop piece (w ++ 44 :: t) = (piece ++ w) :: getlineLoop [] t := by
  induction w generalizing piece with
  | nil => simp [getlineLoop]
  | cons c w ih =>
    rw [List.mem_cons, not_or] at hw
    rw [List.cons_append, getlineLoop, if_neg (Ne.symm hw.1), ih hw.2]
    simp

/-- The loop over `std::getline` finds the parts. -/
theorem getlinePieces_eq (s : Bytes) : getlinePieces s = listParts s := by
  induction s using fields_induction (44 : UInt8) with
  | last w hw =>
    rw [getlinePieces, getlineLoop_field hw, listParts, List.splitOn_eq_singleton hw]
    by_cases hnil : w = []
    · simp [hnil]
    · simp [hnil]
  | more w t hw ih =>
    have hne : t.splitOn 44 ≠ [] := List.splitOn_ne_nil 44 t
    -- an empty last field is the one that a trailing comma leaves
    rw [getlinePieces, getlineLoop_comma hw, List.nil_append, ← getlinePieces, ih, listParts, listParts,
      List.splitOn_append_cons_self_of_not_mem hw, List.getLast?_cons_of_ne_nil hne,
      List.dropLast_cons_of_ne_nil hne]
    split
    · rfl
    · rfl

/-- A text of digits is read as what it denotes. -/
theorem stoull_of_denotedNumber {s : Bytes} {n : UInt64} (h : denotedNumber s = some n) :
    stoull s = .ok n := by
  rw [denotedNumber] at h
  split at h
  · rename_i hnum
    obtain ⟨hne, hdigits, hlt⟩ := hnum
    obtain ⟨c, s, rfl⟩ := List.exists_cons_of_ne_nil hne
    have hc : isDigit c = true := by
      rw [List.all_cons, Bool.and_eq_true] at hdigits
      exact hdigits.1
    have hspace : ¬ isSpace c = true := by
      revert hc
      rw [isDigit, isSpace]
      simp only [Bool.and_eq_true, Bool.or_eq_true, decide_eq_true_eq, UInt8.le_iff_toNat_le,
        ← UInt8.toNat_inj]
      simp only [UInt8.reduceToNat]
      omega
    have hsign : readSign (c :: s) = (false, c :: s) := by
      have hminus : c ≠ 45 := by
        rintro rfl
        exact absurd hc (by decide)
      have hplus : c ≠ 43 := by
        rintro rfl
        exact absurd hc (by decide)
      rw [readSign, if_neg hminus, if_neg hplus]
    have htake : (c :: s).takeWhile isDigit = c :: s :=
      List.takeWhile_eq_self_iff.mpr fun b hb => List.all_eq_true.mp hdigits b hb
    cases h
    rw [stoull, List.dropWhile_cons_of_neg hspace]
    simp only [hsign, htake, if_neg hne, if_neg (Nat.not_le.mpr hlt), Bool.false_eq_true, if_false]
  · cases h

theorem readKinds_of_denoted {pieces : List Bytes} {ks : List UInt64}
    (h : pieces.mapM denotedNumber = some ks) : readKinds pieces = .ok ks := by
  induction pieces generalizing ks with
  | nil =>
    cases h
    rfl
  | cons piece pieces ih =>
    simp only [List.mapM_cons, Option.bind_eq_bind, Option.bind_eq_some_iff, Option.pure_def,
      Option.some.injEq] at h
    obtain ⟨k, hk, ks, hks, rfl⟩ := h
    rw [readKinds, stoull_of_denotedNumber hk, ih hks]
    rfl

theorem readParam_of_denoted {param : Bytes} {error : String} {n : UInt64}
    (h : denotedParam param = some n) : readParam param error = .ok n := by
  rw [denotedParam] at h
  rw [readParam]
  split
  · rename_i hnil
    rw [if_pos hnil] at h
    cases h
    rfl
  · rename_i hne
    rw [if_neg hne] at h
    rw [stoull_of_denotedNumber h]

/-- The filter that the parameters denote is the one that is built. -/
theorem queryFilter_of_paramFilter {p : QueryParams} {v : Json} (h : paramFilter p = some v) :
    queryFilter p = .ok v := by
  obtain ⟨n, hn, rfl⟩ := Option.map_eq_some_iff.mp h
  simp only [QueryParams.numbers, Option.bind_eq_bind, Option.bind_eq_some_iff, Option.some.injEq] at hn
  obtain ⟨kinds, hkinds, since, hsince, until_, huntil, limit, hlimit, rfl⟩ := hn
  simp only [queryFilter, getlinePieces_eq, readKinds_of_denoted hkinds, readParam_of_denoted hsince,
    readParam_of_denoted huntil, readParam_of_denoted hlimit]
  rfl

/-- Some numeric part cannot be read by `stoull`: there is no digit behind the blanks and the sign, or the
number does not fit into 64 bits. -/
def QueryParams.Unreadable (p : QueryParams) : Prop :=
  (∃ piece ∈ listParts p.kinds, ∃ e, stoull piece = .error e) ∨
    ∃ param ∈ [p.since, p.until_, p.limit], param ≠ [] ∧ ∃ e, stoull param = .error e

theorem readKinds_error_iff {pieces : List Bytes} :
    (∃ error, readKinds pieces = .error error) ↔ ∃ piece ∈ pieces, ∃ e, stoull piece = .error e := by
  induction pieces with
  | nil => simp [readKinds]
  | cons piece pieces ih =>
    rw [readKinds, List.exists_mem_cons_iff]
    cases hpiece : stoull piece with
    | error e => simp
    | ok n =>
      rw [← ih]
      cases readKinds pieces with
      | error e => simp [Except.map]
      | ok ks => simp [Except.map]

theorem readParam_error_iff {param : Bytes} {text : String} :
    (∃ error, readParam param text = .error error) ↔ param ≠ [] ∧ ∃ e, stoull param = .error e := by
  rw [readParam]
  by_cases hnil : param = []
  · simp [hnil]
  · rw [if_neg hnil]
    cases stoull param with
    | error e => simp [hnil]
    | ok n => simp

/-- The parameters are refused before a filter is built exactly if some numeric part is unreadable. -/
theorem queryFilter_error_iff {p : QueryParams} :
    (∃ error, queryFilter p = .error error) ↔ p.Unreadable := by
  have hkinds := @readKinds_error_iff (listParts p.kinds)
  have hsince := @readParam_error_iff p.since "Invalid since parameter"
  have huntil := @readParam_error_iff p.until_ "Invalid until parameter"
  have hlimit := @readParam_error_iff p.limit "Invalid limit parameter"
  simp only [QueryParams.Unreadable, List.mem_cons, List.not_mem_nil, or_false, exists_eq_or_imp,
    exists_eq_left, ← hkinds, ← hsince, ← huntil, ← hlimit, queryFilter, getlinePieces_eq]
  cases readKinds (listParts p.kinds) with
  | error e => simp [bind, Except.bind]
  | ok ks =>
    cases readParam p.since "Invalid since parameter" with
    | error e => simp [bind, Except.bind]
    | ok since =>
      cases readParam p.until_ "Invalid until parameter" with
      | error e => simp [bind, Except.bind]
      | ok until_ =>
        cases readParam p.limit "Invalid limit parameter" with
        | error e => simp [bind, Except.bind]
        | ok limit => simp [bind, Except.bind]

end Reading

/-! ## The filter that is built -/

section Building

variable {hex : HexCodec}

/-- What the constructor of a filter set throws for a list of ids or authors, if the list is given. -/
def listError (hex : HexCodec) (param : Bytes) : Option Err :=
  if param = [] then none
  else
    match FilterSetBytes.make hex (.array ((listParts param).map .string)) true 32 32 with
    | .error e => some e
    | .ok _ => none

/-- What the constructors throw for the lists of authors and ids. -/
def QueryParams.listError (p : QueryParams) (hex : HexCodec) : Option Err :=
  (Strfry.listError hex p.authors).or (Strfry.listError hex p.ids)

theorem judges_optionalMember {param : Bytes} {key : String} {v : Json} {o : Option Err}
    (hnone : param = [] → o = none)
    (h : ∀ st, param ≠ [] → Judges Eq o (addMember hex st (ascii key, v))) (st : FilterLoop) :
    Judges Eq o ((optionalMember param key v).foldlM (addMember hex) st) := by
  rw [optionalMember]
  split
  · rename_i hnil
    rw [hnone hnil]
    exact judges_ok st
  · rename_i hne
    rw [List.foldlM_cons]
    have hmember := (h st hne).then_ok id
    exact hmember

theorem judges_listMember {param : Bytes} {key : String}
    (hfield : ∀ st v, ∃ g : FilterSetBytes → FilterLoop, addField hex st (ascii key) v =
      FilterSetBytes.make hex v true 32 32 >>= fun s => .ok (g s)) (st : FilterLoop) :
    Judges Eq (listError hex param) ((optionalMember param key
      (.array ((listParts param).map .string))).foldlM (addMember hex) st) := by
  apply judges_optionalMember
  · exact fun hnil => if_pos hnil
  intro st hne
  rw [listError, if_neg hne]
  cases hparts : (listParts param).map Json.string with
  | nil =>
    have hempty : Judges FilterFault.Thrown none (FilterSetBytes.make hex (.array []) true 32 32) :=
      judges_bytes (by decide) (.array [])
    cases hmake : FilterSetBytes.make hex (.array []) true 32 32 with
    | error e =>
      rw [hmake] at hempty
      obtain ⟨f, hf, -⟩ := hempty
      cases hf
    | ok s => exact judges_ok _
  | cons x xs =>
    obtain ⟨g, hg⟩ := hfield st (.array (x :: xs))
    have hadd : addMember hex st (ascii key, .array (x :: xs)) =
        addField hex st (ascii key) (.array (x :: xs)) := rfl
    rw [hadd, hg]
    cases FilterSetBytes.make hex (.array (x :: xs)) true 32 32 with
    | error e => exact judges_error rfl
    | ok s => exact judges_ok _

theorem judges_numberMember {param : Bytes} {key : String} {n : UInt64}
    (hfield : ∀ st, ∃ st', addField hex st (ascii key) (.unsigned n) = .ok st') (st : FilterLoop) :
    Judges Eq none ((optionalMember param key (.unsigned n)).foldlM (addMember hex) st) := by
  apply judges_optionalMember
  · exact fun _ => rfl
  intro st _
  obtain ⟨st', hst'⟩ := hfield st
  have hadd : addMember hex st (ascii key, .unsigned n) = .ok st' := hst'
  rw [hadd]
  exact judges_ok st'

theorem judges_kindsMember {param : Bytes} (ks : List UInt64) (st : FilterLoop) :
    Judges Eq none
      ((optionalMember param "kinds" (.array (ks.map .unsigned))).foldlM (addMember hex) st) := by
  apply judges_optionalMember
  · exact fun _ => rfl
  intro st _
  cases ks with
  | nil => exact judges_ok _
  | cons k ks =>
    have hunsigned : ∀ xs : List UInt64, (xs.map Json.unsigned).mapM Json.getUnsigned = .ok xs := by
      intro xs
      induction xs with
      | nil => rfl
      | cons x xs ih =>
        rw [List.map_cons, List.mapM_cons, ih]
        rfl
    have hmake : FilterSetUint.make (.array ((k :: ks).map .unsigned)) =
        .ok (FilterSetUint.ofArray (k :: ks)) := by
      rw [FilterSetUint.make]
      simp only [Json.getArray, bind, Except.bind, hunsigned]
    have hadd : addMember hex st (ascii "kinds", .array ((k :: ks).map .unsigned)) =
        FilterSetUint.make (.array ((k :: ks).map .unsigned)) >>= fun s =>
          .ok ⟨{ st.filter with kinds := some s }, st.numMajorFields + 1⟩ := rfl
    rw [hadd, hmake]
    exact judges_ok _

theorem key_of_mem_optionalMember {param : Bytes} {key : String} {v : Json} {kv : Bytes × Json}
    (h : kv ∈ optionalMember param key v) : kv.1 = ascii key := by
  rw [optionalMember] at h
  split at h
  · cases h
  · rw [List.mem_singleton.mp h]

/-- A filter without tags is refused for its members only. -/
theorem judges_make {o : Option Err} {kvs : List (Bytes × Json)} (limit : Nat)
    (h : Judges Eq o (kvs.foldlM (addMember hex) {})) (hkeys : ∀ kv ∈ kvs, kv.1.head? ≠ some 35) :
    Judges Eq o (NostrFilter.make hex (.object kvs) limit) := by
  rw [← Option.or_none (o := o)]
  apply h.bind
  intro st hst
  have htags : st.filter.tags = [] := by
    have hnames := addMembers_tagNames hst
    have hnone : kvs.filterMap restrictedTag = [] := by
      rw [List.filterMap_eq_nil_iff]
      intro kv hkv
      rw [restrictedTag]
      split
      · rfl
      · exact tagOfKey_of_head (hkeys kv hkv)
    rw [hnone, tagNames] at hnames
    cases htags : st.filter.tags with
    | nil => rfl
    | cons t ts =>
      rw [htags] at hnames
      have hmem : t.1 ∈ (∅ : Finset UInt8) := by
        have hstart : tagNames {} ∪ ([] : List UInt8).toFinset = ∅ := rfl
        rw [← hstart, ← hnames]
        simp
      cases hmem
  rw [finishFilter, htags]
  exact judges_ok _

/-- The filter that is built is refused exactly if one of the lists is, for the same reason. -/
theorem judges_filterObject (p : QueryParams) (n : QueryNumbers) (limit : Nat) :
    Judges Eq (p.listError hex) (NostrFilterGroup.unwrapped hex
      (p.filterObject (listParts p.authors) (listParts p.ids) n) limit) := by
  have hmake : Judges Eq (p.listError hex)
      (NostrFilter.make hex (p.filterObject (listParts p.authors) (listParts p.ids) n) limit) := by
    apply judges_make
    · -- the members one after the other, in the order of the object
      have hauthors := @judges_listMember hex p.authors "authors" fun st v => ⟨_, rfl⟩
      have hids := @judges_listMember hex p.ids "ids" fun st v => ⟨_, rfl⟩
      have hlimit := @judges_numberMember hex p.limit "limit" n.limit fun st => ⟨_, rfl⟩
      have hsince := @judges_numberMember hex p.since "since" n.since fun st => ⟨_, rfl⟩
      have huntil := @judges_numberMember hex p.until_ "until" n.until_ fun st => ⟨_, rfl⟩
      simp only [List.foldlM_append]
      apply (hauthors _).bind
      intro st _
      rw [← Option.or_none (o := Strfry.listError hex p.ids)]
      apply (hids st).bind
      intro st _
      apply (judges_kindsMember n.kinds st).bind
      intro st _
      apply (hlimit st).bind
      intro st _
      apply (hsince st).bind
      intro st _
      exact huntil st
    · -- no key is that of a tag
      intro kv hkv
      simp only [List.mem_append] at hkv
      rcases hkv with h | h | h | h | h | h
      all_goals
        rw [key_of_mem_optionalMember h]
        decide
  have helems := @judges_elems hex Err Eq (fun _ => p.listError hex) limit
    (p.filterObject (listParts p.authors) (listParts p.ids) n) (List.cons_ne_nil _ _) (by
      intro x hx
      rw [List.mem_singleton.mp hx]
      exact hmake)
  have hone : ([p.filterObject (listParts p.authors) (listParts p.ids) n].findSome?
      fun _ => p.listError hex) = p.listError hex := by
    rw [findSome?_cons_or, List.findSome?_nil, Option.or_none]
  rw [← hone]
  exact helems

end Building

/-! ## Queries on the empty store -/

section EmptyStore

variable {S : StdSort} {ord : IndexOrder}

theorem collect_empty (f : NostrFilter) (i : QueryIndex) (scanIndex limit : Nat) (c : ScanCursor) :
    ∃ c', c.collect ord .empty f i scanIndex limit = some ([], c') := by
  have hnone : ∀ pos, foreachFull ord .empty i pos = [] := fun pos => rfl
  have hloop : ∃ resume, collectLoop ord .empty f i c.search scanIndex collectRounds c.resume limit =
      some ([], resume) := by
    cases c.resume with
    | none => exact ⟨none, rfl⟩
    | some pos =>
      cases limit with
      | zero => exact ⟨some pos, rfl⟩
      | succ n =>
        refine ⟨none, ?_⟩
        rw [collectRounds, collectLoop, hnone]
        rfl
  obtain ⟨resume, hresume⟩ := hloop
  rw [ScanCursor.collect, hresume]
  exact ⟨_, rfl⟩

/-- A cursor is initialised and finds nothing. -/
theorem initStep_empty {s : DBScan} (hqueue : s.eventQueue = [])
    (hlt : s.nextInitIndex < s.cursors.length) :
    ∃ s', s.initStep S ord .empty = some s' ∧ s'.eventQueue = [] ∧
      s'.nextInitIndex = s.nextInitIndex + 1 ∧ s'.cursors.length = s.cursors.length := by
  obtain ⟨c', hcollect⟩ := @collect_empty ord s.f s.indexDbi s.nextInitIndex s.initialScanDepth
    s.cursors[s.nextInitIndex]
  have hat : s.collectAt ord .empty s.nextInitIndex s.initialScanDepth =
      some ([], { s with cursors := s.cursors.set s.nextInitIndex c' }) := by
    rw [DBScan.collectAt, List.getElem?_eq_getElem hlt]
    simp only [hcollect, Option.map_some]
  have hsort : S.sort CandidateEvent.cmp [] = [] := (S.perm _ []).eq_nil
  rw [DBScan.initStep, hat]
  refine ⟨_, rfl, ?_, rfl, List.length_set⟩
  simp only [hqueue, List.append_nil, hsort, ite_self]

/-- The cursors that are still to be initialised. -/
def toInit (q : DBQuery) (f : NostrFilter) : Nat :=
  (q.scanner.getD (DBScan.make f)).cursors.length - (q.scanner.getD (DBScan.make f)).nextInitIndex

/-- The scan of a query has found nothing. -/
def FoundNothing (q : DBQuery) : Prop := ∀ s, q.scanner = some s → s.eventQueue = []

theorem eventQueue_getD {q : DBQuery} (h : FoundNothing q) (f : NostrFilter) :
    (q.scanner.getD (DBScan.make f)).eventQueue = [] := by
  cases hs : q.scanner with
  | none => rfl
  | some s => exact h s hs

/-- An iteration initialises a cursor, or the scan of the filter is over. -/
theorem step_empty {q : DBQuery} (h : FoundNothing q) (f : NostrFilter) :
    ∃ q', q.step S ord .empty f = some (q', []) ∧ FoundNothing q' ∧ q'.sub = q.sub ∧
      (q'.filterGroupIndex = q.filterGroupIndex + 1 ∨
        q'.filterGroupIndex = q.filterGroupIndex ∧ toInit q' f < toInit q f) := by
  have hqueue := eventQueue_getD h f
  rw [DBQuery.step]
  by_cases hlt : (q.scanner.getD (DBScan.make f)).nextInitIndex <
      (q.scanner.getD (DBScan.make f)).cursors.length
  · obtain ⟨s', hstep, hqueue', hnext, hlen⟩ := @initStep_empty S ord _ hqueue hlt
    simp only [DBScan.iter, if_pos hlt, hstep]
    refine ⟨_, rfl, ?_, rfl, Or.inr ⟨rfl, ?_⟩⟩
    · rintro s ⟨rfl⟩
      exact hqueue'
    · simp only [toInit, Option.getD_some, hlen, hnext]
      omega
  · simp only [DBScan.iter, if_neg hlt, hqueue]
    refine ⟨_, rfl, ?_, rfl, Or.inl rfl⟩
    rintro s ⟨⟩

/-- The scans of the filters are over one after the other. -/
theorem process_empty (q : DBQuery) (h : FoundNothing q) :
    ∃ fuel q', q.process S ord .empty fuel = some (q', [], true) := by
  induction hn : q.sub.filterGroup.filters.length - q.filterGroupIndex generalizing q with
  | zero =>
    refine ⟨0, q, ?_⟩
    have hnone : q.sub.filterGroup.filters[q.filterGroupIndex]? = none :=
      List.getElem?_eq_none (by omega)
    rw [DBQuery.process, hnone]
  | succ n ih =>
    have hlt : q.filterGroupIndex < q.sub.filterGroup.filters.length := by omega
    have hsome := List.getElem?_eq_getElem hlt
    -- within a filter, by induction on the cursors still to be initialised
    induction hm : toInit q q.sub.filterGroup.filters[q.filterGroupIndex]
      using Nat.strong_induction_on generalizing q with
    | _ m ihm =>
      obtain ⟨q₁, hstep, hnothing, hsub, hcase⟩ :=
        @step_empty S ord q h q.sub.filterGroup.filters[q.filterGroupIndex]
      have hlater : ∃ fuel q', q₁.process S ord .empty fuel = some (q', [], true) := by
        rcases hcase with hnext | ⟨hsame, hless⟩
        · apply ih q₁ hnothing
          rw [hsub, hnext]
          omega
        · have hlt₁ : q₁.filterGroupIndex < q₁.sub.filterGroup.filters.length := by
            rw [hsub, hsame]
            exact hlt
          refine ihm _ ?_ q₁ hnothing (by rw [hsub, hsame]; exact hn) hlt₁
            (List.getElem?_eq_getElem hlt₁) rfl
          simp only [hsub, hsame]
          rw [← hm]
          exact hless
      obtain ⟨fuel, q', hfuel⟩ := hlater
      refine ⟨fuel + 1, q', ?_⟩
      rw [DBQuery.process, hsome]
      simp only [hstep, hfuel, Option.map_some, List.append_nil]

end EmptyStore

/-! ## Parameters that are read exactly or refused -/

namespace QueryEnv

/-- Whenever a GET is answered, it is refused with status 400, or what is run is the query for the filter
that the parameters denote. -/
def ReadExactly (env : QueryEnv) (p : QueryParams) : Prop :=
  ∀ st fuel body,
    (∃ v, paramFilter p = some v ∧ env.handleQuery st fuel "GET" body p = env.runQuery st fuel v) ∨
      ∀ response, env.handleQuery st fuel "GET" body p = some response → response.status = 400

section Exact

variable {env : QueryEnv} {p : QueryParams}

theorem requestFilter_get (body : Bytes) (p : QueryParams) :
    env.requestFilter "GET" body p =
      match queryFilter p with
      | .error error => .error (.failure 400 error)
      | .ok v => .ok v := by
  have hmethod : ¬ ("GET" = "POST" ∧ body ≠ []) := fun h => absurd h.1 (by decide)
  rw [requestFilter, if_neg hmethod]

theorem handleQuery_get_error {error : String} (h : queryFilter p = .error error) (st : Store)
    (fuel : Nat) (body : Bytes) :
    env.handleQuery st fuel "GET" body p = some (.failure 400 error) := by
  rw [handleQuery, requestFilter_get, h]

theorem handleQuery_get_ok {v : Json} (h : queryFilter p = .ok v) (st : Store) (fuel : Nat)
    (body : Bytes) : env.handleQuery st fuel "GET" body p = env.runQuery st fuel v := by
  rw [handleQuery, requestFilter_get, h]

theorem runQuery_of_error {v : Json} {e : Err}
    (h : NostrFilterGroup.unwrapped env.hex v maxU64 = .error e) (st : Store) (fuel : Nat) :
    env.runQuery st fuel v = some (env.queryFailure e) := by
  rw [runQuery, h]

/-- A filter that is accepted finds nothing in the empty store. -/
theorem runQuery_empty {v : Json} {g : NostrFilterGroup}
    (h : NostrFilterGroup.unwrapped env.hex v maxU64 = .ok g) :
    ∃ fuel, env.runQuery .empty fuel v = some (.success (ascii "[]")) := by
  obtain ⟨fuel, q, hprocess⟩ := @process_empty env.S env.ord (DBQuery.new ⟨1, queryId, g, ⊤⟩) nofun
  refine ⟨fuel, ?_⟩
  rw [runQuery, h]
  simp only [hprocess, responseLoop]
  rfl

theorem queryFilter_eq_ok {v : Json} (h : queryFilter p = .ok v) :
    ∃ n, v = p.filterObject (listParts p.authors) (listParts p.ids) n := by
  rw [queryFilter, getlinePieces_eq, getlinePieces_eq, getlinePieces_eq] at h
  cases hkinds : readKinds (listParts p.kinds) with
  | error e =>
    rw [hkinds] at h
    cases h
  | ok kinds =>
    cases hsince : readParam p.since "Invalid since parameter" with
    | error e =>
      rw [hkinds, hsince] at h
      cases h
    | ok since =>
      cases huntil : readParam p.until_ "Invalid until parameter" with
      | error e =>
        rw [hkinds, hsince, huntil] at h
        cases h
      | ok until_ =>
        cases hlimit : readParam p.limit "Invalid limit parameter" with
        | error e =>
          rw [hkinds, hsince, huntil, hlimit] at h
          cases h
        | ok limit =>
          rw [hkinds, hsince, huntil, hlimit] at h
          cases h
          exact ⟨_, rfl⟩

/-- When the lists are refused in a text about a filter, so is the request. -/
theorem refused_of_listError {e : Err} (he : p.listError env.hex = some e)
    (hfilter : env.isFilterError e = true) (st : Store) (fuel : Nat) (body : Bytes) :
    ∃ error, env.handleQuery st fuel "GET" body p = some (.failure 400 error) := by
  cases hbuilt : queryFilter p with
  | error error => exact ⟨error, handleQuery_get_error hbuilt st fuel body⟩
  | ok v =>
    rw [handleQuery_get_ok hbuilt]
    obtain ⟨n, rfl⟩ := queryFilter_eq_ok hbuilt
    have hjudges := @judges_filterObject env.hex p n maxU64
    rw [he] at hjudges
    cases hmake : NostrFilterGroup.unwrapped env.hex
      (p.filterObject (listParts p.authors) (listParts p.ids) n) maxU64 with
    | ok g =>
      rw [hmake] at hjudges
      cases hjudges
    | error e' =>
      rw [hmake] at hjudges
      obtain ⟨e'', heq, rfl⟩ := hjudges
      cases heq
      refine ⟨sanitizeErrorForClient (env.what e), ?_⟩
      rw [runQuery_of_error hmake, queryFailure, if_pos hfilter]

/-- When a filter is built and its lists are not refused so, a query on the empty store is not refused. -/
theorem not_refused (hreadable : ¬ p.Unreadable)
    (hlists : ¬ ∃ e, p.listError env.hex = some e ∧ env.isFilterError e = true) (body : Bytes) :
    ∃ fuel response, env.handleQuery .empty fuel "GET" body p = some response ∧ response.status ≠ 400 := by
  rw [← queryFilter_error_iff] at hreadable
  cases hbuilt : queryFilter p with
  | error error => exact (hreadable ⟨error, hbuilt⟩).elim
  | ok v =>
    have hget := fun fuel => @handleQuery_get_ok env p v hbuilt .empty fuel body
    obtain ⟨n, rfl⟩ := queryFilter_eq_ok hbuilt
    have hjudges := @judges_filterObject env.hex p n maxU64
    cases hmake : NostrFilterGroup.unwrapped env.hex
      (p.filterObject (listParts p.authors) (listParts p.ids) n) maxU64 with
    | ok g =>
      obtain ⟨fuel, hrun⟩ := runQuery_empty hmake
      exact ⟨fuel, .success (ascii "[]"), (hget fuel).trans hrun, by decide⟩
    | error e =>
      rw [hmake] at hjudges
      obtain ⟨e', he', rfl⟩ := hjudges
      have hfailure : env.queryFailure e' = .failure 500 "Internal server error" :=
        if_neg fun hfilter => hlists ⟨e', he', hfilter⟩
      refine ⟨0, env.queryFailure e', (hget 0).trans (runQuery_of_error hmake .empty 0), ?_⟩
      rw [hfailure]
      decide

theorem not_readExactly (hnumbers : p.numbers = none) (hreadable : ¬ p.Unreadable)
    (hlists : ¬ ∃ e, p.listError env.hex = some e ∧ env.isFilterError e = true) :
    ¬ env.ReadExactly p := by
  intro h
  obtain ⟨fuel, response, hanswer, hstatus⟩ := not_refused hreadable hlists []
  rcases h .empty fuel [] with ⟨v, hv, -⟩ | hrefused
  · rw [paramFilter, hnumbers] at hv
    cases hv
  · exact hstatus (hrefused response hanswer)

/-- Parameters are read exactly or refused if and only if their numeric parts consist of digits and fit, or
one of them cannot be read at all, or the lists of authors and ids are refused with status 400. -/
theorem readExactly_iff (env : QueryEnv) (p : QueryParams) :
    env.ReadExactly p ↔ p.numbers ≠ none ∨ p.Unreadable ∨
      ∃ e, p.listError env.hex = some e ∧ env.isFilterError e = true := by
  constructor
  · intro h
    by_contra hnot
    rw [not_or, not_or, not_ne_iff] at hnot
    obtain ⟨hnumbers, hreadable, hlists⟩ := hnot
    exact not_readExactly hnumbers hreadable hlists h
  · rintro (hnumbers | hunreadable | ⟨e, he, hfilter⟩) st fuel body
    · -- the numbers are read as they are denoted
      obtain ⟨n, hn⟩ := Option.ne_none_iff_exists'.mp hnumbers
      have hv : paramFilter p = some (p.filterObject (listParts p.authors) (listParts p.ids) n) := by
        rw [paramFilter, hn]
        rfl
      exact .inl ⟨_, hv, handleQuery_get_ok (queryFilter_of_paramFilter hv) st fuel body⟩
    · -- `stoull` throws
      obtain ⟨error, herror⟩ := queryFilter_error_iff.mpr hunreadable
      right
      intro response hresponse
      rw [handleQuery_get_error herror] at hresponse
      cases hresponse
      rfl
    · -- the constructor of a list throws
      obtain ⟨error, herror⟩ := refused_of_listError he hfilter st fuel body
      right
      intro response hresponse
      rw [herror] at hresponse
      cases hresponse
      rfl

end Exact

/-- A server whose parser reads nothing but the empty array. -/
def emptyArrayEnv : QueryEnv where
  S := .insertion
  ord := byteOrder
  hex := hexCodec
  text := ⟨fun s => if s = ascii "[]" then .ok (.array []) else .error .badJson, fun _ => ascii "[]"⟩
  zstd := ⟨fun _ _ _ src => .ok src, fun _ _ src => .ok src⟩
  maxEventSize := 65536
  dictionaries := Table.empty
  what
    | .herr msg => msg
    | .badJson => "std::get: wrong index for variant"
    | .badHex => "from_hex: bad character"
    | .outOfRange => "stoull"
    | .invalidArgument => "stoull"

/-- A time with letters behind it is taken for the time, and a negative limit for a very large one. -/
theorem numbers_with_garbage :
    queryFilter { since := ascii "12abc" } = .ok (.object [(ascii "since", .unsigned 12)]) ∧
      queryFilter { limit := ascii "-1" } = .ok (.object [(ascii "limit", .unsigned 18446744073709551615)]) ∧
      ¬ emptyArrayEnv.ReadExactly { since := ascii "12abc" } ∧
      ¬ emptyArrayEnv.ReadExactly { limit := ascii "-1" } := by
  have hsince : queryFilter { since := ascii "12abc" } = .ok (.object [(ascii "since", .unsigned 12)]) := by
    rfl
  have hlimit : queryFilter { limit := ascii "-1" } =
      .ok (.object [(ascii "limit", .unsigned 18446744073709551615)]) := by
    rfl
  refine ⟨hsince, hlimit, ?_, ?_⟩
  · apply not_readExactly
    · rfl
    · rw [← queryFilter_error_iff, hsince]
      exact fun h => nomatch h.choose_spec
    · rintro ⟨e, he, -⟩
      cases he
  · apply not_readExactly
    · rfl
    · rw [← queryFilter_error_iff, hlimit]
      exact fun h => nomatch h.choose_spec
    · rintro ⟨e, he, -⟩
      cases he

end QueryEnv

end Strfry
