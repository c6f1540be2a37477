import Strfry.Dictionaries

/-!
# Fried lines

`export --fried` adds a field to the JSON of an event: the packed event in hex. It does so on the text,
by replacing the closing brace, and `import --fried` takes the field out again in the same way, searching
for its opening quote from the end of the line. `parseFried_friedLine` is the round trip; it holds for any
text that ends with a brace, whatever is in it, since the hex digits contain no quote.

`importLines_flatten` is the round trip of a whole output, which needs that no text has a line break.
-/

set_option autoImplicit false

namespace Strfry

open Lib

/-! ## Export -/

/-- What stands between the JSON text and the hex digits. -/
def friedKey : Bytes := ascii ",\"fried\":\""

/-- The line of an event. An empty text makes `resize` throw. -/
def friedLine (json buf : Bytes) : Except Err Bytes :=
  if json = [] then .error .outOfRange
  else .ok (json.dropLast ++ friedKey ++ encodeHex buf ++ ascii "\"\x7d\n")

section Export

variable (Z : Zstd) (maxEventSize : Nat) (dicts : Table Bytes) (st : Store)

/-- What is printed for an entry of the index `created_at`. -/
def exportEntry (fried : Bool) (levId : Nat) : Except Err Bytes := do
  let json ← st.getEventJson Z maxEventSize dicts levId
  if fried then
    let ev ← st.lookupEventByLevId levId
    friedLine json ev.bytes
  else .ok (json ++ [10])

/-- The callback over the entries; `inBounds` is false where it returns false. -/
def exportLoop (inBounds : Nat → Bool) (fried : Bool) : List (Entry Bytes) → Except Err (List Bytes)
  | [] => .ok []
  | e :: entries =>
    if !inBounds e.num then .ok []
    else do
      let line ← exportEntry Z maxEventSize dicts st fried e.row
      let lines ← exportLoop inBounds fried entries
      .ok (line :: lines)

/-- `cmd_export` on a database of the current version: the lines that it prints. -/
def cmdExport (ord : IndexOrder) (since til : Nat) (reverse fried : Bool) : Except Err (List Bytes) :=
  let index := st.index .createdAt
  if reverse then
    exportLoop Z maxEventSize dicts st (fun createdAt => !decide (createdAt < since)) fried
      (@descFrom _ (@Entry.instLinearOrder _ (ord .createdAt)) index ⟨[], til, ⊤⟩)
  else
    exportLoop Z maxEventSize dicts st (fun createdAt => !decide (createdAt > til)) fried
      (@ascFrom _ (@Entry.instLinearOrder _ (ord .createdAt)) index ⟨[], since, (0 : Nat)⟩)

end Export

/-! ## Import -/

/-- The loop of `parseFried`: from the position `i` down to the nearest quote. -/
def scanQuote (s : Bytes) : Nat → Nat
  | 0 => 0
  | i + 1 => if s[i + 1]? = some 34 then i + 1 else scanQuote s i

/-- `parseFried`: the packed event and the JSON text. -/
def parseFried (hex : HexCodec) (line : Bytes) : Except Err (Bytes × Bytes) :=
  if line.length < 64 then .error (.herr "fried too small")
  else if !(ascii "\"\x7d").isSuffixOf line then .error (.herr "fried parse error")
  else
    let i := scanQuote line (line.length - 3)
    if !friedKey.isSuffixOf (line.take (i + 1)) then .error (.herr "fried parse error")
    else do
      let packed ← hex.fromHexPrefixed ((line.drop (i + 1)).take (line.length - i - 3))
      .ok (packed, (line.set (i - 9) 125).take (i - 8))

/-- `getline` to the end of the input: the lines, each with its line break. -/
def splitLines : Bytes → List Bytes
  | [] => []
  | c :: rest =>
    if c = 10 then [c] :: splitLines rest
    else
      match splitLines rest with
      | [] => [[c]]
      | line :: lines => (c :: line) :: lines

/-- What `import --fried` reads from its input; a line that does not parse is skipped. -/
def importLines (hex : HexCodec) (input : Bytes) : List (Bytes × Bytes) :=
  (splitLines input).filterMap fun line => (parseFried hex line.dropLast).toOption

/-! ## Round trips -/

/-- `from_hex` inverts `to_hex`. -/
def HexCodec.Inverts (hex : HexCodec) : Prop := ∀ b, hex.fromHexPrefixed (encodeHex b) = .ok b

theorem inverts_hexCodec : hexCodec.Inverts := fun b =>
  decodeHexPrefixed_of_decodeHex _ _ (decodeHex_encodeHex b)

theorem hexChar_ne : ∀ x : UInt8, hexChar (x / 16) ≠ 34 ∧ hexChar (x / 16) ≠ 10 ∧
    hexChar (x % 16) ≠ 34 ∧ hexChar (x % 16) ≠ 10 := by
  decide +kernel

/-- The digits contain no quote and no line break. -/
theorem ne_of_mem_encodeHex {b : Bytes} {c : UInt8} (h : c ∈ encodeHex b) : c ≠ 34 ∧ c ≠ 10 := by
  obtain ⟨x, -, hc⟩ := List.mem_flatMap.1 h
  obtain ⟨hq, hn, hq', hn'⟩ := hexChar_ne x
  rcases List.mem_cons.1 hc with rfl | hc
  · exact ⟨hq, hn⟩
  · rw [List.mem_singleton.1 hc]
    exact ⟨hq', hn'⟩

theorem length_encodeHex (b : Bytes) : (encodeHex b).length = 2 * b.length := by
  induction b with
  | nil => rfl
  | cons x b ih =>
    rw [encodeHex, List.flatMap_cons, List.length_append, ← encodeHex, ih, List.length_cons]
    exact (Nat.add_comm _ _).trans (Nat.mul_succ 2 b.length).symm

/-- The scan stops at a quote that is followed by none. -/
theorem scanQuote_eq {s : Bytes} {m : Nat} (hm : s[m]? = some 34) :
    ∀ d, (∀ x, m < x → x ≤ m + d → s[x]? ≠ some 34) → scanQuote s (m + d) = m := by
  intro d
  induction d with
  | zero =>
    intro _
    cases m with
    | zero => rfl
    | succ m => rw [Nat.add_zero, scanQuote, if_pos hm]
  | succ d ih =>
    intro hno
    rw [← Nat.add_assoc, scanQuote, if_neg (hno _ (by omega) (by omega))]
    exact ih fun x hlt hle => hno x hlt (by omega)

/-- A line with a fried field whose digits contain no quote. -/
theorem parseFried_eq (hex : HexCodec) {body digits : Bytes} (hno : (34 : UInt8) ∉ digits)
    (hsize : 52 ≤ body.length + digits.length) :
    parseFried hex (body ++ friedKey ++ digits ++ ascii "\"\x7d") =
      (hex.fromHexPrefixed digits).map fun packed => (packed, body ++ [125]) := by
  have hkey : friedKey.length = 10 := rfl
  have hend : ascii "\"\x7d" = [34, 125] := rfl
  generalize hs : body ++ friedKey ++ digits ++ ascii "\"\x7d" = s
  have hlen : s.length = body.length + 10 + digits.length + 2 := by
    rw [← hs]
    simp only [List.length_append, hkey, hend, List.length_cons, List.length_nil]
  have hquote : s[body.length + 9]? = some 34 := by
    rw [← hs, List.append_assoc, List.append_assoc, List.getElem?_append_right (by omega),
      List.getElem?_append_left (by rw [hkey]; omega), Nat.add_sub_cancel_left]
    rfl
  -- between that quote and the end of the digits there is no other
  have hscan : scanQuote s (s.length - 3) = body.length + 9 := by
    have hpos : s.length - 3 = body.length + 9 + digits.length := by omega
    rw [hpos]
    refine scanQuote_eq hquote _ fun x hlt hle hx => ?_
    rw [← hs, List.getElem?_append_left (by simp only [List.length_append, hkey]; omega),
      List.getElem?_append_right (by simp only [List.length_append, hkey]; omega)] at hx
    exact hno (List.mem_of_getElem? hx)
  have htake : s.take (body.length + 9 + 1) = body ++ friedKey := by
    rw [← hs, List.append_assoc]
    exact List.take_left' (by rw [List.length_append, hkey])
  have hdrop : s.drop (body.length + 9 + 1) = digits ++ [34, 125] := by
    rw [← hs, List.append_assoc]
    exact List.drop_left' (by rw [List.length_append, hkey])
  have hhexPart : (digits ++ [34, 125]).take (s.length - (body.length + 9) - 3) = digits :=
    List.take_left' (by omega)
  have hjson : (s.set (body.length + 9 - 9) 125).take (body.length + 9 - 8) = body ++ [125] := by
    have hcomma : friedKey = 44 :: ascii "\"fried\":\"" := rfl
    have hlast : body.length + 9 - 8 = (body ++ [(125 : UInt8)]).length := by
      rw [List.length_append, List.length_singleton]
      omega
    rw [← hs, hcomma, List.append_assoc, List.append_assoc, Nat.add_sub_cancel,
      List.set_append_right _ _ le_rfl, Nat.sub_self, List.cons_append, List.set_cons_zero,
      ← List.singleton_append, ← List.append_assoc, hlast]
    exact List.take_left' rfl
  rw [parseFried, if_neg (by omega), if_neg, hscan]
  · simp only [htake, hdrop, hhexPart, hjson]
    rw [if_neg]
    · cases hex.fromHexPrefixed digits <;> rfl
    · rw [Bool.not_eq_true', Bool.not_eq_false, List.isSuffixOf_iff_suffix]
      exact List.suffix_append _ _
  · rw [Bool.not_eq_true', Bool.not_eq_false, List.isSuffixOf_iff_suffix, ← hs]
    exact List.suffix_append _ _

/-- `parseFried` reads back what was put into a line. -/
theorem parseFried_friedLine {hex : HexCodec} (hhex : hex.Inverts) {body buf : Bytes}
    (hbuf : 88 ≤ buf.length) :
    parseFried hex (body ++ friedKey ++ encodeHex buf ++ ascii "\"\x7d") = .ok (buf, body ++ [125]) := by
  have hsize : 52 ≤ body.length + (encodeHex buf).length := by
    rw [length_encodeHex]
    omega
  rw [parseFried_eq hex (fun hmem => (ne_of_mem_encodeHex hmem).1 rfl) hsize, hhex buf]
  rfl

/-- A line is read to its line break. -/
theorem splitLines_append {line : Bytes} (h : (10 : UInt8) ∉ line) (rest : Bytes) :
    splitLines (line ++ 10 :: rest) = (line ++ [10]) :: splitLines rest := by
  induction line with
  | nil => rw [List.nil_append, splitLines, if_pos rfl, List.nil_append]
  | cons c line ih =>
    rw [List.mem_cons, not_or] at h
    rw [List.cons_append, splitLines, if_neg (Ne.symm h.1), ih h.2]
    rfl

/-- The line that is printed for an event with the text `c.2 ++ [125]`. -/
def friedText (c : PackedEvent × Bytes) : Bytes :=
  c.2 ++ friedKey ++ encodeHex c.1.bytes ++ ascii "\"\x7d\n"

theorem friedLine_eq (c : PackedEvent × Bytes) : friedLine (c.2 ++ [125]) c.1.bytes = .ok (friedText c) := by
  rw [friedLine, if_neg (List.append_ne_nil_of_right_ne_nil _ (List.cons_ne_nil _ _)),
    List.dropLast_concat]
  rfl

theorem dropLast_friedText (c : PackedEvent × Bytes) :
    (friedText c).dropLast = c.2 ++ friedKey ++ encodeHex c.1.bytes ++ ascii "\"\x7d" :=
  List.dropLast_append_of_ne_nil (List.cons_ne_nil _ _)

theorem friedText_eq (c : PackedEvent × Bytes) :
    friedText c = (c.2 ++ friedKey ++ encodeHex c.1.bytes ++ ascii "\"\x7d") ++ [10] := by
  rw [friedText, List.append_assoc _ (ascii "\"\x7d")]
  rfl

/-- An exported line is read back as the packed event and its text. -/
theorem parseFried_friedText {hex : HexCodec} (hhex : hex.Inverts) (c : PackedEvent × Bytes) :
    parseFried hex (friedText c).dropLast = .ok (c.1.bytes, c.2 ++ [125]) := by
  rw [dropLast_friedText]
  exact parseFried_friedLine hhex c.1.header_size

/-- A whole output is read back, line by line. -/
theorem importLines_flatten {hex : HexCodec} (hhex : hex.Inverts) {items : List (PackedEvent × Bytes)}
    (hbreak : ∀ c ∈ items, (10 : UInt8) ∉ c.2) :
    importLines hex (items.map friedText).flatten =
      items.map fun c => (c.1.bytes, c.2 ++ [125]) := by
  have hsplit : splitLines (items.map friedText).flatten = items.map friedText := by
    induction items with
    | nil => rfl
    | cons c items ih =>
      have hc := hbreak c List.mem_cons_self
      have hno : (10 : UInt8) ∉ c.2 ++ friedKey ++ encodeHex c.1.bytes ++ ascii "\"\x7d" := by
        simp only [List.mem_append, not_or]
        exact ⟨⟨⟨hc, by decide⟩, fun hmem => (ne_of_mem_encodeHex hmem).2 rfl⟩, by decide⟩
      rw [List.map_cons, List.flatten_cons, friedText_eq, List.append_assoc, List.singleton_append,
        splitLines_append hno, ih fun c hmem => hbreak c (List.mem_cons_of_mem _ hmem)]
  rw [importLines, hsplit, List.filterMap_map]
  refine List.filterMap_eq_map_iff_forall_eq_some.2 fun c _ => ?_
  rw [Function.comp_apply, parseFried_friedText hhex c]
  rfl

/-! ## What is exported -/

section Exported

variable {Z : Zstd} {maxEventSize : Nat} {dicts : Table Bytes} {st : Store} {ord : IndexOrder}

/-- The entry leads to an event whose text is `c.2` and a brace. -/
def Exports (Z : Zstd) (maxEventSize : Nat) (dicts : Table Bytes) (st : Store) (e : Entry Bytes)
    (c : PackedEvent × Bytes) : Prop :=
  st.event.get? e.row = some c.1 ∧ st.getEventJson Z maxEventSize dicts e.row = .ok (c.2 ++ [125])

theorem exportLoop_eq {inBounds : Nat → Bool} {entries : List (Entry Bytes)}
    {content : Entry Bytes → PackedEvent × Bytes} (hall : ∀ e ∈ entries, inBounds e.num = true)
    (hread : ∀ e ∈ entries, Exports Z maxEventSize dicts st e (content e)) :
    exportLoop Z maxEventSize dicts st inBounds true entries =
      .ok ((entries.map content).map friedText) := by
  induction entries with
  | nil => rfl
  | cons e entries ih =>
    obtain ⟨hget, hjson⟩ := hread e List.mem_cons_self
    have hline : exportEntry Z maxEventSize dicts st true e.row = .ok (friedText (content e)) := by
      rw [exportEntry, hjson]
      show (st.lookupEventByLevId e.row >>= fun ev => friedLine ((content e).2 ++ [125]) ev.bytes) = _
      rw [Store.lookupEventByLevId, hget]
      exact friedLine_eq (content e)
    have hrest := ih (fun e he => hall e (List.mem_cons_of_mem _ he))
      fun e he => hread e (List.mem_cons_of_mem _ he)
    rw [exportLoop, hall e List.mem_cons_self]
    simp only [Bool.not_true, Bool.false_eq_true, if_false, hline, hrest]
    rfl

/-- The entries that an export without bounds visits are those of the index, each once. -/
theorem cmdExport_entries (st : Store) (ord : IndexOrder) (reverse : Bool) :
    ∃ entries inBounds, cmdExport Z maxEventSize dicts st ord 0 maxU64 reverse true =
        exportLoop Z maxEventSize dicts st inBounds true entries ∧ entries.Nodup ∧
      (∀ e, e ∈ entries ↔ e ∈ st.index .createdAt) ∧ ∀ e ∈ entries, inBounds e.num = true := by
  have hnum : ∀ e ∈ st.index .createdAt, e.key = [] ∧ e.num ≤ maxU64 := by
    intro e he
    obtain ⟨levId, p, -, hk, -⟩ := Store.mem_index.1 he
    obtain ⟨hkey, hnum⟩ := Prod.mk.inj (List.mem_singleton.1 hk)
    exact ⟨hkey, hnum ▸ Nat.le_sub_one_of_lt p.createdAt_lt⟩
  let _ := ord .createdAt
  cases reverse with
  | true =>
    have hmem : ∀ e, e ∈ descFrom (st.index .createdAt) ⟨[], maxU64, ⊤⟩ ↔
        e ∈ st.index .createdAt := by
      intro e
      rw [mem_descFrom, and_iff_left_iff_imp]
      intro he
      obtain ⟨hkey, hle⟩ := hnum e he
      rw [Entry.le_iff_of_key_eq hkey]
      exact (lt_or_eq_of_le hle).imp_right fun heq => ⟨heq, le_top⟩
    refine ⟨_, _, rfl, ?_, hmem, fun e _ => rfl⟩
    exact (pairwise_descFrom _ _).imp fun h => h.ne'
  | false =>
    have hmem : ∀ e, e ∈ ascFrom (st.index .createdAt) ⟨[], 0, (0 : Nat)⟩ ↔
        e ∈ st.index .createdAt := by
      intro e
      rw [mem_ascFrom, and_iff_left_iff_imp]
      intro he
      rw [Entry.le_iff_of_key_eq (hnum e he).1.symm]
      exact (lt_or_eq_of_le (Nat.zero_le e.num)).imp_right fun heq => ⟨heq, bot_le⟩
    refine ⟨_, _, rfl, ?_, hmem, fun e he => ?_⟩
    · exact (pairwise_ascFrom _ _).imp fun h => h.ne
    · rw [Bool.not_eq_true', decide_eq_false_iff_not, not_lt]
      exact (hnum e ((hmem e).1 he)).2

/-- An export of a readable store prints one line for every event. -/
theorem cmdExport_eq (hread : ∀ r ∈ st.event.rows, ∃ body,
    st.getEventJson Z maxEventSize dicts r.1 = .ok (body ++ [125])) (reverse : Bool) :
    ∃ items : List (PackedEvent × Bytes),
      cmdExport Z maxEventSize dicts st ord 0 maxU64 reverse true = .ok (items.map friedText) ∧
      (∀ c, c ∈ items ↔ ∃ levId, (levId, c.1) ∈ st.event.rows ∧
        st.getEventJson Z maxEventSize dicts levId = .ok (c.2 ++ [125])) ∧
      items.Pairwise fun a b => ∃ r r' : Nat × PackedEvent, r ∈ st.event.rows ∧ r' ∈ st.event.rows ∧
        r ≠ r' ∧ r.2 = a.1 ∧ r'.2 = b.1 := by
  obtain ⟨entries, inBounds, hexport, hnodup, hmem, hall⟩ :=
    @cmdExport_entries Z maxEventSize dicts st ord reverse
  have hrow : ∀ e ∈ entries, ∃ p, (e.row, p) ∈ st.event.rows ∧
      e = ⟨[], p.createdAt, (e.row : Nat)⟩ := by
    intro e he
    obtain ⟨levId, p, hr, hk, hv⟩ := Store.mem_index.1 ((hmem e).1 he)
    obtain ⟨hkey, hnum⟩ := Prod.mk.inj (List.mem_singleton.1 hk)
    cases e
    simp only at hkey hnum hv
    subst hkey hnum hv
    exact ⟨p, hr, rfl⟩
  have hex : ∀ e ∈ entries, ∃ c, Exports Z maxEventSize dicts st e c := by
    intro e he
    obtain ⟨p, hr, -⟩ := hrow e he
    obtain ⟨body, hbody⟩ := hread _ hr
    exact ⟨(p, body), Table.get?_eq_some_iff.2 hr, hbody⟩
  have : Nonempty (PackedEvent × Bytes) := ⟨note.packed, []⟩
  choose! content hcontent using hex
  have hstored : ∀ e ∈ entries, (e.row, (content e).1) ∈ st.event.rows :=
    fun e he => Table.get?_eq_some_iff.1 (hcontent e he).1
  refine ⟨entries.map content, hexport.trans (exportLoop_eq hall hcontent), fun c => ⟨?_, ?_⟩, ?_⟩
  · intro hc
    obtain ⟨e, he, rfl⟩ := List.mem_map.1 hc
    exact ⟨e.row, hstored e he, (hcontent e he).2⟩
  · rintro ⟨levId, hr, hjson⟩
    have he : (⟨[], c.1.createdAt, (levId : Nat)⟩ : Entry Bytes) ∈ entries :=
      (hmem _).2 (Store.mem_index.2 ⟨levId, c.1, hr, List.mem_singleton_self _, rfl⟩)
    obtain ⟨hget, hjson'⟩ := hcontent _ he
    refine List.mem_map.2 ⟨_, he, Prod.ext ?_ ?_⟩
    · exact Option.some.inj (hget.symm.trans (Table.get?_eq_some_iff.2 hr))
    · exact List.append_cancel_right (Except.ok.inj (hjson'.symm.trans hjson))
  · refine List.pairwise_map.2 (hnodup.imp_of_mem ?_)
    intro e e' he he' hne
    refine ⟨_, _, hstored e he, hstored e' he', fun heq => hne ?_, rfl, rfl⟩
    -- entries of one row are the same
    obtain ⟨p, hp, hep⟩ := hrow e he
    obtain ⟨p', hp', hep'⟩ := hrow e' he'
    have hrows : e.row = e'.row := congrArg Prod.fst heq
    rw [← hrows] at hp' hep'
    rw [hep, hep', Table.eq_of_mem hp hp']

end Exported

end Strfry
