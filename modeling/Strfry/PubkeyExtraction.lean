import Strfry.HttpServer
import Strfry.IPv6Address

/-!
# The pubkey that a request is charged to

Before the body of a request is parsed, `extractPubkeyFromRequest` looks for the pubkey with a substring
search, and the rate limiter charges what it finds. The search knows two spellings of the key and of what
stands between it and its value, and takes the first place where one of them stands, at any depth.

A JSON text is a list of tokens here, as far as the search can tell them apart: strings, with their escapes,
and single bytes between them. `extractPubkeyFromRequest_iff` says on the tokens when the search finds the
pubkey.
-/

set_option autoImplicit false

namespace Strfry

open Lib

/-- What stands behind the first occurrence of a pattern. -/
def afterFirst (pat : Bytes) : Bytes → Option Bytes
  | [] => if pat.isPrefixOf [] then some [] else none
  | c :: s => if pat.isPrefixOf (c :: s) then some ((c :: s).drop pat.length) else afterFirst pat s

/-- `pubkeyPrefix` and `pubkeyPrefixSpace`, with what stands between the key and its value. -/
def pubkeyPrefix (sep : Bytes) : Bytes := 34 :: (ascii "pubkey" ++ 34 :: (sep ++ [34]))

/-- `HttpServer::extractPubkeyFromRequest`. -/
def extractPubkeyFromRequest (method : String) (body : Bytes) : Bytes :=
  if method ≠ "POST" ∨ body = [] then []
  else
    let found :=
      match afterFirst (pubkeyPrefix (ascii ":")) body with
      | some rest => some rest
      | none => afterFirst (pubkeyPrefix (ascii ": ")) body
    match found with
    | none => []
    | some rest =>
      if rest.length < 64 then []
      else if (rest.take 64).all isHexDigit then rest.take 64
      else []

/-! ## Tokens -/

/-- A character of a string as it is written: itself, or a backslash and a byte. -/
inductive StringUnit
  | plain (b : UInt8)
  | escape (b : UInt8)
  deriving DecidableEq

/-- A token: a string, or a byte outside of strings. -/
inductive JsonToken
  | other (b : UInt8)
  | string (units : List StringUnit)
  deriving DecidableEq

/-- The bytes of a character. -/
def StringUnit.spell : StringUnit → Bytes
  | .plain b => [b]
  | .escape b => [92, b]

/-- The bytes between the quotes. -/
def spellUnits (us : List StringUnit) : Bytes := us.flatMap StringUnit.spell

/-- The bytes of a token. -/
def JsonToken.spell : JsonToken → Bytes
  | .other b => [b]
  | .string us => 34 :: (spellUnits us ++ [34])

/-- The text of a list of tokens. -/
def spellTokens (ts : List JsonToken) : Bytes := ts.flatMap JsonToken.spell

/-- A character is not a quote or a backslash unless it is escaped. -/
def StringUnit.Valid : StringUnit → Prop
  | .plain b => b ≠ 34 ∧ b ≠ 92
  | .escape _ => True

/-- Outside of strings there is no quote, and no `p`: no literal of JSON has one. -/
def JsonToken.Valid : JsonToken → Prop
  | .other b => b ≠ 34 ∧ b ≠ 112
  | .string us => ∀ u ∈ us, u.Valid

instance (u : StringUnit) : Decidable u.Valid :=
  match u with
  | .plain b => inferInstanceAs (Decidable (b ≠ 34 ∧ b ≠ 92))
  | .escape _ => inferInstanceAs (Decidable True)

instance (t : JsonToken) : Decidable t.Valid :=
  match t with
  | .other b => inferInstanceAs (Decidable (b ≠ 34 ∧ b ≠ 112))
  | .string us => inferInstanceAs (Decidable (∀ u ∈ us, u.Valid))

/-- The tokens of a text. -/
def TokensOf (ts : List JsonToken) (body : Bytes) : Prop :=
  (∀ t ∈ ts, t.Valid) ∧ spellTokens ts = body

/-- The string that stands behind the separator, and what follows it. -/
def valueAfter : Bytes → List JsonToken → Option (List StringUnit × List JsonToken)
  | [], .string vs :: rest => some (vs, rest)
  | c :: sep, .other b :: rest => if b = c then valueAfter sep rest else none
  | _, _ => none

/-- The characters of the key. -/
def pubkeyUnits : List StringUnit := (ascii "pubkey").map .plain

/-- The string is the key, or it ends in an escaped quote and the key. -/
def NamesPubkey (us : List StringUnit) : Prop :=
  us = pubkeyUnits ∨ .escape 34 :: pubkeyUnits <:+ us

instance (us : List StringUnit) : Decidable (NamesPubkey us) :=
  inferInstanceAs (Decidable (_ ∨ _))

/-- The value of the first string that names the pubkey and is followed by the separator and a string. -/
def firstNamed (sep : Bytes) : List JsonToken → Option (List StringUnit × List JsonToken)
  | [] => none
  | .other _ :: rest => firstNamed sep rest
  | .string us :: rest =>
    if NamesPubkey us ∧ (valueAfter sep rest).isSome then valueAfter sep rest else firstNamed sep rest

/-! ## The search on the tokens -/

section Search

variable {us : List StringUnit} {ts : List JsonToken}

@[simp] theorem spellUnits_nil : spellUnits [] = [] := rfl

@[simp] theorem spellUnits_plain (b : UInt8) : spellUnits (.plain b :: us) = b :: spellUnits us := rfl

@[simp] theorem spellUnits_escape (b : UInt8) : spellUnits (.escape b :: us) = 92 :: b :: spellUnits us := rfl

@[simp] theorem spellTokens_nil : spellTokens [] = [] := rfl

@[simp] theorem spellTokens_other (b : UInt8) : spellTokens (.other b :: ts) = b :: spellTokens ts := rfl

@[simp] theorem spellTokens_string :
    spellTokens (.string us :: ts) = 34 :: (spellUnits us ++ 34 :: spellTokens ts) := by
  simp [spellTokens, JsonToken.spell]

/-- A word without quotes and backslashes up to the end of a string: it is all there is of the string. -/
theorem word_prefix_iff {w q tail : Bytes} (hw : ∀ b ∈ w, b ≠ 34 ∧ b ≠ 92)
    (hus : ∀ u ∈ us, u.Valid) :
    w ++ 34 :: q <+: spellUnits us ++ 34 :: tail ↔ us = w.map .plain ∧ q <+: tail := by
  induction w generalizing us with
  | nil =>
    cases us with
    | nil => simp
    | cons u us =>
      cases u with
      | plain b =>
        have hb : b ≠ 34 := (hus _ List.mem_cons_self).1
        simp [hb.symm]
      | escape b => simp
  | cons c w ih =>
    have hc := hw c List.mem_cons_self
    have hw' : ∀ b ∈ w, b ≠ 34 ∧ b ≠ 92 := fun b hb => hw b (List.mem_cons_of_mem _ hb)
    cases us with
    | nil => simp [hc.1]
    | cons u us =>
      have hus' : ∀ u ∈ us, u.Valid := fun u hu => hus u (List.mem_cons_of_mem _ hu)
      cases u with
      | plain b =>
        simp only [List.cons_append, spellUnits_plain, List.cons_prefix_cons, ih hw' hus', List.map_cons,
          List.cons.injEq, StringUnit.plain.injEq, and_assoc]
        exact and_congr_left fun _ => eq_comm
      | escape b => simp [hc.2]

theorem afterFirst_cons {pat s : Bytes} {c : UInt8} (h : ¬ pat <+: c :: s) :
    afterFirst pat (c :: s) = afterFirst pat s := by
  rw [afterFirst, if_neg (mt List.isPrefixOf_iff_prefix.mp h)]

theorem afterFirst_of_prefix {pat s : Bytes} (h : pat <+: s) :
    afterFirst pat s = some (s.drop pat.length) := by
  cases s with
  | nil =>
    rw [List.prefix_nil.mp h]
    rfl
  | cons c s => rw [afterFirst, if_pos (List.isPrefixOf_iff_prefix.mpr h)]

/-- What must stand behind the key: the quote that closes it, the separator and a quote. -/
def opening (sep : Bytes) : Bytes := sep ++ [34]

variable {sep tail : Bytes}

theorem valid_pubkey : ∀ b ∈ ascii "pubkey", b ≠ 34 ∧ b ≠ 92 := by decide +kernel

/-- The pattern at a quote within a text: the characters of the string that is left are the key. -/
theorem pattern_prefix_iff (hus : ∀ u ∈ us, u.Valid) :
    pubkeyPrefix sep <+: 34 :: (spellUnits us ++ 34 :: tail) ↔ us = pubkeyUnits ∧ opening sep <+: tail := by
  rw [pubkeyPrefix, List.cons_prefix_cons, and_iff_right rfl, word_prefix_iff valid_pubkey hus]
  rfl

/-- The rest of the text behind the pattern when it is found there. -/
theorem drop_pattern : (34 :: (spellUnits pubkeyUnits ++ 34 :: tail)).drop (pubkeyPrefix sep).length =
    tail.drop (opening sep).length := by
  have hlen : (pubkeyPrefix sep).length = 8 + (opening sep).length := by
    simp [pubkeyPrefix, opening, ascii]
    omega
  rw [hlen, ← List.drop_drop]
  rfl

/-- The search from within a string. It can stop at an escaped quote, and it does not stop at the quote
that closes the string, because what follows does not begin with a `p`. -/
theorem afterFirst_units (hus : ∀ u ∈ us, u.Valid) (htail : tail.head? ≠ some 112) :
    afterFirst (pubkeyPrefix sep) (spellUnits us ++ 34 :: tail) =
      if .escape 34 :: pubkeyUnits <:+ us ∧ opening sep <+: tail then some (tail.drop (opening sep).length)
      else afterFirst (pubkeyPrefix sep) tail := by
  induction us with
  | nil =>
    -- at the quote that closes the string
    rw [if_neg (by simp), spellUnits_nil, List.nil_append, afterFirst_cons]
    intro h
    rw [pubkeyPrefix, List.cons_prefix_cons] at h
    obtain ⟨rest, hrest⟩ := h.2
    rw [← hrest] at htail
    exact htail rfl
  | cons u us ih =>
    have hus' : ∀ u ∈ us, u.Valid := fun u hu => hus u (List.mem_cons_of_mem _ hu)
    cases u with
    | plain b =>
      have hb : b ≠ 34 := (hus _ List.mem_cons_self).1
      rw [spellUnits_plain, List.cons_append, afterFirst_cons, ih hus']
      · have hsuffix : StringUnit.escape 34 :: pubkeyUnits <:+ StringUnit.plain b :: us ↔
            StringUnit.escape 34 :: pubkeyUnits <:+ us := by
          simp [List.suffix_cons_iff]
        simp only [hsuffix]
      · rw [pubkeyPrefix, List.cons_prefix_cons]
        exact fun h => hb h.1.symm
    | escape b =>
      rw [spellUnits_escape, List.cons_append, List.cons_append, afterFirst_cons]
      · -- at an escaped character: an escaped quote can begin the pattern
        by_cases hfound : (b = 34 ∧ us = pubkeyUnits) ∧ opening sep <+: tail
        · obtain ⟨⟨rfl, rfl⟩, hopen⟩ := hfound
          rw [if_pos ⟨List.suffix_rfl, hopen⟩,
            afterFirst_of_prefix ((pattern_prefix_iff hus').mpr ⟨rfl, hopen⟩), drop_pattern]
        · rw [afterFirst_cons, ih hus']
          · have hcond : (StringUnit.escape 34 :: pubkeyUnits <:+ StringUnit.escape b :: us ∧
                opening sep <+: tail) ↔
                (StringUnit.escape 34 :: pubkeyUnits <:+ us ∧ opening sep <+: tail) := by
              rw [List.suffix_cons_iff]
              constructor
              · rintro ⟨heq | hsuffix, hopen⟩
                · simp only [List.cons.injEq, StringUnit.escape.injEq] at heq
                  exact absurd ⟨⟨heq.1.symm, heq.2.symm⟩, hopen⟩ hfound
                · exact ⟨hsuffix, hopen⟩
              · exact fun h => ⟨.inr h.1, h.2⟩
            simp only [hcond]
          · intro h
            by_cases hb : b = 34
            · subst hb
              obtain ⟨hus, hopen⟩ := (pattern_prefix_iff hus').mp h
              exact hfound ⟨⟨rfl, hus⟩, hopen⟩
            · rw [pubkeyPrefix, List.cons_prefix_cons] at h
              exact hb h.1.symm
      · rw [pubkeyPrefix, List.cons_prefix_cons]
        exact fun h => absurd h.1 (by decide)

/-- The search at a string. -/
theorem afterFirst_string (hus : ∀ u ∈ us, u.Valid) (htail : tail.head? ≠ some 112) :
    afterFirst (pubkeyPrefix sep) (34 :: (spellUnits us ++ 34 :: tail)) =
      if NamesPubkey us ∧ opening sep <+: tail then some (tail.drop (opening sep).length)
      else afterFirst (pubkeyPrefix sep) tail := by
  by_cases hfound : us = pubkeyUnits ∧ opening sep <+: tail
  · -- the string is the key
    obtain ⟨rfl, hopen⟩ := hfound
    rw [if_pos ⟨.inl rfl, hopen⟩,
      afterFirst_of_prefix ((pattern_prefix_iff hus).mpr ⟨rfl, hopen⟩), drop_pattern]
  · -- the search goes on within the string
    rw [afterFirst_cons (mt (pattern_prefix_iff hus).mp hfound), afterFirst_units hus htail]
    have hcond : (StringUnit.escape 34 :: pubkeyUnits <:+ us ∧ opening sep <+: tail) ↔
        (NamesPubkey us ∧ opening sep <+: tail) := by
      constructor
      · exact fun h => ⟨.inr h.1, h.2⟩
      · rintro ⟨heq | hsuffix, hopen⟩
        · exact absurd ⟨heq, hopen⟩ hfound
        · exact ⟨hsuffix, hopen⟩
    simp only [hcond]

theorem head_spellTokens (hts : ∀ t ∈ ts, t.Valid) : (spellTokens ts).head? ≠ some 112 := by
  cases ts with
  | nil => simp
  | cons t ts =>
    cases t with
    | other b =>
      have hb : b ≠ 112 := (hts _ List.mem_cons_self).2
      simpa using hb
    | string us => simp

/-- The separator and a quote stand at the beginning of a text exactly if its tokens are those of the
separator and a string. -/
theorem opening_prefix_iff (hsep : 34 ∉ sep) (hts : ∀ t ∈ ts, t.Valid) :
    (opening sep <+: spellTokens ts ↔ (valueAfter sep ts).isSome = true) ∧
      ∀ vs rest, valueAfter sep ts = some (vs, rest) →
        (spellTokens ts).drop (opening sep).length = spellUnits vs ++ 34 :: spellTokens rest := by
  induction sep generalizing ts with
  | nil =>
    cases ts with
    | nil => simp [opening, valueAfter]
    | cons t ts =>
      cases t with
      | other b =>
        have hb : b ≠ 34 := (hts _ List.mem_cons_self).1
        simp [opening, valueAfter, hb.symm]
      | string us =>
        refine ⟨by simp [opening, valueAfter], fun vs rest h => ?_⟩
        cases h
        simp [opening]
  | cons c sep ih =>
    rw [List.mem_cons, not_or] at hsep
    cases ts with
    | nil => simp [opening, valueAfter]
    | cons t ts =>
      have hts' : ∀ t ∈ ts, t.Valid := fun t ht => hts t (List.mem_cons_of_mem _ ht)
      cases t with
      | other b =>
        obtain ⟨hiff, hdrop⟩ := ih hsep.2 hts'
        by_cases hb : b = c
        · subst hb
          simp only [valueAfter, if_true]
          refine ⟨?_, hdrop⟩
          rw [← hiff]
          simp [opening]
        · simp [valueAfter, hb, opening, Ne.symm hb]
      | string us =>
        have hc : c ≠ 34 := fun h => hsep.1 h.symm
        simp [valueAfter, opening, hc]

/-- The search on a text. -/
theorem afterFirst_spellTokens (hsep : 34 ∉ sep) (hts : ∀ t ∈ ts, t.Valid) :
    afterFirst (pubkeyPrefix sep) (spellTokens ts) =
      (firstNamed sep ts).map fun r => spellUnits r.1 ++ 34 :: spellTokens r.2 := by
  induction ts with
  | nil => rfl
  | cons t ts ih =>
    have hts' : ∀ t ∈ ts, t.Valid := fun t ht => hts t (List.mem_cons_of_mem _ ht)
    cases t with
    | other b =>
      have hb : b ≠ 34 := (hts _ List.mem_cons_self).1
      rw [spellTokens_other, afterFirst_cons, firstNamed, ih hts']
      rw [pubkeyPrefix, List.cons_prefix_cons]
      exact fun h => hb h.1.symm
    | string us =>
      have hus : ∀ u ∈ us, u.Valid := hts _ List.mem_cons_self
      obtain ⟨hiff, hdrop⟩ := opening_prefix_iff hsep hts'
      rw [spellTokens_string, afterFirst_string hus (head_spellTokens hts'), firstNamed, ih hts']
      simp only [hiff]
      by_cases hfound : NamesPubkey us ∧ (valueAfter sep ts).isSome = true
      · obtain ⟨⟨vs, rest⟩, hvalue⟩ := Option.isSome_iff_exists.mp hfound.2
        rw [if_pos hfound, if_pos hfound, hvalue, Option.map_some, hdrop vs rest hvalue]
      · rw [if_neg hfound, if_neg hfound]

end Search

/-! ## When it is the author's -/

section Extraction

variable {p : Bytes}

/-- A word without quotes and backslashes begins a string as it is written exactly if its characters do. -/
theorem word_prefix_units_iff {vs : List StringUnit} {tail : Bytes} (hp : ∀ c ∈ p, c ≠ 34 ∧ c ≠ 92) :
    p <+: spellUnits vs ++ 34 :: tail ↔ p.map .plain <+: vs := by
  induction p generalizing vs with
  | nil => simp
  | cons c p ih =>
    have hc := hp c List.mem_cons_self
    have hp' : ∀ b ∈ p, b ≠ 34 ∧ b ≠ 92 := fun b hb => hp b (List.mem_cons_of_mem _ hb)
    cases vs with
    | nil => simp [hc.1]
    | cons v vs =>
      cases v with
      | plain b => simp [List.cons_prefix_cons, ih hp']
      | escape b => simp [List.cons_prefix_cons, hc.2]

theorem isHexDigit_ne_quote {c : UInt8} (h : isHexDigit c = true) : c ≠ 34 ∧ c ≠ 92 := by
  constructor
  · rintro rfl
    exact absurd h (by decide)
  · rintro rfl
    exact absurd h (by decide)

/-- The string that the search stops at. -/
def searchedValue (ts : List JsonToken) : Option (List StringUnit) :=
  match firstNamed (ascii ":") ts with
  | some r => some r.1
  | none => (firstNamed (ascii ": ") ts).map Prod.fst

/-- The search stops at a string that begins with the characters of the pubkey. -/
def Finds (ts : List JsonToken) (p : Bytes) : Prop :=
  ∃ vs, searchedValue ts = some vs ∧ p.map .plain <+: vs

/-- The parser accepts no text but those of JSON tokens. -/
def TokensOnly (parse : Bytes → Except Err Json) : Prop :=
  ∀ body v, parse body = .ok v → ∃ ts, TokensOf ts body

/-- The body of an event of the author `p`. -/
structure PostedBy (parse : Bytes → Except Err Json) (body p : Bytes) : Prop where
  parsed : ∃ v, parse body = .ok v ∧ v.isObject = true ∧ v.find? "pubkey" = some (.string p)
  length_eq : p.length = 64
  hex : ∀ c ∈ p, isHexDigit c = true

/-- The first 64 bytes behind the pattern. -/
theorem takePubkey_eq_iff {rest : Bytes} (hlen : p.length = 64) (hhex : ∀ c ∈ p, isHexDigit c = true) :
    (if rest.length < 64 then []
      else if (rest.take 64).all isHexDigit = true then rest.take 64 else []) = p ↔ p <+: rest := by
  have hne : [] ≠ p := by
    rintro rfl
    cases hlen
  constructor
  · intro h
    split at h
    · exact absurd h hne
    · split at h
      · rw [← h]
        exact List.take_prefix _ _
      · exact absurd h hne
  · rintro ⟨tail, rfl⟩
    have htake : (p ++ tail).take 64 = p := by
      rw [← hlen, List.take_left']
      rfl
    have hlong : ¬ (p ++ tail).length < 64 := by
      rw [List.length_append]
      omega
    rw [if_neg hlong, htake, if_pos (List.all_eq_true.mpr hhex)]

theorem extractPubkey_of_tokens {ts : List JsonToken} {body : Bytes} (hts : TokensOf ts body)
    (hlen : p.length = 64) (hhex : ∀ c ∈ p, isHexDigit c = true) :
    extractPubkeyFromRequest "POST" body = p ↔ Finds ts p := by
  obtain ⟨hvalid, rfl⟩ := hts
  have hne : [] ≠ p := by
    rintro rfl
    cases hlen
  have hword : ∀ c ∈ p, c ≠ 34 ∧ c ≠ 92 := fun c hc => isHexDigit_ne_quote (hhex c hc)
  have hcolon := @afterFirst_spellTokens ts (ascii ":") (by decide) hvalid
  have hspace := @afterFirst_spellTokens ts (ascii ": ") (by decide) hvalid
  rw [extractPubkeyFromRequest, Finds, searchedValue]
  by_cases hempty : spellTokens ts = []
  · -- there is nothing to search in an empty body
    rw [if_pos (.inr hempty)]
    have hnil : ts = [] := by
      cases ts with
      | nil => rfl
      | cons t ts => cases t <;> simp at hempty
    subst hnil
    simp [hne, firstNamed]
  · rw [if_neg (by simp [hempty]), hcolon, hspace]
    cases hfirst : firstNamed (ascii ":") ts with
    | some r =>
      simp only [Option.map_some, Option.some.injEq, exists_eq_left']
      rw [takePubkey_eq_iff hlen hhex, word_prefix_units_iff hword]
    | none =>
      cases hsecond : firstNamed (ascii ": ") ts with
      | some r =>
        simp only [Option.map_none, Option.map_some, Option.some.injEq, exists_eq_left']
        rw [takePubkey_eq_iff hlen hhex, word_prefix_units_iff hword]
      | none => simp [hne]

/-- The search agrees with the parser on a body exactly if the first string that names the pubkey and is
followed by a colon and a string is followed by the author's pubkey, spelled as it is; or, when no string
is, the first one with a space behind the colon. -/
theorem extractPubkeyFromRequest_iff {parse : Bytes → Except Err Json} (hparse : TokensOnly parse)
    {body : Bytes} (h : PostedBy parse body p) :
    (∃ ts, TokensOf ts body) ∧
      ∀ ts, TokensOf ts body → (extractPubkeyFromRequest "POST" body = p ↔ Finds ts p) := by
  obtain ⟨v, hv, -, -⟩ := h.parsed
  exact ⟨hparse body v hv, fun ts hts => extractPubkey_of_tokens hts h.length_eq h.hex⟩

/-- A string without escapes. -/
def quoted (b : Bytes) : JsonToken := .string (b.map .plain)

/-- Bytes outside of strings. -/
def marks (s : String) : List JsonToken := (ascii s).map .other

/-- A key, what stands between it and its value, and a string. -/
def stringMember (key : String) (sep : String) (value : Bytes) : List JsonToken :=
  quoted (ascii key) :: (marks sep ++ [quoted value])

/-- The author of the events below, and somebody else. -/
def authorHex : Bytes := encodeHex (List.replicate 32 9)

def strangerHex : Bytes := encodeHex (List.replicate 32 7)

/-- The tokens of an event of the author, with further members in front and `sep` behind the key. -/
def postTokens (front : List JsonToken) (sep : String) : List JsonToken :=
  marks "\x7b" ++ front ++ stringMember "content" ":" [] ++ marks "," ++ [quoted (ascii "created_at")] ++
    marks ":1700000000," ++ stringMember "id" ":" (encodeHex (List.replicate 32 1)) ++ marks "," ++
    [quoted (ascii "kind")] ++ marks ":1," ++ stringMember "pubkey" sep authorHex ++ marks "," ++
    stringMember "sig" ":" (List.replicate 128 48) ++ marks "," ++ [quoted (ascii "tags")] ++ marks ":[]\x7d"

/-- The value of such a body. -/
def postedJson (front : List (Bytes × Json)) : Json :=
  .object (front ++ [(ascii "content", .string []), (ascii "created_at", .unsigned 1700000000),
    (ascii "id", .string (encodeHex (List.replicate 32 1))), (ascii "kind", .unsigned 1),
    (ascii "pubkey", .string authorHex), (ascii "sig", .string (List.replicate 128 48)),
    (ascii "tags", .array [])])

/-- A parser that knows one text. -/
def parseOne (ts : List JsonToken) (v : Json) (body : Bytes) : Except Err Json :=
  if body = spellTokens ts then .ok v else .error .badJson

theorem tokensOnly_parseOne {ts : List JsonToken} {v : Json} (hvalid : ∀ t ∈ ts, t.Valid) :
    TokensOnly (parseOne ts v) := by
  intro body w h
  rw [parseOne] at h
  split at h
  · rename_i hbody
    exact ⟨ts, hvalid, hbody.symm⟩
  · cases h

/-- The pubkey is found in an event that is printed without blanks. -/
theorem extractPubkeyFromRequest_iff_compact :
    PostedBy (parseOne (postTokens [] ":") (postedJson [])) (spellTokens (postTokens [] ":")) authorHex ∧
      extractPubkeyFromRequest "POST" (spellTokens (postTokens [] ":")) = authorHex := by
  have hvalid : ∀ t ∈ postTokens [] ":", t.Valid := by decide +kernel
  have hposted : PostedBy (parseOne (postTokens [] ":") (postedJson []))
      (spellTokens (postTokens [] ":")) authorHex :=
    ⟨⟨_, if_pos rfl, rfl, rfl⟩, by decide +kernel, by decide +kernel⟩
  refine ⟨hposted, ((extractPubkeyFromRequest_iff (tokensOnly_parseOne hvalid) hposted).2 _
    ⟨hvalid, rfl⟩).mpr ?_⟩
  exact ⟨authorHex.map .plain, by decide +kernel, List.prefix_rfl⟩

/-- The tokens of a member that quotes somebody else's profile. -/
def quotedProfile : List JsonToken :=
  quoted (ascii "about") :: marks ":\x7b" ++ stringMember "pubkey" ":" strangerHex ++ marks "\x7d,"

/-- A blank in front of the colon hides the pubkey, and in an event that quotes a profile the pubkey of
the profile is found. -/
theorem search_misses_author :
    (PostedBy (parseOne (postTokens [] " :") (postedJson [])) (spellTokens (postTokens [] " :")) authorHex ∧
      TokensOnly (parseOne (postTokens [] " :") (postedJson [])) ∧
      extractPubkeyFromRequest "POST" (spellTokens (postTokens [] " :")) = []) ∧
    (PostedBy (parseOne (postTokens quotedProfile ":")
        (postedJson [(ascii "about", .object [(ascii "pubkey", .string strangerHex)])]))
        (spellTokens (postTokens quotedProfile ":")) authorHex ∧
      TokensOnly (parseOne (postTokens quotedProfile ":")
        (postedJson [(ascii "about", .object [(ascii "pubkey", .string strangerHex)])])) ∧
      extractPubkeyFromRequest "POST" (spellTokens (postTokens quotedProfile ":")) = strangerHex) := by
  refine ⟨⟨⟨⟨_, if_pos rfl, rfl, rfl⟩, by decide +kernel, by decide +kernel⟩,
    tokensOnly_parseOne (by decide +kernel), by decide +kernel⟩,
    ⟨⟨⟨_, if_pos rfl, rfl, rfl⟩, by decide +kernel, by decide +kernel⟩,
    tokensOnly_parseOne (by decide +kernel), by decide +kernel⟩⟩

end Extraction

end Strfry
