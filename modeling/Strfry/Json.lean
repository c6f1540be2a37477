import Strfry.Lib.Bytes

/-!
# JSON values and hex

`Json` is `tao::json::value`: a number is signed, unsigned or a double, a string is a byte
string, and an object is its list of members. The parser keeps members in a `std::map`, so their
keys are distinct and in increasing order; nothing here relies on it.

`from_hex` comes with the framework and is a parameter: `HexCodec` states what the program relies
on, the lengths of what is decoded, and that a prefix `0x` is optional where it is allowed.
`hexCodec` is the usual decoder. The JSON parser and printer are a parameter too (`JsonText`);
`Json.print` is a printer to try the program with.
-/

set_option autoImplicit false

namespace Strfry

open Lib

/-- Exceptions: `herr` messages of the program, and those of the libraries it calls. -/
inductive Err
  | herr (msg : String)
  | badJson
  | badHex
  | outOfRange
  | invalidArgument
  deriving DecidableEq

/-- A sequence of two computations succeeds when both do. -/
theorem bind_eq_ok {α β : Type} {x : Except Err α} {f : α → Except Err β} {b : β} :
    (x >>= f) = .ok b ↔ ∃ a, x = .ok a ∧ f a = .ok b := by
  cases x with
  | error e => simp [bind, Except.bind]
  | ok a => simp [bind, Except.bind]

theorem map_eq_ok {α β : Type} {x : Except Err α} {f : α → β} {b : β} :
    x.map f = .ok b ↔ ∃ a, x = .ok a ∧ f a = b := by
  cases x with
  | error e => simp [Except.map]
  | ok a => simp [Except.map]

theorem toOption_eq_some {α : Type} {x : Except Err α} {a : α} :
    x.toOption = some a ↔ x = .ok a := by
  cases x with
  | error e => simp [Except.toOption]
  | ok b => simp [Except.toOption]

/-- `tao::json::value`. -/
inductive Json
  | null
  | boolean (b : Bool)
  | signed (i : Int)
  | unsigned (n : UInt64)
  | double (bits : UInt64)
  | string (s : Bytes)
  | array (xs : List Json)
  | object (kvs : List (Bytes × Json))

namespace Json

def isObject : Json → Bool
  | object _ => true
  | _ => false

def isArray : Json → Bool
  | array _ => true
  | _ => false

def isString : Json → Bool
  | string _ => true
  | _ => false

/-- `is_number`: signed, unsigned or double. -/
def isNumber : Json → Bool
  | signed _ => true
  | unsigned _ => true
  | double _ => true
  | _ => false

/-- `get_array`. -/
def getArray : Json → Except Err (List Json)
  | array xs => .ok xs
  | _ => .error .badJson

/-- `get_string`. -/
def getString : Json → Except Err Bytes
  | string s => .ok s
  | _ => .error .badJson

/-- `get_unsigned`. -/
def getUnsigned : Json → Except Err UInt64
  | unsigned n => .ok n
  | _ => .error .badJson

/-- `find`: the member under a key. -/
def find? (v : Json) (key : String) : Option Json :=
  match v with
  | object kvs => kvs.lookup (ascii key)
  | _ => none

/-- `at`: the member under a key, which must be there. -/
def member (v : Json) (key : String) : Except Err Json :=
  match v.find? key with
  | some m => .ok m
  | none => .error .badJson

/-- `get_object().erase` on an object; other values are unchanged. -/
def erase (v : Json) (key : String) : Json :=
  match v with
  | object kvs => object (kvs.filter fun kv => kv.1 != ascii key)
  | other => other

end Json

/-- `jsonGetString`. -/
def jsonGetString (v : Json) (errMsg : String) : Except Err Bytes :=
  match v with
  | .string s => .ok s
  | _ => .error (.herr errMsg)

/-- `jsonGetUnsigned`. -/
def jsonGetUnsigned (v : Json) (errMsg : String) : Except Err UInt64 :=
  match v with
  | .unsigned n => .ok n
  | _ => .error (.herr errMsg)

/-- `jsonGetArray`. -/
def jsonGetArray (v : Json) (errMsg : String) : Except Err (List Json) :=
  match v with
  | .array xs => .ok xs
  | _ => .error (.herr errMsg)

theorem jsonGetString_eq_ok {v : Json} {errMsg : String} {s : Bytes} :
    jsonGetString v errMsg = .ok s ↔ v = .string s := by
  cases v <;> simp [jsonGetString]

theorem jsonGetUnsigned_eq_ok {v : Json} {errMsg : String} {n : UInt64} :
    jsonGetUnsigned v errMsg = .ok n ↔ v = .unsigned n := by
  cases v <;> simp [jsonGetUnsigned]

theorem jsonGetArray_eq_ok {v : Json} {errMsg : String} {xs : List Json} :
    jsonGetArray v errMsg = .ok xs ↔ v = .array xs := by
  cases v <;> simp [jsonGetArray]

/-- The digit of a value below 16. -/
def hexChar (x : UInt8) : UInt8 := if x < 10 then x + 48 else x + 87

/-- `tao::json::from_string` and `tao::json::to_string`. -/
structure JsonText where
  fromString : Bytes → Except Err Json
  toString : Json → Bytes

namespace Json

/-- The decimal digits of a number. -/
def printNat (n : Nat) : Bytes := (Nat.toDigits 10 n).map fun c => UInt8.ofNat c.toNat

/-- What is written for a byte of a string. -/
def escape (c : UInt8) : Bytes :=
  if c = 34 ∨ c = 92 then [92, c]
  else if c = 8 then ascii "\\b"
  else if c = 9 then ascii "\\t"
  else if c = 10 then ascii "\\n"
  else if c = 12 then ascii "\\f"
  else if c = 13 then ascii "\\r"
  else if c < 32 ∨ c = 127 then ascii "\\u00" ++ [hexChar (c / 16), hexChar (c % 16)]
  else [c]

def printString (s : Bytes) : Bytes := 34 :: (s.flatMap escape ++ [34])

mutual

/-- Prints a value that has no double in it. -/
def print : Json → Bytes
  | null => ascii "null"
  | boolean b => ascii (if b then "true" else "false")
  | signed i => (if i < 0 then [45] else []) ++ printNat i.natAbs
  | unsigned n => printNat n.toNat
  | double _ => []
  | string s => printString s
  | array xs => 91 :: (printItems xs ++ [93])
  | object kvs => 123 :: (printMembers kvs ++ [125])

def printItems : List Json → Bytes
  | [] => []
  | [x] => x.print
  | x :: y :: xs => x.print ++ 44 :: printItems (y :: xs)

def printMembers : List (Bytes × Json) → Bytes
  | [] => []
  | [kv] => printMember kv
  | kv :: kv' :: kvs => printMember kv ++ 44 :: printMembers (kv' :: kvs)

def printMember : Bytes × Json → Bytes
  | (key, v) => printString key ++ 58 :: v.print

end

theorem noBreak_printNat (n : Nat) : (10 : UInt8) ∉ printNat n := by
  rw [printNat, List.mem_map]
  rintro ⟨c, hc, heq⟩
  have hdigit := Nat.isDigit_of_mem_toDigits (by decide) (by decide) hc
  rw [Char.isDigit, Bool.and_eq_true, decide_eq_true_eq, decide_eq_true_eq] at hdigit
  have hge : 48 ≤ c.toNat := UInt32.le_iff_toNat_le.mp hdigit.1
  have hle : c.toNat ≤ 57 := UInt32.le_iff_toNat_le.mp hdigit.2
  have hval := congrArg UInt8.toNat heq
  rw [UInt8.toNat_ofNat', Nat.mod_eq_of_lt (by omega)] at hval
  have hten : c.toNat = 10 := hval
  omega

theorem noBreak_escape : ∀ c : UInt8, (10 : UInt8) ∉ escape c := by decide +kernel

theorem noBreak_printString (s : Bytes) : (10 : UInt8) ∉ printString s := by
  simp only [printString, List.mem_cons, List.mem_append, List.mem_flatMap, List.not_mem_nil]
  rintro (h | ⟨c, -, h⟩ | h | h)
  · cases h
  · exact noBreak_escape c h
  · cases h
  · exact h

mutual

/-- Printed values have no line break in them. -/
theorem noBreak_print : ∀ v : Json, (10 : UInt8) ∉ v.print
  | .null => by rw [print]; decide
  | .boolean b => by cases b <;> (rw [print]; decide)
  | .signed i => by
    rw [print, List.mem_append]
    rintro (h | h)
    · split at h <;> simp at h
    · exact noBreak_printNat _ h
  | .unsigned n => by
    rw [print]
    exact noBreak_printNat _
  | .double _ => by
    rw [print]
    exact List.not_mem_nil
  | .string s => by
    rw [print]
    exact noBreak_printString s
  | .array xs => by
    have := noBreak_printItems xs
    rw [print]
    simp [this]
  | .object kvs => by
    have := noBreak_printMembers kvs
    rw [print]
    simp [this]

theorem noBreak_printItems : ∀ xs : List Json, (10 : UInt8) ∉ printItems xs
  | [] => by
    rw [printItems]
    exact List.not_mem_nil
  | [x] => by
    rw [printItems]
    exact noBreak_print x
  | x :: y :: xs => by
    have hx := noBreak_print x
    have hxs := noBreak_printItems (y :: xs)
    rw [printItems]
    simp [hx, hxs]

theorem noBreak_printMembers : ∀ kvs : List (Bytes × Json), (10 : UInt8) ∉ printMembers kvs
  | [] => by
    rw [printMembers]
    exact List.not_mem_nil
  | [kv] => by
    rw [printMembers]
    exact noBreak_printMember kv
  | kv :: kv' :: kvs => by
    have hkv := noBreak_printMember kv
    have hkvs := noBreak_printMembers (kv' :: kvs)
    rw [printMembers]
    simp [hkv, hkvs]

theorem noBreak_printMember : ∀ kv : Bytes × Json, (10 : UInt8) ∉ printMember kv
  | (key, v) => by
    have hkey := noBreak_printString key
    have hv := noBreak_print v
    rw [printMember]
    simp [hkey, hv]

end

end Json

/-- A hex decoder: `from_hex`, which takes a prefix `0x` or does without, and `from_hex` with the
second argument false, which takes none. -/
structure HexCodec where
  fromHexPrefixed : Bytes → Except Err Bytes
  fromHex : Bytes → Except Err Bytes
  length_fromHexPrefixed : ∀ s b, fromHexPrefixed s = .ok b → 2 * b.length ≤ s.length
  length_fromHex : ∀ s b, fromHex s = .ok b → s.length = 2 * b.length
  fromHexPrefixed_of_fromHex : ∀ s b, fromHex s = .ok b → fromHexPrefixed s = .ok b

/-- Value of a hex digit, in either case. -/
def hexDigit (c : UInt8) : Option UInt8 :=
  if 48 ≤ c ∧ c ≤ 57 then some (c - 48)
  else if 97 ≤ c ∧ c ≤ 102 then some (c - 87)
  else if 65 ≤ c ∧ c ≤ 70 then some (c - 55)
  else none

/-- Two digits a byte, high digit first. -/
def decodeHex : Bytes → Except Err Bytes
  | [] => .ok []
  | [_] => .error .badHex
  | a :: b :: rest =>
    match hexDigit a, hexDigit b with
    | some x, some y => (decodeHex rest).map fun t => (16 * x + y) :: t
    | _, _ => .error .badHex

theorem length_decodeHex (s b : Bytes) (h : decodeHex s = .ok b) : s.length = 2 * b.length := by
  induction s using decodeHex.induct generalizing b with
  | case1 =>
    cases h
    rfl
  | case2 => cases h
  | case3 a c rest x y hx hy ih =>
    simp only [decodeHex, hx, hy] at h
    cases ht : decodeHex rest with
    | error e => simp [ht, Except.map] at h
    | ok t =>
      rw [ht] at h
      cases h
      simp only [List.length_cons, ih t ht]
      omega
  | case4 a c rest hno =>
    simp only [decodeHex] at h
    cases h

/-- The same with an optional prefix `0x`. -/
def decodeHexPrefixed : Bytes → Except Err Bytes
  | 48 :: 120 :: rest => decodeHex rest
  | s => decodeHex s

theorem decodeHexPrefixed_cases (s : Bytes) :
    (∃ rest, s = 48 :: 120 :: rest ∧ decodeHexPrefixed s = decodeHex rest) ∨
      decodeHexPrefixed s = decodeHex s := by
  unfold decodeHexPrefixed
  split
  · exact Or.inl ⟨_, rfl, rfl⟩
  · exact Or.inr rfl

theorem length_decodeHexPrefixed (s b : Bytes) (h : decodeHexPrefixed s = .ok b) :
    2 * b.length ≤ s.length := by
  rcases decodeHexPrefixed_cases s with ⟨rest, rfl, heq⟩ | heq
  · rw [heq] at h
    have := length_decodeHex rest b h
    simp only [List.length_cons]
    omega
  · rw [heq] at h
    exact (length_decodeHex s b h).ge

theorem decodeHexPrefixed_of_decodeHex (s b : Bytes) (h : decodeHex s = .ok b) :
    decodeHexPrefixed s = .ok b := by
  rcases decodeHexPrefixed_cases s with ⟨rest, rfl, -⟩ | heq
  · -- the letter of the prefix is no digit
    have hx : hexDigit 120 = none := by decide
    simp only [decodeHex, hx] at h
    cases h
  · rw [heq, h]

/-- The usual decoder. -/
def hexCodec : HexCodec where
  fromHexPrefixed := decodeHexPrefixed
  fromHex := decodeHex
  length_fromHexPrefixed := length_decodeHexPrefixed
  length_fromHex := length_decodeHex
  fromHexPrefixed_of_fromHex := decodeHexPrefixed_of_decodeHex

/-- `to_hex`, in lower case. -/
def encodeHex (b : Bytes) : Bytes := b.flatMap fun x => [hexChar (x / 16), hexChar (x % 16)]

theorem hexDigit_hexChar : ∀ x : UInt8, hexDigit (hexChar (x / 16)) = some (x / 16) ∧
    hexDigit (hexChar (x % 16)) = some (x % 16) ∧ 16 * (x / 16) + x % 16 = x := by
  decide +kernel

theorem decodeHex_encodeHex (b : Bytes) : decodeHex (encodeHex b) = .ok b := by
  induction b with
  | nil => rfl
  | cons x b ih =>
    obtain ⟨hhigh, hlow, hx⟩ := hexDigit_hexChar x
    rw [encodeHex, List.flatMap_cons, List.cons_append, List.cons_append, List.nil_append,
      ← encodeHex, decodeHex, hhigh, hlow, ih]
    simp only [Except.map, hx]

end Strfry
