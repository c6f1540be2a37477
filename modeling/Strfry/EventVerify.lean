import Strfry.Events

/-!
# Verification of submitted events

`parseAndVerifyEvent`: the conversion to the packed form, the checks on the timestamp, the id and
the signature, and the normalised text that is stored. SHA-256 and the signature scheme are
parameters (`Crypto`). An accepted event is one that `nostrJsonToPackedEvent` produces.
-/

set_option autoImplicit false

namespace Strfry

open Lib

/-- `SHA256`, `secp256k1_xonly_pubkey_parse` and `secp256k1_schnorrsig_verify`. -/
structure Crypto where
  sha256 : Bytes → Bytes
  xonlyPubkeyParse : Bytes → Bool
  schnorrsigVerify : Bytes → Bytes → Bytes → Bool

/-- The configuration items `events__*` that the checks read. -/
structure VerifyConfig extends EventsConfig where
  maxEventSize : Nat
  rejectEventsNewerThanSeconds : Nat
  rejectEventsOlderThanSeconds : Nat
  rejectEphemeralEventsOlderThanSeconds : Nat

/-- The defaults of `golpe.yaml`. -/
def VerifyConfig.default : VerifyConfig where
  toEventsConfig := EventsConfig.default
  maxEventSize := 65536
  rejectEventsNewerThanSeconds := 900
  rejectEventsOlderThanSeconds := 94608000
  rejectEphemeralEventsOlderThanSeconds := 60

/-- `nostrHash`. -/
def nostrHash (crypto : Crypto) (text : JsonText) (origJson : Json) : Except Err Bytes := do
  let pubkey ← origJson.member "pubkey"
  let createdAt ← origJson.member "created_at"
  let kind ← origJson.member "kind"
  let tags ← origJson.member "tags"
  let content ← origJson.member "content"
  .ok (crypto.sha256 (text.toString (.array [.signed 0, pubkey, createdAt, kind, tags, content])))

/-- `verifySig`. -/
def verifySig (crypto : Crypto) (sig hash pubkey : Bytes) : Except Err Bool :=
  if sig.length ≠ 64 ∨ hash.length ≠ 32 ∨ pubkey.length ≠ 32 then
    .error (.herr "verify sig: bad input size")
  else if !crypto.xonlyPubkeyParse pubkey then .error (.herr "verify sig: bad pubkey")
  else .ok (crypto.schnorrsigVerify sig hash pubkey)

/-- `verifyNostrEvent`. -/
def verifyNostrEvent (crypto : Crypto) (hex : HexCodec) (text : JsonText) (packed : PackedEvent)
    (origJson : Json) : Except Err Unit := do
  let hash ← nostrHash crypto text origJson
  if hash ≠ packed.id then .error (.herr "bad event id")
  else
    let sigHex ← jsonGetString (← origJson.member "sig") "event sig was not a string"
    let sig ← hex.fromHex sigHex
    let valid ← verifySig crypto sig packed.id packed.pubkey
    if valid then .ok () else .error (.herr "bad signature")

/-- `verifyNostrEventJsonSize`. -/
def verifyNostrEventJsonSize (cfg : VerifyConfig) (jsonStr : Bytes) : Except Err Unit :=
  if jsonStr.length > cfg.maxEventSize then
    .error (.herr ("event too large: " ++ toString jsonStr.length))
  else .ok ()

/-- The earliest accepted `created_at`; the difference wraps around. -/
def earliestCreatedAt (now age : Nat) : Nat :=
  let earliest := (now + 2 ^ 64 - age % 2 ^ 64) % 2 ^ 64
  if earliest > now then 0 else earliest

/-- The latest accepted `created_at`; the sum wraps around. -/
def latestCreatedAt (now ahead : Nat) : Nat :=
  let latest := (now + ahead) % 2 ^ 64
  if latest < now then maxU64 - 1 else latest

/-- `verifyEventTimestamp`. -/
def verifyEventTimestamp (cfg : VerifyConfig) (now : Nat) (packed : PackedEvent) :
    Except Err Unit :=
  let isEphemeral := packed.expiration == 1
  let age := if isEphemeral then cfg.rejectEphemeralEventsOlderThanSeconds
    else cfg.rejectEventsOlderThanSeconds
  if packed.createdAt < earliestCreatedAt now age then
    .error (.herr (if isEphemeral then "ephemeral event expired" else "created_at too early"))
  else if packed.createdAt > latestCreatedAt now cfg.rejectEventsNewerThanSeconds then
    .error (.herr "created_at too late")
  else if packed.expiration > 1 ∧ packed.expiration ≤ now then .error (.herr "event expired")
  else .ok ()

/-- The object of the known top-level fields, in the order in which they are printed. -/
def normalisedJson (origJson : Json) : Except Err Json := do
  let content ← origJson.member "content"
  let createdAt ← origJson.member "created_at"
  let id ← origJson.member "id"
  let kind ← origJson.member "kind"
  let pubkey ← origJson.member "pubkey"
  let sig ← origJson.member "sig"
  let tags ← origJson.member "tags"
  .ok (.object [(ascii "content", content), (ascii "created_at", createdAt), (ascii "id", id),
    (ascii "kind", kind), (ascii "pubkey", pubkey), (ascii "sig", sig), (ascii "tags", tags)])

/-- The libraries, settings and the clock that the checks depend on. -/
structure Verifier where
  crypto : Crypto
  hex : HexCodec
  text : JsonText
  cfg : VerifyConfig
  now : Nat

/-- A check that is made under the condition `c`. -/
def checkIf (c : Bool) (check : Except Err Unit) : Except Err Unit := if c then check else .ok ()

/-- `parseAndVerifyEvent`: the packed event and its normalised text. -/
def parseAndVerifyEvent (V : Verifier) (verifyMsg verifyTime : Bool) (origJson : Json) :
    Except Err (PackedEvent × Bytes) :=
  if !origJson.isObject then .error (.herr "event is not an object")
  else do
    let packed ← nostrJsonToPackedEvent V.hex V.cfg.toEventsConfig origJson
    checkIf verifyTime (verifyEventTimestamp V.cfg V.now packed)
    checkIf verifyMsg (verifyNostrEvent V.crypto V.hex V.text packed origJson)
    let json ← normalisedJson origJson
    let jsonStr := V.text.toString json
    checkIf verifyMsg (verifyNostrEventJsonSize V.cfg jsonStr)
    .ok (packed, jsonStr)

/-- An event that passes is one that the conversion produces. -/
theorem parseAndVerifyEvent_eq_ok {V : Verifier} {verifyMsg verifyTime : Bool} {origJson : Json}
    {packed : PackedEvent} {jsonStr : Bytes}
    (h : parseAndVerifyEvent V verifyMsg verifyTime origJson = .ok (packed, jsonStr)) :
    nostrJsonToPackedEvent V.hex V.cfg.toEventsConfig origJson = .ok packed := by
  rw [parseAndVerifyEvent] at h
  split at h
  · cases h
  · obtain ⟨p, hp, h⟩ := bind_eq_ok.1 h
    obtain ⟨_, -, h⟩ := bind_eq_ok.1 h
    obtain ⟨_, -, h⟩ := bind_eq_ok.1 h
    obtain ⟨_, -, h⟩ := bind_eq_ok.1 h
    obtain ⟨_, -, h⟩ := bind_eq_ok.1 h
    cases h
    exact hp

theorem fromJson_of_parseAndVerifyEvent {V : Verifier} {verifyMsg verifyTime : Bool}
    {origJson : Json} {packed : PackedEvent} {jsonStr : Bytes}
    (h : parseAndVerifyEvent V verifyMsg verifyTime origJson = .ok (packed, jsonStr)) :
    FromJson V.hex packed :=
  ⟨_, _, parseAndVerifyEvent_eq_ok h⟩

end Strfry
