import Strfry.EventVerify
import Strfry.Store

/-!
# The ingester

`runIngester` takes client messages apart. An EVENT message is verified and answered at once, or
handed to the writer, which then owes the answer. A message of the HTTP server comes with a
promise, on which `set_value` is called in place of an OK reply. The other commands are passed on
to other threads and have no part here.
-/

set_option autoImplicit false

namespace Strfry

open Lib

/-- `what()` of an exception. For the exceptions of the libraries a name stands for their text. -/
def Err.what : Err → String
  | .herr msg => msg
  | .badJson => "json"
  | .badHex => "hex"
  | .outOfRange => "out_of_range"
  | .invalidArgument => "invalid_argument"

/-- `ProcessResult`. -/
structure ProcessResult where
  success : Bool
  message : String
  eventId : Bytes
  deriving DecidableEq

/-- What a thread does to answer a message: `set_value` on its promise, `sendOKResponse` or
`sendNoticeError`. -/
inductive Reply
  | setValue (result : ProcessResult)
  | okResponse (connId : Nat) (eventIdHex : Bytes) (written : Bool) (message : String)
  | noticeError (connId : Nat) (message : String)
  deriving DecidableEq

/-- `MsgIngester::ClientMessage`; `resultPromise` says whether there is a promise. `token` is a
history variable that names the message. -/
structure ClientMessage where
  connId : Nat
  ipAddr : Bytes
  payload : Bytes
  resultPromise : Bool := false
  token : Nat := 0

/-- `MsgIngester`. -/
inductive MsgIngester
  | clientMessage (msg : ClientMessage)
  | closeConn (connId : Nat)

/-- `MsgWriter::AddEvent`, with the token of the message that it comes from. -/
structure AddEvent where
  connId : Nat
  ipAddr : Bytes
  packed : PackedEvent
  jsonStr : Bytes
  resultPromise : Bool
  token : Nat

/-- `MsgWriter`. -/
inductive MsgWriter
  | addEvent (msg : AddEvent)
  | closeConn (connId : Nat)

/-- The settings that the ingester reads. The environment variable has already taken the place of
the list of the configuration, if it is set. -/
structure IngesterConfig where
  whitelistEnabled : Bool := false
  whitelistPubkeys : Bytes := []
  negentropyEnabled : Bool := true

/-! ## EVENT messages -/

/-- The characters that are trimmed from an entry of the whitelist. -/
def isTrimmed (c : UInt8) : Bool := c == 32 || c == 9 || c == 13 || c == 10

/-- An entry of the whitelist without the white space around it. -/
def trim (s : Bytes) : Bytes :=
  ((s.dropWhile isTrimmed).reverse.dropWhile isTrimmed).reverse

/-- The check of the whitelist: why the event is blocked, if it is. -/
def whitelistRefusal (cfg : IngesterConfig) (packed : PackedEvent) : Option String :=
  if cfg.whitelistEnabled then
    if cfg.whitelistPubkeys = [] then some "blocked: whitelist enabled but empty"
    else if (cfg.whitelistPubkeys.splitOn 44).any fun s => encodeHex packed.pubkey == trim s then
      none
    else some "blocked: pubkey not in whitelist"
  else none

/-- The answer of the ingester: on the promise, or as an OK reply to a WebSocket. -/
def replyTo (msg : ClientMessage) (result : ProcessResult) (eventIdHex : Bytes) : List Reply :=
  if msg.resultPromise then [.setValue result]
  else if msg.connId ≠ 0 then
    [.okResponse msg.connId eventIdHex result.success result.message]
  else []

/-- What a message leads to: replies, and messages for the writer. -/
abbrev Handled := List Reply × List AddEvent

/-- `ingesterProcessEvent`. `existing` is the lookup of an id in the transaction of the thread. -/
def ingesterProcessEvent (V : Verifier) (cfg : IngesterConfig) (existing : Bytes → Except Err Bool)
    (msg : ClientMessage) (origJson : Json) : Except Err Handled :=
  match parseAndVerifyEvent V true true origJson with
  | .error e => .ok (replyTo msg ⟨false, "invalid: " ++ e.what, []⟩ (ascii "?"), [])
  | .ok (packed, jsonStr) =>
    let eventIdHex := encodeHex packed.id
    match whitelistRefusal cfg packed with
    | some reason => .ok (replyTo msg ⟨false, reason, eventIdHex⟩ eventIdHex, [])
    | none =>
      match existing packed.id with
      | .error e => .error e
      | .ok true =>
        .ok (replyTo msg ⟨true, "duplicate: have this event", eventIdHex⟩ eventIdHex, [])
      | .ok false =>
        .ok ([], [⟨msg.connId, msg.ipAddr, packed, jsonStr, msg.resultPromise, msg.token⟩])

/-- The handler around `ingesterProcessEvent`. -/
def eventError (msg : ClientMessage) (e : Err) : List Reply :=
  if msg.resultPromise then [.setValue ⟨false, "error: " ++ e.what, ascii "?"⟩]
  else if msg.connId ≠ 0 then
    [.okResponse msg.connId (ascii "?") false ("invalid: " ++ e.what)]
  else []

/-- The EVENT branch of `runIngester`. -/
def ingesterEvent (V : Verifier) (cfg : IngesterConfig) (existing : Bytes → Except Err Bool)
    (msg : ClientMessage) (origJson : Json) : Handled :=
  match ingesterProcessEvent V cfg existing msg origJson with
  | .error e => (eventError msg e, [])
  | .ok handled => handled

/-! ## Client messages -/

/-- The commands whose handling is left to other threads. -/
def isForwarded (cmd : Bytes) : Bool :=
  cmd == ascii "AUTH" || cmd == ascii "REQ" || cmd == ascii "CLOSE"

/-- The dispatch on the command of a message. -/
def ingesterCommand (V : Verifier) (cfg : IngesterConfig) (existing : Bytes → Except Err Bool)
    (msg : ClientMessage) : List Json → Except Err Handled
  | first :: second :: _ => do
    let cmd ← jsonGetString first "first element not a command"
    if cmd = ascii "EVENT" then .ok (ingesterEvent V cfg existing msg second)
    else if isForwarded cmd then .ok ([], [])
    else if (ascii "NEG-").isPrefixOf cmd then
      if cfg.negentropyEnabled then .ok ([], []) else .error (.herr "negentropy disabled")
    else .error (.herr "unknown cmd")
  | _ => .error (.herr "too few array elements")

/-- The body of the `try` around a client message. -/
def ingesterPayload (V : Verifier) (cfg : IngesterConfig) (existing : Bytes → Except Err Bool)
    (msg : ClientMessage) : Except Err Handled :=
  if msg.payload.head? = some 91 then do
    let payload ← V.text.fromString msg.payload
    let arr ← jsonGetArray payload "message is not an array"
    ingesterCommand V cfg existing msg arr
  else if msg.payload = [10] then .ok ([], [])
  else .error (.herr "unparseable message")

/-- A client message in `runIngester`. -/
def ingesterClientMessage (V : Verifier) (cfg : IngesterConfig)
    (existing : Bytes → Except Err Bool) (msg : ClientMessage) : Handled :=
  match ingesterPayload V cfg existing msg with
  | .ok handled => handled
  | .error e =>
    if msg.resultPromise then ([.setValue ⟨false, "bad msg: " ++ e.what, ascii "?"⟩], [])
    else ([.noticeError msg.connId ("bad msg: " ++ e.what)], [])

/-- The message is `["EVENT", event, ...]`. -/
def IsEvent (text : JsonText) (msg : ClientMessage) (event : Json) : Prop :=
  msg.payload.head? = some 91 ∧
    ∃ rest, text.fromString msg.payload = .ok (.array (.string (ascii "EVENT") :: event :: rest))

theorem ingesterClientMessage_event {V : Verifier} {msg : ClientMessage} {event : Json}
    (h : IsEvent V.text msg event) (cfg : IngesterConfig) (existing : Bytes → Except Err Bool) :
    ingesterClientMessage V cfg existing msg = ingesterEvent V cfg existing msg event := by
  obtain ⟨hhead, rest, hparse⟩ := h
  rw [ingesterClientMessage, ingesterPayload, if_pos hhead, hparse]
  rfl

end Strfry
