import Strfry.Lib.Pieces
import Strfry.Writer

/-!
# The dialogue with a write-policy plugin

`acceptEvent` writes a request to the plugin and reads what the plugin writes until it has the answer.
`fgets` reads into a buffer of 8192 bytes, so a line that is longer arrives in pieces, and each piece is
taken for a line: what does not parse as JSON is skipped, and what parses is taken for the answer.

An `Exchange` is a call with a plugin that keeps to its side: the answer is one line, with lines before it
that are not JSON. `staysInStep_iff` says when the dialogue stays in step. A call that waits for output
that does not come has no outcome. The texts of exceptions are only logged; what they quote is left out.
-/

set_option autoImplicit false

namespace Strfry

open Lib

/-! ## The plugin and its pipe -/

/-- `EventSourceType`, as plugins are told of it. -/
inductive PluginSourceType
  | none
  | ip4
  | ip6
  | import_
  | stream
  | sync
  | stored
  deriving DecidableEq

/-- `eventSourceTypeToStr`. -/
def PluginSourceType.toStr : PluginSourceType → String
  | ip4 => "IP4"
  | ip6 => "IP6"
  | import_ => "Import"
  | stream => "Stream"
  | sync => "Sync"
  | _ => "?"

/-- What `acceptEvent` is called with. -/
structure PluginCall where
  pluginCmd : Bytes
  evJson : Json
  sourceType : PluginSourceType
  sourceInfo : Bytes

/-- What happens around a call: the time, the modification time of the script (none if `stat` fails),
whether the plugin can be spawned and the request written to it, what the plugin writes when it has the
request, and whether it closes the pipe then. -/
structure PluginTurn where
  receivedAt : Int
  modTime : Option Nat
  spawned : Bool
  written : Bool
  output : Bytes
  closed : Bool

/-- `RunningPlugin`, with what the plugin has written and nobody has read. -/
structure RunningPlugin where
  currPluginCmd : Bytes
  lastModTime : Option Nat
  unread : Bytes
  closed : Bool

/-- `sizeof(buf)`. -/
def pluginBufSize : Nat := 8192

/-- The pieces in which `fgets` delivers a stream. -/
abbrev fgetsPieces (s : Bytes) : List Bytes := pieces 10 (pluginBufSize - 1) s

/-- The text in a buffer, which ends at the first zero byte. -/
def cString (buf : Bytes) : Bytes := buf.takeWhile fun c => c != 0

namespace PluginEventSifter

/-- The command is a path when there is no space in it. -/
def isPath (pluginCmd : Bytes) : Bool := !pluginCmd.contains 32

/-- The plugin that is still running: it is dropped when the command or the script has changed. -/
def keepRunning (running : Option RunningPlugin) (pluginCmd : Bytes) (modTime : Option Nat) :
    Except Err (Option RunningPlugin) :=
  match running with
  | none => .ok none
  | some p =>
    if pluginCmd ≠ p.currPluginCmd then .ok none
    else if isPath pluginCmd then
      match modTime with
      | none => .error (.herr "couldn't stat plugin")
      | some t => .ok (if some t ≠ p.lastModTime then none else some p)
    else .ok (some p)

/-- `setupPlugin`. -/
def setupPlugin (pluginCmd : Bytes) (turn : PluginTurn) : Except Err RunningPlugin :=
  if !turn.spawned then .error (.herr "posix_spawn failed to invoke")
  else if isPath pluginCmd then
    match turn.modTime with
    | none => .error (.herr "couldn't stat plugin")
    | some t => .ok ⟨pluginCmd, some t, [], false⟩
  else .ok ⟨pluginCmd, none, [], false⟩

/-- The request to the plugin. -/
def makeRequest (inetNtop : Bytes → Bytes) (call : PluginCall) (receivedAt : Int) : Except Err Json := do
  let info ← if call.sourceType = .ip4 ∨ call.sourceType = .ip6 then renderIP inetNtop call.sourceInfo
    else .ok call.sourceInfo
  .ok (.object [(ascii "event", call.evJson), (ascii "receivedAt", .signed receivedAt),
    (ascii "sourceInfo", .string info), (ascii "sourceType", .string (ascii call.sourceType.toStr)),
    (ascii "type", .string (ascii "new"))])

/-- What the plugin does with a request. -/
def deliver (p : RunningPlugin) (turn : PluginTurn) : RunningPlugin :=
  { p with
    unread := p.unread ++ if p.closed then [] else turn.output
    closed := p.closed || turn.closed }

/-- The loop over `fgets`: the response, and what is left to read. It waits when there is no whole piece
and the plugin has not closed the pipe. -/
def readResponse (text : JsonText) (closed : Bool) (unread : Bytes) : Option (Except Err (Json × Bytes)) :=
  let buf := (takeLine 10 (pluginBufSize - 1) unread).1
  if ¬ Whole 10 (pluginBufSize - 1) buf ∧ closed = false then none
  else if unread = [] then some (.error (.herr "pipe to plugin was closed (plugin crashed?)"))
  else
    match text.fromString (cString buf) with
    | .error _ => readResponse text closed (takeLine 10 (pluginBufSize - 1) unread).2
    | .ok response => some (.ok (response, (takeLine 10 (pluginBufSize - 1) unread).2))
termination_by unread.length
decreasing_by
  rename_i hunread
  exact length_takeLine_rest (by decide) hunread

/-- A member that is a text. -/
def memberString (v : Json) (key : String) : Except Err Bytes := v.member key >>= Json.getString

/-- `optional("msg")`, or the empty text. -/
def optionalMsg (response : Json) : Except Err Bytes :=
  match response.find? "msg" with
  | none => .ok []
  | some msg => msg.getString

/-- The name of an action. -/
def actionText : PluginEventSifterResult → String
  | .accept => "accept"
  | .reject => "reject"
  | .shadowReject => "shadowReject"

/-- The result for an action. -/
def parseAction (action : Bytes) : Except Err PluginEventSifterResult :=
  if action = ascii "accept" then .ok .accept
  else if action = ascii "reject" then .ok .reject
  else if action = ascii "shadowReject" then .ok .shadowReject
  else .error (.herr "unknown action")

/-- What `acceptEvent` makes of a response: it must have the id of the event. -/
def judge (evJson response : Json) : Except Err (PluginEventSifterResult × Bytes) := do
  let responseId ← memberString response "id"
  let eventId ← memberString evJson "id"
  if responseId ≠ eventId then .error (.herr "id mismatch")
  else do
    let okMsg ← optionalMsg response
    let action ← memberString response "action"
    let result ← parseAction action
    .ok (result, okMsg)

section

variable (text : JsonText) (inetNtop : Bytes → Bytes)

/-- The plugin for the call: the one that is running, or a new one. -/
def startPlugin (running : Option RunningPlugin) (pluginCmd : Bytes) (turn : PluginTurn) :
    Except Err RunningPlugin :=
  match keepRunning running pluginCmd turn.modTime with
  | .error e => .error e
  | .ok (some p) => .ok p
  | .ok none => setupPlugin pluginCmd turn

/-- The request is made and written to the plugin. -/
def sendRequest (running : Option RunningPlugin) (call : PluginCall) (turn : PluginTurn) :
    Except Err RunningPlugin := do
  let p ← startPlugin running call.pluginCmd turn
  let _ ← makeRequest inetNtop call turn.receivedAt
  if turn.written then .ok (deliver p turn) else .error (.herr "error writing to plugin")

/-- The part of `acceptEvent` in which exceptions are caught. -/
def ask (running : Option RunningPlugin) (call : PluginCall) (turn : PluginTurn) :
    Option (Except Err (RunningPlugin × PluginEventSifterResult × Bytes)) :=
  match sendRequest inetNtop running call turn with
  | .error e => some (.error e)
  | .ok p =>
    (readResponse text p.closed p.unread).map fun r =>
      match r with
      | .error e => .error e
      | .ok (response, unread) =>
        (judge call.evJson response).map fun answer => ({ p with unread := unread }, answer.1, answer.2)

/-- `acceptEvent`: the plugin that is running afterwards, the result, and `okMsg`. -/
def acceptEvent (running : Option RunningPlugin) (call : PluginCall) (turn : PluginTurn) :
    Option (Option RunningPlugin × PluginEventSifterResult × Bytes) :=
  if call.pluginCmd = [] then some (none, .accept, [])
  else
    (ask text inetNtop running call turn).map fun r =>
      match r with
      | .error _ => (none, .reject, ascii "error: internal error")
      | .ok (p, result, okMsg) => (some p, result, okMsg)

end

/-! ## A plugin that answers -/

/-- A response to the event: it has the id of the event and an action, and if it has a message that is a
text. -/
structure AnswersWith (evJson response : Json) (result : PluginEventSifterResult) : Prop where
  id : ∃ id, evJson.member "id" = .ok (.string id) ∧ response.member "id" = .ok (.string id)
  action : response.member "action" = .ok (.string (ascii (actionText result)))
  msg : ∀ v, response.find? "msg" = some v → ∃ s, v = .string s

theorem memberString_eq_ok {v : Json} {key : String} {s : Bytes} :
    memberString v key = .ok s ↔ v.member key = .ok (.string s) := by
  rw [memberString]
  cases v.member key with
  | error e => simp [bind, Except.bind]
  | ok m =>
    cases m with
    | string t => simp [bind, Except.bind, Json.getString]
    | _ => simp [bind, Except.bind, Json.getString]

theorem parseAction_eq_ok {action : Bytes} {result : PluginEventSifterResult} :
    parseAction action = .ok result ↔ action = ascii (actionText result) := by
  constructor
  · intro h
    rw [parseAction] at h
    split_ifs at h with haccept hreject hshadow
    · cases h
      exact haccept
    · cases h
      exact hreject
    · cases h
      exact hshadow
  · rintro rfl
    cases result with
    | accept => rfl
    | reject => rfl
    | shadowReject => rfl

theorem optionalMsg_ok_iff {response : Json} :
    (∃ okMsg, optionalMsg response = .ok okMsg) ↔
      ∀ v, response.find? "msg" = some v → ∃ s, v = .string s := by
  rw [optionalMsg]
  cases response.find? "msg" with
  | none => simp
  | some v =>
    cases v with
    | string s => simp [Json.getString]
    | _ => simp [Json.getString]

/-- What is taken for an answer is one. -/
theorem judge_eq_ok_iff {evJson response : Json} {result : PluginEventSifterResult} :
    (∃ okMsg, judge evJson response = .ok (result, okMsg)) ↔ AnswersWith evJson response result := by
  constructor
  · rintro ⟨okMsg, h⟩
    obtain ⟨responseId, hresponseId, h⟩ := bind_eq_ok.mp h
    obtain ⟨eventId, heventId, h⟩ := bind_eq_ok.mp h
    split at h
    · cases h
    · rename_i hid
      obtain ⟨msg, hmsg, h⟩ := bind_eq_ok.mp h
      obtain ⟨action, haction, h⟩ := bind_eq_ok.mp h
      obtain ⟨result', hresult, h⟩ := bind_eq_ok.mp h
      cases h
      rw [memberString_eq_ok] at hresponseId heventId haction
      rw [not_not.mp hid] at hresponseId
      rw [parseAction_eq_ok.mp hresult] at haction
      exact ⟨⟨eventId, heventId, hresponseId⟩, haction, optionalMsg_ok_iff.mp ⟨_, hmsg⟩⟩
  · rintro ⟨⟨id, hevent, hresponse⟩, haction, hmsg⟩
    obtain ⟨okMsg, hokMsg⟩ := optionalMsg_ok_iff.mpr hmsg
    refine ⟨okMsg, ?_⟩
    rw [judge, memberString_eq_ok.mpr hresponse, memberString_eq_ok.mpr hevent]
    simp only [bind, Except.bind, ne_eq, not_true_eq_false, if_false, hokMsg,
      memberString_eq_ok.mpr haction, parseAction_eq_ok.mpr rfl]

/-- A call with a plugin that answers it: the plugin is there and is sent the request, and it writes lines
that are not JSON and then a line with a response to the event. -/
structure Exchange (text : JsonText) (inetNtop : Bytes → Bytes) where
  call : PluginCall
  turn : PluginTurn
  diagnostics : List Bytes
  line : Bytes
  response : Json
  result : PluginEventSifterResult
  hasCommand : call.pluginCmd ≠ []
  isThere : isPath call.pluginCmd = true → ∃ t, turn.modTime = some t
  starts : turn.spawned = true
  makesRequest : ∃ request, makeRequest inetNtop call turn.receivedAt = .ok request
  takesRequest : turn.written = true
  staysOpen : turn.closed = false
  output_eq : turn.output = (diagnostics.flatMap fun d => d ++ [10]) ++ (line ++ [10])
  lines : 10 ∉ line ∧ ∀ d ∈ diagnostics, 10 ∉ d
  notJson : ∀ d ∈ diagnostics, ∃ e, text.fromString (d ++ [10]) = .error e
  parses : text.fromString (line ++ [10]) = .ok response
  answers : AnswersWith call.evJson response result

section Dialogue

variable {text : JsonText} {inetNtop : Bytes → Bytes}

/-- A piece that the loop over `fgets` skips. -/
def Skipped (text : JsonText) (piece : Bytes) : Prop := ∃ e, text.fromString (cString piece) = .error e

/-- The pieces of the diagnostic lines are skipped, and so are those of the answer up to the last one, which
by itself is a response with the same result. -/
structure Exchange.Framed (x : Exchange text inetNtop) : Prop where
  diagnostics : ∀ d ∈ x.diagnostics, ∀ piece ∈ fgetsPieces (d ++ [10]), Skipped text piece
  line : ∃ init last v, fgetsPieces (x.line ++ [10]) = init ++ [last] ∧
    (∀ piece ∈ init, Skipped text piece) ∧ text.fromString (cString last) = .ok v ∧
    AnswersWith x.call.evJson v x.result

/-- Each call of a sequence returns the result of its answer, and has then read all that the plugin has
written. -/
def StaysInStep (text : JsonText) (inetNtop : Bytes → Bytes) :
    Option RunningPlugin → List (Exchange text inetNtop) → Prop
  | _, [] => True
  | running, x :: xs => ∃ p okMsg,
      acceptEvent text inetNtop running x.call x.turn = some (some p, x.result, okMsg) ∧
        p.unread = [] ∧ StaysInStep text inetNtop (some p) xs

/-! ## The loop over fgets -/

theorem pluginBufSize_ne_zero : pluginBufSize - 1 ≠ 0 := by decide

/-- A stream whose pieces are all skipped is read to its end, and the call waits for more. -/
theorem readResponse_waits {s : Bytes} (h : Ended 10 s) (hskip : ∀ piece ∈ fgetsPieces s, Skipped text piece) :
    readResponse text false s = none := by
  induction hn : s.length using Nat.strong_induction_on generalizing s with
  | _ n ih =>
    subst hn
    rw [readResponse]
    rcases h with rfl | hlast
    · rfl
    · have hs : s ≠ [] := by
        rintro rfl
        cases hlast
      obtain ⟨hwhole, hended⟩ := takeLine_ended (n := pluginBufSize - 1) hlast
      rw [fgetsPieces, pieces_of_ne_nil pluginBufSize_ne_zero hs, List.forall_mem_cons] at hskip
      obtain ⟨e, he⟩ := hskip.1
      simp only [hwhole, not_true_eq_false, false_and, if_false, hs, he]
      exact ih _ (length_takeLine_rest pluginBufSize_ne_zero hs) hended hskip.2 rfl

/-- The response is read from the last piece of a stream exactly if the others are skipped. -/
theorem readResponse_eq_iff {s : Bytes} (h : Ended 10 s) {v : Json} :
    readResponse text false s = some (.ok (v, [])) ↔
      ∃ init last, fgetsPieces s = init ++ [last] ∧ (∀ piece ∈ init, Skipped text piece) ∧
        text.fromString (cString last) = .ok v := by
  induction hn : s.length using Nat.strong_induction_on generalizing s with
  | _ n ih =>
    subst hn
    rw [readResponse]
    rcases h with rfl | hlast
    · rw [fgetsPieces, pieces_nil]
      constructor
      · nofun
      · rintro ⟨init, last, heq, -⟩
        exact absurd heq.symm (List.append_ne_nil_of_right_ne_nil init (List.cons_ne_nil _ _))
    · have hs : s ≠ [] := by
        rintro rfl
        cases hlast
      obtain ⟨hwhole, hended⟩ := takeLine_ended (n := pluginBufSize - 1) hlast
      have hih := @ih _ (length_takeLine_rest pluginBufSize_ne_zero hs) _ hended rfl
      rw [fgetsPieces, pieces_of_ne_nil pluginBufSize_ne_zero hs]
      simp only [hwhole, not_true_eq_false, false_and, if_false, hs]
      cases hparse : text.fromString (cString (takeLine 10 (pluginBufSize - 1) s).1) with
      | error e =>
        simp only [hih]
        constructor
        · rintro ⟨init, last, heq, hinit, hv⟩
          refine ⟨_ :: init, last, congrArg _ heq, ?_, hv⟩
          exact List.forall_mem_cons.mpr ⟨⟨e, hparse⟩, hinit⟩
        · rintro ⟨init, last, heq, hinit, hv⟩
          cases init with
          | nil =>
            rw [← (List.cons.inj heq).1, hparse] at hv
            cases hv
          | cons piece init =>
            exact ⟨init, last, (List.cons.inj heq).2, (List.forall_mem_cons.mp hinit).2, hv⟩
      | ok response =>
        constructor
        · intro heq
          obtain ⟨rfl, hrest⟩ := Prod.mk.inj (Except.ok.inj (Option.some.inj heq))
          refine ⟨[], _, ?_, nofun, hparse⟩
          rw [hrest, pieces_nil]
          rfl
        · rintro ⟨init, last, heq, hinit, hv⟩
          cases init with
          | nil =>
            obtain ⟨rfl, hrest⟩ := List.cons.inj heq
            rw [hparse] at hv
            cases hv
            have hnil : (takeLine 10 (pluginBufSize - 1) s).2 = [] := by
              by_contra hne
              exact pieces_ne_nil pluginBufSize_ne_zero hne hrest
            rw [hnil]
          | cons piece init =>
            obtain ⟨e, he⟩ := (List.forall_mem_cons.mp hinit).1
            rw [← (List.cons.inj heq).1, hparse] at he
            cases he

/-! ## One call -/

/-- Nothing that the plugin has written is unread, and its pipe is open. -/
def InSync (running : Option RunningPlugin) : Prop := ∀ p, running = some p → p.unread = [] ∧ p.closed = false

theorem inSync_none : InSync none := nofun

variable {running : Option RunningPlugin}

/-- The plugin that gets the request has nothing unread. -/
theorem startPlugin_of_exchange (x : Exchange text inetNtop) (h : InSync running) :
    ∃ p : RunningPlugin, startPlugin running x.call.pluginCmd x.turn = .ok p ∧
      p.unread = [] ∧ p.closed = false := by
  have hsetup : ∃ p : RunningPlugin, setupPlugin x.call.pluginCmd x.turn = .ok p ∧
      p.unread = [] ∧ p.closed = false := by
    rw [setupPlugin, x.starts]
    by_cases hpath : isPath x.call.pluginCmd = true
    · obtain ⟨t, ht⟩ := x.isThere hpath
      exact ⟨⟨x.call.pluginCmd, some t, [], false⟩, by rw [if_pos hpath, ht]; rfl, rfl, rfl⟩
    · exact ⟨⟨x.call.pluginCmd, none, [], false⟩, by rw [if_neg hpath]; rfl, rfl, rfl⟩
  rw [startPlugin]
  cases running with
  | none => exact hsetup
  | some p =>
    have hkeep : keepRunning (some p) x.call.pluginCmd x.turn.modTime = .ok none ∨
        keepRunning (some p) x.call.pluginCmd x.turn.modTime = .ok (some p) := by
      simp only [keepRunning]
      by_cases hpath : isPath x.call.pluginCmd = true
      · obtain ⟨t, ht⟩ := x.isThere hpath
        simp only [ht]
        split_ifs
        all_goals simp
      · split_ifs
        all_goals simp
    rcases hkeep with hkeep | hkeep
    · simp only [hkeep]
      exact hsetup
    · simp only [hkeep]
      exact ⟨p, rfl, h p rfl⟩

/-- A call reads the response from what the plugin writes for this call. -/
theorem ask_of_exchange (x : Exchange text inetNtop) (h : InSync running) :
    ∃ p : RunningPlugin, p.closed = false ∧ ask text inetNtop running x.call x.turn =
      (readResponse text false x.turn.output).map fun r =>
        match r with
        | .error e => .error e
        | .ok (response, unread) => (judge x.call.evJson response).map fun answer =>
          ({ p with unread := unread }, answer.1, answer.2) := by
  obtain ⟨p, hstart, hunread, hclosed⟩ := startPlugin_of_exchange x h
  obtain ⟨request, hrequest⟩ := x.makesRequest
  have hsend : sendRequest inetNtop running x.call x.turn = .ok (deliver p x.turn) := by
    rw [sendRequest, hstart, hrequest]
    simp only [bind, Except.bind, x.takesRequest, if_true]
  have hdeliver : (deliver p x.turn).unread = x.turn.output ∧ (deliver p x.turn).closed = false := by
    rw [deliver]
    simp only [hunread, hclosed, x.staysOpen]
    exact ⟨rfl, rfl⟩
  refine ⟨deliver p x.turn, hdeliver.2, ?_⟩
  rw [ask, hsend]
  simp only [hdeliver]

theorem fgetsPieces_diagnostics (ds : List Bytes) (t : Bytes) :
    fgetsPieces ((ds.flatMap fun d => d ++ [(10 : UInt8)]) ++ t) =
      (ds.flatMap fun d => fgetsPieces (d ++ [10])) ++ fgetsPieces t := by
  induction ds with
  | nil => rfl
  | cons d ds ih =>
    have hd : Ended 10 (d ++ [(10 : UInt8)]) := .inr List.getLast?_concat
    rw [List.flatMap_cons, List.append_assoc, fgetsPieces, pieces_append pluginBufSize_ne_zero hd,
      ← fgetsPieces, ← fgetsPieces, ih, List.flatMap_cons, List.append_assoc]

/-- The exchange is framed exactly if a response with its result is read from the last piece of the output. -/
theorem framed_iff (x : Exchange text inetNtop) :
    x.Framed ↔ ∃ v, readResponse text false x.turn.output = some (.ok (v, [])) ∧
      AnswersWith x.call.evJson v x.result := by
  have hended : Ended 10 x.turn.output := by
    rw [x.output_eq, ← List.append_assoc]
    exact .inr List.getLast?_concat
  have hpieces : fgetsPieces x.turn.output =
      (x.diagnostics.flatMap fun d => fgetsPieces (d ++ [10])) ++ fgetsPieces (x.line ++ [10]) := by
    rw [x.output_eq, fgetsPieces_diagnostics]
  constructor
  · rintro ⟨hdiag, init, last, v, hline, hinit, hv, hanswers⟩
    refine ⟨v, (readResponse_eq_iff hended).mpr
      ⟨(x.diagnostics.flatMap fun d => fgetsPieces (d ++ [10])) ++ init, last, ?_, ?_, hv⟩, hanswers⟩
    · rw [hpieces, hline, ← List.append_assoc]
    · intro piece hpiece
      rcases List.mem_append.mp hpiece with hpiece | hpiece
      · obtain ⟨d, hd, hmem⟩ := List.mem_flatMap.mp hpiece
        exact hdiag d hd piece hmem
      · exact hinit piece hpiece
  · rintro ⟨v, hread, hanswers⟩
    obtain ⟨init, last, heq, hinit, hv⟩ := (readResponse_eq_iff hended).mp hread
    have hne : fgetsPieces (x.line ++ [10]) ≠ [] :=
      pieces_ne_nil pluginBufSize_ne_zero (List.append_ne_nil_of_right_ne_nil _ (List.cons_ne_nil _ _))
    -- the last piece of the output is the last piece of the answer
    rw [hpieces, ← List.dropLast_append_getLast hne, ← List.append_assoc] at heq
    obtain ⟨hfront, hlast⟩ := List.append_inj' heq rfl
    refine ⟨?_, (fgetsPieces (x.line ++ [10])).dropLast, last, v, ?_, ?_, hv, hanswers⟩
    · intro d hd piece hpiece
      apply hinit
      rw [← hfront]
      exact List.mem_append_left _ (List.mem_flatMap.mpr ⟨d, hd, hpiece⟩)
    · rw [← (List.cons.inj hlast).1, List.dropLast_append_getLast]
    · intro piece hpiece
      apply hinit
      rw [← hfront]
      exact List.mem_append_right _ hpiece

/-- A call that returns with the plugin running has read a response that was judged. -/
theorem acceptEvent_eq_some_iff (x : Exchange text inetNtop) (h : InSync running) :
    ∃ q : RunningPlugin, q.closed = false ∧ ∀ p result okMsg,
      acceptEvent text inetNtop running x.call x.turn = some (some p, result, okMsg) ↔
        ∃ response unread, readResponse text false x.turn.output = some (.ok (response, unread)) ∧
          judge x.call.evJson response = .ok (result, okMsg) ∧ { q with unread := unread } = p := by
  obtain ⟨q, hclosed, hask⟩ := ask_of_exchange x h
  refine ⟨q, hclosed, fun p result okMsg => ?_⟩
  rw [acceptEvent, if_neg x.hasCommand, hask]
  constructor
  · intro haccept
    cases hread : readResponse text false x.turn.output with
    | none =>
      rw [hread] at haccept
      cases haccept
    | some r =>
      rw [hread] at haccept
      cases r with
      | error e => cases haccept
      | ok r =>
        obtain ⟨response, unread⟩ := r
        cases hjudge : judge x.call.evJson response with
        | error e =>
          simp only [Option.map_some, hjudge, Except.map] at haccept
          cases haccept
        | ok answer =>
          simp only [Option.map_some, hjudge, Except.map] at haccept
          cases haccept
          exact ⟨response, unread, rfl, hjudge, rfl⟩
  · rintro ⟨response, unread, hread, hjudge, rfl⟩
    simp only [hread, Option.map_some, hjudge, Except.map]

/-- A call in step: it returns the result of its answer and leaves nothing unread. -/
theorem acceptEvent_iff (x : Exchange text inetNtop) (h : InSync running) :
    (∃ p okMsg, acceptEvent text inetNtop running x.call x.turn = some (some p, x.result, okMsg) ∧
      p.unread = []) ↔ x.Framed := by
  obtain ⟨q, -, hiff⟩ := acceptEvent_eq_some_iff x h
  rw [framed_iff]
  constructor
  · rintro ⟨p, okMsg, haccept, hunread⟩
    obtain ⟨response, unread, hread, hjudge, rfl⟩ := (hiff _ _ _).mp haccept
    have hnil : unread = [] := hunread
    rw [hnil] at hread
    exact ⟨response, hread, judge_eq_ok_iff.mp ⟨okMsg, hjudge⟩⟩
  · rintro ⟨v, hread, hanswers⟩
    obtain ⟨okMsg, hjudge⟩ := judge_eq_ok_iff.mpr hanswers
    exact ⟨{ q with unread := [] }, okMsg, (hiff _ _ _).mpr ⟨v, [], hread, hjudge, rfl⟩, rfl⟩

theorem inSync_of_acceptEvent (x : Exchange text inetNtop) (h : InSync running) {p : RunningPlugin}
    {result : PluginEventSifterResult} {okMsg : Bytes}
    (haccept : acceptEvent text inetNtop running x.call x.turn = some (some p, result, okMsg))
    (hunread : p.unread = []) : InSync (some p) := by
  obtain ⟨q, hclosed, hiff⟩ := acceptEvent_eq_some_iff x h
  obtain ⟨response, unread, -, -, rfl⟩ := (hiff _ _ _).mp haccept
  rintro _ ⟨⟩
  exact ⟨hunread, hclosed⟩

/-! ## Sequences of calls -/

theorem staysInStep_of_inSync (xs : List (Exchange text inetNtop)) (h : InSync running) :
    StaysInStep text inetNtop running xs ↔ ∀ x ∈ xs, x.Framed := by
  induction xs generalizing running with
  | nil => exact ⟨fun _ => nofun, fun _ => trivial⟩
  | cons x xs ih =>
    rw [StaysInStep, List.forall_mem_cons]
    constructor
    · rintro ⟨p, okMsg, haccept, hunread, hrest⟩
      refine ⟨(acceptEvent_iff x h).mp ⟨p, okMsg, haccept, hunread⟩, ?_⟩
      exact (ih (inSync_of_acceptEvent x h haccept hunread)).mp hrest
    · rintro ⟨hx, hxs⟩
      obtain ⟨p, okMsg, haccept, hunread⟩ := (acceptEvent_iff x h).mpr hx
      refine ⟨p, okMsg, haccept, hunread, ?_⟩
      exact (ih (inSync_of_acceptEvent x h haccept hunread)).mpr hxs

/-- The calls stay in step exactly if every exchange is framed. -/
theorem staysInStep_iff (xs : List (Exchange text inetNtop)) :
    StaysInStep text inetNtop none xs ↔ ∀ x ∈ xs, x.Framed :=
  staysInStep_of_inSync xs inSync_none

/-- A line that fits into the buffer and has no zero byte is its only piece, and read as it is. -/
theorem fgetsPieces_line {line : Bytes} (hline : 10 ∉ line) (hfits : line.length < pluginBufSize - 1)
    (hzero : 0 ∉ line) :
    fgetsPieces (line ++ [10]) = [line ++ [10]] ∧ cString (line ++ [10]) = line ++ [10] := by
  refine ⟨pieces_line hline hfits, List.takeWhile_eq_self_iff.mpr ?_⟩
  intro c hc
  rw [bne_iff_ne]
  rintro rfl
  rcases List.mem_append.mp hc with hc | hc
  · exact hzero hc
  · exact absurd hc (by decide)

/-- An exchange is framed when each of its lines fits into the buffer and has no zero byte. -/
theorem framed_of_fits (x : Exchange text inetNtop)
    (hfits : ∀ line ∈ x.line :: x.diagnostics, line.length < pluginBufSize - 1 ∧ 0 ∉ line) : x.Framed := by
  obtain ⟨hline, hdiag⟩ := List.forall_mem_cons.mp hfits
  obtain ⟨hpieces, htext⟩ := fgetsPieces_line x.lines.1 hline.1 hline.2
  refine ⟨?_, [], x.line ++ [10], x.response, hpieces, nofun, ?_, x.answers⟩
  · intro d hd piece hpiece
    obtain ⟨hpieces, htext⟩ := fgetsPieces_line (x.lines.2 d hd) (hdiag d hd).1 (hdiag d hd).2
    rw [hpieces, List.mem_singleton] at hpiece
    rw [hpiece, Skipped, htext]
    exact x.notJson d hd
  · rw [htext]
    exact x.parses

/-- When every piece is skipped, the call waits although the plugin has answered. -/
theorem acceptEvent_waits (x : Exchange text inetNtop) (h : InSync running)
    (hskip : ∀ piece ∈ fgetsPieces x.turn.output, Skipped text piece) :
    acceptEvent text inetNtop running x.call x.turn = none := by
  obtain ⟨p, -, hask⟩ := ask_of_exchange x h
  have hended : Ended 10 x.turn.output := by
    rw [x.output_eq, ← List.append_assoc]
    exact .inr List.getLast?_concat
  rw [acceptEvent, if_neg x.hasCommand, hask, readResponse_waits hended hskip]
  rfl

end Dialogue

/-! ## A long answer -/

/-- The response that accepts an event with a message. -/
def acceptResponse (id msg : Bytes) : Json :=
  .object [(ascii "action", .string (ascii "accept")), (ascii "id", .string id), (ascii "msg", .string msg)]

theorem answersWith_acceptResponse (id msg : Bytes) :
    AnswersWith (.object [(ascii "id", .string id)]) (acceptResponse id msg) .accept := by
  refine ⟨⟨id, rfl, rfl⟩, rfl, ?_⟩
  intro v hv
  exact ⟨msg, (Option.some.inj hv).symm⟩

def longId : Bytes := List.replicate 64 97

/-- A message of 9000 bytes. -/
def longMsg : Bytes := List.replicate 9000 97

/-- The line of the response with the long message. -/
def longLine : Bytes :=
  ascii "\x7b\"action\":\"accept\",\"id\":\"" ++ longId ++ ascii "\",\"msg\":\"" ++ longMsg ++
    ascii "\"\x7d"

/-- A parser that knows this answer; no part of it is JSON. -/
def longText : JsonText where
  fromString s := if s = longLine ++ [10] then .ok (acceptResponse longId longMsg) else .error .badJson
  toString _ := []

theorem length_longLine : longLine.length = 9100 := by
  simp only [longLine, longId, longMsg, List.length_append, List.length_replicate]
  rfl

theorem newline_notMem_longLine : 10 ∉ longLine := by
  simp only [longLine, longId, longMsg, List.mem_append, List.mem_replicate]
  decide

/-- The exchange with the long answer. -/
def longExchange : Exchange longText id where
  call := ⟨ascii "./policy.py", .object [(ascii "id", .string longId)], .stream, []⟩
  turn := ⟨1700000000, some 1, true, true, longLine ++ [10], false⟩
  diagnostics := []
  line := longLine
  response := acceptResponse longId longMsg
  result := .accept
  hasCommand := by decide
  isThere _ := ⟨1, rfl⟩
  starts := rfl
  makesRequest := ⟨_, rfl⟩
  takesRequest := rfl
  staysOpen := rfl
  output_eq := rfl
  lines := ⟨newline_notMem_longLine, nofun⟩
  notJson := nofun
  parses := by simp only [longText, if_true]
  answers := answersWith_acceptResponse longId longMsg

/-- The long answer arrives in two pieces that are both skipped, and the writer waits for more. -/
theorem longExchange_waits :
    acceptEvent longText id none longExchange.call longExchange.turn = none ∧
      ¬ StaysInStep longText id none [longExchange] := by
  have hskip : ∀ piece : Bytes, piece.length < 9101 → Skipped longText piece := by
    intro piece hlength
    refine ⟨.badJson, if_neg fun heq => ?_⟩
    have hle := (List.takeWhile_sublist (l := piece) fun c => c != 0).length_le
    have hlong := congrArg List.length heq
    rw [List.length_append, length_longLine] at hlong
    simp only [cString, List.length_singleton] at hlong
    omega
  have hpieces : fgetsPieces (longLine ++ [10]) = [longLine.take 8191, longLine.drop 8191 ++ [10]] := by
    have hrest : 10 ∉ longLine.drop 8191 := fun h => newline_notMem_longLine (List.mem_of_mem_drop h)
    have htake : takeLine 10 (pluginBufSize - 1) (longLine ++ [10]) =
        (longLine.take 8191, longLine.drop 8191 ++ [10]) :=
      takeLine_long newline_notMem_longLine (by rw [length_longLine]; decide) [10]
    rw [fgetsPieces, pieces_of_ne_nil (by decide) (by simp), htake, pieces_line hrest]
    rw [List.length_drop, length_longLine]
    decide
  have hwaits : acceptEvent longText id none longExchange.call longExchange.turn = none := by
    apply acceptEvent_waits longExchange inSync_none
    intro piece hpiece
    have hmem : piece ∈ fgetsPieces (longLine ++ [10]) := hpiece
    rw [hpieces, List.mem_cons, List.mem_singleton] at hmem
    apply hskip
    rcases hmem with hmem | hmem
    · rw [hmem, List.length_take]
      omega
    · rw [hmem, List.length_append, List.length_drop, length_longLine]
      decide
  refine ⟨hwaits, ?_⟩
  rintro ⟨p, okMsg, haccept, -⟩
  rw [hwaits] at haccept
  cases haccept

end PluginEventSifter

end Strfry
