import Strfry.ActiveMonitors
import Strfry.Lib.Buffer

/-!
# Sending an event to many subscriptions

The websocket thread keeps one string for the messages of a broadcast. The text of the event is appended
at a fixed offset, and for each recipient the header and the id of the subscription are written in front
of it, so that the id ends at that offset. What was written for an earlier recipient with a longer id, or
for an earlier event, stands before the message and is not sent (`sendEventToBatch_eq`).
-/

set_option autoImplicit false

namespace Strfry

open Lib

namespace Websocket

/-- `MAX_SUBID_SIZE`. -/
def maxSubIdSize : Nat := 71

/-- What stands before the id of the subscription. -/
def eventHeader : Bytes := ascii "[\"EVENT\",\""

/-- `RelayServer::sendEvent`: the payload that is sent. -/
def sendEvent (subId : SubId) (evJson : Bytes) : Bytes :=
  eventHeader ++ subId.sv ++ ascii "\"," ++ evJson ++ ascii "]"

/-- `tempBuf` before the first recipient. -/
def prepare (tempBuf evJson : Bytes) : Bytes :=
  resizeTo tempBuf (10 + maxSubIdSize) 0 ++ ascii "\"," ++ evJson ++ ascii "]"

/-- The loop over the recipients: the payloads with the connections they are for, and `tempBuf`. A write
or a view outside of `tempBuf` is `none`. -/
def sendToRecipients (evJson : Bytes) :
    RecipientList → Bytes → Option (List (Nat × Bytes) × Bytes)
  | [], tempBuf => some ([], tempBuf)
  | item :: list, tempBuf => do
    let subIdSv := item.2.sv
    let p : Int := (maxSubIdSize : Int) - subIdSv.length
    let tempBuf ← copyTo tempBuf p eventHeader
    let tempBuf ← copyTo tempBuf (p + 10) subIdSv
    let payload ← viewAt tempBuf p (13 + subIdSv.length + evJson.length)
    let r ← sendToRecipients evJson list tempBuf
    some ((item.1, payload) :: r.1, r.2)

/-- The branch for `SendEventToBatch`. -/
def sendEventToBatch (tempBuf : Bytes) (list : RecipientList) (evJson : Bytes) :
    Option (List (Nat × Bytes) × Bytes) :=
  sendToRecipients evJson list (prepare tempBuf evJson)

/-- Batches, one after the other, with the same `tempBuf`. -/
def sendBatches : List (RecipientList × Bytes) → Bytes → Option (List (Nat × Bytes) × Bytes)
  | [], tempBuf => some ([], tempBuf)
  | batch :: batches, tempBuf => do
    let sent ← sendEventToBatch tempBuf batch.1 batch.2
    let r ← sendBatches batches sent.2
    some (sent.1 ++ r.1, r.2)

/-- The text of the event is in its place. -/
def Prepared (evJson tempBuf : Bytes) : Prop :=
  ∃ front : Bytes, front.length = 10 + maxSubIdSize ∧
    tempBuf = front ++ (ascii "\"," ++ evJson ++ ascii "]")

theorem prepared_prepare (tempBuf evJson : Bytes) : Prepared evJson (prepare tempBuf evJson) := by
  refine ⟨resizeTo tempBuf (10 + maxSubIdSize) 0, length_resizeTo _ _ _, ?_⟩
  rw [prepare, List.append_assoc, List.append_assoc, List.append_assoc]

/-- One recipient: the writes stay in front of the text of the event, and the view is the message. -/
theorem send_one {evJson tempBuf : Bytes} (h : Prepared evJson tempBuf) (subId : SubId) :
    ∃ tempBuf₁ tempBuf₂, copyTo tempBuf ((maxSubIdSize : Int) - subId.sv.length) eventHeader = some tempBuf₁ ∧
      copyTo tempBuf₁ ((maxSubIdSize : Int) - subId.sv.length + 10) subId.sv = some tempBuf₂ ∧
      viewAt tempBuf₂ ((maxSubIdSize : Int) - subId.sv.length) (13 + subId.sv.length + evJson.length) =
        some (sendEvent subId evJson) ∧ Prepared evJson tempBuf₂ := by
  obtain ⟨front, hfront, rfl⟩ := h
  have hheader : eventHeader.length = 10 := rfl
  have hmax : maxSubIdSize = 71 := rfl
  have hle := subId.size_le
  rw [hmax] at hfront ⊢
  -- the bytes in front of the message, those under the header, those under the id
  let kept := front.take (71 - subId.sv.length)
  let old₁ := (front.drop (71 - subId.sv.length)).take 10
  let old₂ := front.drop (81 - subId.sv.length)
  let tail := ascii "\"," ++ evJson ++ ascii "]"
  have hkept : kept.length = 71 - subId.sv.length := by
    rw [List.length_take]
    omega
  have hold₁ : old₁.length = 10 := by
    rw [List.length_take, List.length_drop]
    omega
  have hold₂ : old₂.length = subId.sv.length := by
    rw [List.length_drop]
    omega
  have hsplit : front = kept ++ old₁ ++ old₂ := by
    have hend : 71 - subId.sv.length + 10 = 81 - subId.sv.length := by omega
    have hdrop : old₂ = (front.drop (71 - subId.sv.length)).drop 10 := by
      rw [List.drop_drop, hend]
    rw [hdrop, List.append_assoc, List.take_append_drop, List.take_append_drop]
  refine ⟨kept ++ eventHeader ++ (old₂ ++ tail), (kept ++ eventHeader) ++ subId.sv ++ tail, ?_, ?_, ?_, ?_⟩
  · rw [hsplit, List.append_assoc (kept ++ old₁)]
    apply copyTo_append
    · omega
    · rw [hheader, hold₁]
  · rw [← List.append_assoc (kept ++ eventHeader)]
    apply copyTo_append
    · rw [List.length_append, hheader]
      omega
    · exact hold₂.symm
  · have hmessage : (kept ++ eventHeader) ++ subId.sv ++ tail = kept ++ sendEvent subId evJson := by
      simp only [sendEvent, tail, List.append_assoc]
    rw [hmessage]
    apply viewAt_append
    · omega
    · have hclose : (ascii "\",").length = 2 := rfl
      have hbracket : (ascii "]").length = 1 := rfl
      rw [sendEvent, List.length_append, List.length_append, List.length_append, List.length_append,
        hheader, hclose, hbracket]
      omega
  · refine ⟨kept ++ eventHeader ++ subId.sv, ?_, rfl⟩
    rw [List.length_append, List.length_append, hheader]
    omega

/-- The loop sends to each recipient the message of `sendEvent`. -/
theorem sendToRecipients_eq {evJson tempBuf : Bytes} (list : RecipientList)
    (h : Prepared evJson tempBuf) :
    ∃ tempBuf', sendToRecipients evJson list tempBuf =
        some (list.map fun item => (item.1, sendEvent item.2 evJson), tempBuf') ∧
      Prepared evJson tempBuf' := by
  induction list generalizing tempBuf with
  | nil => exact ⟨tempBuf, rfl, h⟩
  | cons item list ih =>
    obtain ⟨tempBuf₁, tempBuf₂, hheader, hid, hview, hprepared⟩ := send_one h item.2
    obtain ⟨tempBuf', hrest, hprepared'⟩ := ih hprepared
    refine ⟨tempBuf', ?_, hprepared'⟩
    simp only [sendToRecipients, hheader, hid, hview, hrest, Option.bind_eq_bind, Option.bind_some,
      List.map_cons]

/-- Whatever `tempBuf` holds, a broadcast sends to each recipient what `sendEvent` sends, and nothing is
written or read outside of `tempBuf`. -/
theorem sendEventToBatch_eq (tempBuf : Bytes) (list : RecipientList) (evJson : Bytes) :
    ∃ tempBuf', sendEventToBatch tempBuf list evJson =
      some (list.map fun item => (item.1, sendEvent item.2 evJson), tempBuf') := by
  obtain ⟨tempBuf', heq, -⟩ := sendToRecipients_eq list (prepared_prepare tempBuf evJson)
  exact ⟨tempBuf', heq⟩

/-- So do any number of broadcasts, one after the other. -/
theorem sendBatches_eq (batches : List (RecipientList × Bytes)) (tempBuf : Bytes) :
    ∃ tempBuf', sendBatches batches tempBuf =
      some (batches.flatMap fun batch => batch.1.map fun item => (item.1, sendEvent item.2 batch.2),
        tempBuf') := by
  induction batches generalizing tempBuf with
  | nil => exact ⟨tempBuf, rfl⟩
  | cons batch batches ih =>
    obtain ⟨tempBuf₁, hsent, -⟩ := sendToRecipients_eq batch.1 (prepared_prepare tempBuf batch.2)
    obtain ⟨tempBuf', hrest⟩ := ih tempBuf₁
    refine ⟨tempBuf', ?_⟩
    simp only [sendBatches, sendEventToBatch, hsent, hrest, Option.bind_eq_bind, Option.bind_some, List.flatMap_cons]

end Websocket

end Strfry
