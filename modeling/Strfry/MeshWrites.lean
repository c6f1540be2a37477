import Strfry.Dictionaries
import Strfry.EventVerify
import Strfry.Writer

/-!
# What the pipelines of stream and router write

`cmd_stream` and the router give the events that they are sent to a `WriterPipeline`, as JSON. A batch of the
pipeline adds no row whose id is not that of one of these events (`exists_written_of_added`).
-/

set_option autoImplicit false

namespace Strfry

open Lib

/-- The pipeline has verified the events of the batch, each when it came to it. -/
def VerifiedFrom (V : Verifier) (written : List Json) (evs : List EventToWrite) : Prop :=
  ∀ ev ∈ evs, ev.status = .pending ∧ ∃ v ∈ written, ∃ now,
    parseAndVerifyEvent { V with now := now } true true v = .ok (ev.packed, ev.jsonStr)

/-- The rows that a transaction has added. -/
def added (db db' : Db) : List (Nat × PackedEvent) :=
  db'.event.rows.filter fun r => decide (r ∉ db.event.rows)

/-- The id that an event claims. -/
def claimedId (V : Verifier) (v : Json) : Except Err Bytes :=
  v.member "id" >>= Json.getString >>= V.hex.fromHexPrefixed

/-- The message with an event. -/
def eventMsg (json : Bytes) : Bytes := ascii "[\"EVENT\"," ++ json ++ ascii "]"

variable {V : Verifier} {written : List Json} {evs evs' : List EventToWrite} {db db' : Db}

theorem VerifiedFrom.submitted (h : VerifiedFrom V written evs) : Submitted V.hex evs := by
  intro ev hev
  obtain ⟨hpending, v, -, now, hparse⟩ := h ev hev
  have hjson := fromJson_of_parseAndVerifyEvent hparse
  exact ⟨hpending, hjson⟩

/-- A row that a batch adds has the id of an event that the pipeline was given. -/
theorem exists_written_of_added {S : StdSort} {ord : IndexOrder} {cache : NegentropyFilterCache}
    (hreach : StoreReachable ord V.hex V.text db) (h : VerifiedFrom V written evs)
    (call : (writeEvents S ord V.hex V.text cache db evs).2 = .ok (db', evs')) :
    ∀ r ∈ added db db', ∃ v ∈ written, claimedId V v = .ok r.2.id := by
  intro r hr
  have heffect := (writeEvents_removes_only_targets hreach h.submitted).2 db' evs' call
  obtain ⟨hr', hnot⟩ := List.mem_filter.mp hr
  rw [decide_eq_true_eq] at hnot
  obtain ⟨w, hw, -, rfl⟩ := (heffect.only r hr').resolve_left hnot
  obtain ⟨ev, hev, hcontent⟩ := List.mem_map.mp (heffect.contents.mem_iff.mp (List.mem_map_of_mem hw))
  obtain ⟨-, v, hv, now, hparse⟩ := h ev hev
  have hjson := parseAndVerifyEvent_eq_ok hparse
  obtain ⟨fields⟩ := nostrJsonToPackedEvent_fields hjson
  have hpacked : ev.packed = w.packed := congrArg Prod.fst hcontent
  refine ⟨v, hv, ?_⟩
  rw [claimedId, fields.member_id, ← hpacked]
  exact V.hex.fromHexPrefixed_of_fromHex _ _ fields.id_eq

end Strfry
