import Questline.Instant.Text
import Questline.Json.Decode
import Questline.Record

/-!
Records as JSON, the form in which they are handed over for storage. The fields stand in a fixed order and the
items in ascending order; times are text, and what is missing is null.
-/

namespace Questline

namespace Phase

def name : Phase → String
  | .created => "Created"
  | .started => "Started"
  | .completed => "Completed"

def ofName? (s : String) : Option Phase :=
  if s = "Created" then some .created
  else if s = "Started" then some .started
  else if s = "Completed" then some .completed
  else none

end Phase

namespace Record

def writeTime (t : Option Instant) : Json :=
  match t with
  | some t => .ofString t.toText
  | none => .null

def writeItems (items : Table ItemId UInt32) : Json :=
  .object (items.toList.map fun e => (Numeral.digits e.1.number.toNat, .ofNat e.2.toNat))

def toJson (r : Record) : Json :=
  .ofFields [
    ("quest_id", .ofNat r.quest.number.toNat),
    ("phase", .ofString r.phase.name),
    ("cond", match r.cond with
      | some cond => .ofNat cond.toNat
      | none => .null),
    ("items", writeItems r.items),
    ("started_at", writeTime r.startedAt),
    ("completed_at", writeTime r.completedAt)]

def toText (r : Record) : String := r.toJson.render

def readTime (v : Json) : Option Instant := v.string?.bind Instant.ofText?

def readPhase (v : Json) : Option Phase := v.tag?.bind Phase.ofName?

/-- The number of an item as a key is spelled: decimal digits without a zero in front of others. -/
def readItemKey (key : List Char) : Option ItemId :=
  match Json.readWhole key with
  | some (ds, []) => (Json.uint32? (.number ds)).map fun number => ⟨number⟩
  | _ => none

def readItem (field : List Char × Json) : Option (ItemId × UInt32) := do
  return (← readItemKey field.1, ← field.2.uint32?)

/-- Of two entries for one item the later counts. -/
def readItems : Json → Option (Table ItemId UInt32)
  | .object fields => (fields.mapM readItem).map Table.ofList
  | _ => none

def ofJson? (v : Json) : Option Record := do
  let [some quest, some phase, cond, some items, startedAt, completedAt] ←
    v.record? ["quest_id", "phase", "cond", "items", "started_at", "completed_at"] | none
  return {
    quest := ⟨← quest.uint32?⟩
    phase := ← readPhase phase
    cond := ← Json.optional Json.uint8? cond
    items := ← readItems items
    startedAt := ← Json.optional readTime startedAt
    completedAt := ← Json.optional readTime completedAt }

def ofText? (s : String) : Option Record := (Json.parse? s).bind ofJson?

end Record

end Questline
