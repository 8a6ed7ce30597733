import Questline.Proofs.Instant
import Questline.Proofs.Json
import Questline.Record.Text

/-!
# Records survive being handed over

A record is handed over as text and read back when it is needed again. Nothing is lost on the way, whatever the record
holds; and a text that came from elsewhere and was accepted denotes the same record as the text that is written for it.
-/

namespace Questline.Record

open Json (Plain)
open Numeral

theorem readTime_writeTime (t : Option Instant) : Json.optional readTime (some (writeTime t)) = some t := by
  cases t with
  | none => rfl
  | some t =>
    show (readTime (Json.ofString t.toText)).map some = _
    rw [readTime, Json.string?_ofString, Option.bind_some, Instant.ofText?_toText]
    rfl

theorem readPhase_name (phase : Phase) : readPhase (.ofString phase.name) = some phase := by
  rw [readPhase, Json.tag?_ofString, Option.bind_some]
  cases phase <;> rfl

theorem readItemKey_digits (item : ItemId) : readItemKey (digits item.number.toNat) = some item := by
  have hread : Json.readWhole (digits item.number.toNat ++ []) = some (digits item.number.toNat, []) :=
    Json.readWhole_digits item.number.toNat nofun
  rw [List.append_nil] at hread
  have hnumber := Json.uint32?_ofNat item.number
  unfold Json.ofNat at hnumber
  unfold readItemKey
  rw [hread]
  simp only [hnumber, Option.map_some]

theorem readItems_writeItems (items : Table ItemId UInt32) : readItems (writeItems items) = some items := by
  have hfields : ∀ l : List (ItemId × UInt32),
      (l.map fun e => (digits e.1.number.toNat, Json.ofNat e.2.toNat)).mapM readItem = some l := by
    intro l
    induction l with
    | nil => rfl
    | cons e l ih =>
      rw [List.map_cons, List.mapM_cons, ih]
      simp only [readItem, readItemKey_digits, Json.uint32?_ofNat]
      rfl
  unfold writeItems readItems
  simp only [hfields, Option.map_some, Table.ofList_toList]

def writeCond : Option UInt8 → Json
  | some cond => .ofNat cond.toNat
  | none => .null

theorem readCond_writeCond (cond : Option UInt8) : Json.optional Json.uint8? (some (writeCond cond)) = some cond := by
  cases cond with
  | none => rfl
  | some cond =>
    show (Json.uint8? (.ofNat cond.toNat)).map some = _
    rw [Json.uint8?_ofNat]
    rfl

def fields (r : Record) : List (String × Json) := [
  ("quest_id", .ofNat r.quest.number.toNat),
  ("phase", .ofString r.phase.name),
  ("cond", writeCond r.cond),
  ("items", writeItems r.items),
  ("started_at", writeTime r.startedAt),
  ("completed_at", writeTime r.completedAt)]

theorem toJson_eq (r : Record) : r.toJson = .ofFields r.fields := rfl

theorem plain_toJson (r : Record) : Plain r.toJson := by
  have hcond : Plain (writeCond r.cond) := by
    cases r.cond with
    | none => exact .null
    | some cond => exact Json.plain_ofNat _
  have htime : ∀ t, Plain (writeTime t) := by
    intro t
    cases t with
    | none => exact .null
    | some t => exact .string _
  have hitems : Plain (writeItems r.items) := by
    refine .object (fun f hf => ?_) fun f hf => ?_
    all_goals obtain ⟨e, -, rfl⟩ := List.mem_map.1 hf
    · exact ⟨_, (Json.escape_digits _).symm⟩
    · exact Json.plain_ofNat _
  rw [toJson_eq]
  refine Json.plain_ofFields fun f hf => ?_
  simp only [fields, List.mem_cons, List.not_mem_nil, or_false] at hf
  rcases hf with rfl | rfl | rfl | rfl | rfl | rfl
  · exact Json.plain_ofNat _
  · exact .string _
  · exact hcond
  · exact hitems
  · exact htime _
  · exact htime _

theorem ofJson?_toJson (r : Record) : ofJson? r.toJson = some r := by
  have hnodup : (r.fields.map (·.1)).Nodup := by
    show ["quest_id", "phase", "cond", "items", "started_at", "completed_at"].Nodup
    decide
  have hrecord := Json.record?_ofFields hnodup
  rw [← toJson_eq] at hrecord
  simp only [fields, List.map_cons, List.map_nil] at hrecord
  unfold ofJson?
  rw [hrecord]
  simp only [Option.bind_eq_bind, Option.bind_some]
  rw [Json.uint32?_ofNat, readPhase_name, readCond_writeCond, readItems_writeItems, readTime_writeTime,
    readTime_writeTime]
  rfl

theorem ofText?_toText (r : Record) : ofText? r.toText = some r := by
  rw [ofText?, toText, (plain_toJson r).parse?_render, Option.bind_some, ofJson?_toJson]

/-- Whatever a record holds, it is read back from its text just as it was. So a text that is accepted, in whatever
order, spelling and offset it gives the fields, denotes the same record as the text that is written for it; the written
text is accepted again, and writes as itself. Two accepted texts denote one record exactly when they are rewritten
alike. -/
theorem handed_over_unchanged :
    (∀ r : Record, ofText? r.toText = some r) ∧
    ∀ text r, ofText? text = some r →
      ofText? r.toText = ofText? text ∧ (ofText? r.toText).map toText = some r.toText ∧
        ∀ text' r', ofText? text' = some r' → (ofText? text' = ofText? text ↔ r'.toText = r.toText) := by
  refine ⟨ofText?_toText, fun text r h => ⟨?_, ?_, fun text' r' h' => ?_⟩⟩
  · rw [ofText?_toText, h]
  · rw [ofText?_toText]
    rfl
  · rw [h, h', Option.some.injEq]
    constructor
    · intro he
      rw [he]
    · intro he
      have hread := ofText?_toText r'
      rw [he, ofText?_toText] at hread
      exact (Option.some.inj hread).symm

/-- A repeated item, a leap second, and an offset that moves a year of five digits into one of four. -/
theorem handed_over_unchanged_leap_second :
    ∃ r, ofText? ("[7, \x7b\"Started\": null\x7d, 1, \x7b\"5\": 2, \"3\": 1, \"5\": 4\x7d, " ++
        "\"+10000-1-1t00:59:60.5+01:00\", null]") = some r ∧
      r.items.toList = [(⟨3⟩, 1), (⟨5⟩, 4)] ∧ r.startedAt.map Instant.toText = some "9999-12-31T23:59:60.500Z" ∧
      (ofText? r.toText).map toText = some r.toText := by
  have hread : (ofText? ("[7, \x7b\"Started\": null\x7d, 1, \x7b\"5\": 2, \"3\": 1, \"5\": 4\x7d, " ++
      "\"+10000-1-1t00:59:60.5+01:00\", null]")).map (fun r => (r.items.toList, r.startedAt.map Instant.toText)) =
        some ([(⟨3⟩, 1), (⟨5⟩, 4)], some "9999-12-31T23:59:60.500Z") := by
    decide +kernel
  obtain ⟨r, hr, hfields⟩ := Option.map_eq_some_iff.1 hread
  obtain ⟨hitems, hstarted⟩ := Prod.mk.inj hfields
  exact ⟨r, hr, hitems, hstarted, (handed_over_unchanged.2 _ r hr).2.1⟩

end Questline.Record
